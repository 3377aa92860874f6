import Mathlib
import Docmark.Proofs.FinalFeed.Markup
import Docmark.Proofs.Rewrite.Targets

/-!
# HTML tells targets

Every target in a tree is written in its HTML, in quotes that it cannot leave.  So trees that differ
in their targets alone have different HTML.

## Main results

* `Renderer.render_mapTargetsAt_eq_iff` — trees with the same HTML, but for targets, are the same.
-/

namespace Docmark

/-! ## Values in quotes -/

lemma append_cons_inj_of_notMem {q : Char} {t t' s s' : Text} (ht : q ∉ t) (ht' : q ∉ t')
    (h : t ++ q :: s = t' ++ q :: s') : t = t' ∧ s = s' := by
  have hnil {t t' u s s' : Text} (ht' : q ∉ t') (htext : t' = t ++ u) (hrest : q :: s = u ++ s') :
      u = [] := by
    cases u with
    | nil => rfl
    | cons d u =>
      obtain ⟨rfl, -⟩ := List.cons.inj hrest
      exact absurd (by rw [htext]; simp) ht'
  rcases List.append_eq_append_iff.1 h with ⟨u, htext, hrest⟩ | ⟨u, htext, hrest⟩
  · obtain rfl := hnil ht' htext hrest
    exact ⟨by simpa using htext.symm, (List.cons.inj hrest).2⟩
  · obtain rfl := hnil ht htext hrest
    exact ⟨by simpa using htext, (List.cons.inj hrest).2.symm⟩

/-- **A value in quotes can be read back.** -/
lemma escapeHtml_append_quote_inj {t t' s s' : Text}
    (h : escapeHtml t ++ '"' :: s = escapeHtml t' ++ '"' :: s') : t = t' ∧ s = s' := by
  have hquote (t : Text) : '"' ∉ escapeHtml t := fun hmem => escapeHtml_inert t _ hmem (by simp)
  obtain ⟨htext, hrest⟩ := append_cons_inj_of_notMem (hquote t) (hquote t') h
  exact ⟨by rw [← (escapeHtml_escapes t).unescape_eq, htext, (escapeHtml_escapes t').unescape_eq],
    hrest⟩

/-! ## HTML that tells something -/

/-- Two pieces of HTML tell something if it holds whenever texts start with one and with the other
and are the same; then they are also the same behind. -/
def Html.Tell (same : Prop) (xs xs' : List Html) : Prop :=
  ∀ s s', Html.writeAll xs ++ s = Html.writeAll xs' ++ s' → same ∧ s = s'

namespace Html.Tell

variable {same same' : Prop} {xs xs' ys ys' : List Html}

lemma refl (xs : List Html) : Html.Tell True xs xs :=
  fun _ _ h => ⟨trivial, List.append_cancel_left h⟩

lemma imp (h : Html.Tell same xs xs') (himp : same → same') : Html.Tell same' xs xs' :=
  fun s s' hs => (h s s' hs).imp_left himp

lemma append (hxs : Html.Tell same xs xs') (hys : Html.Tell same' ys ys') :
    Html.Tell (same ∧ same') (xs ++ ys) (xs' ++ ys') := by
  intro s s' h
  rw [Html.writeAll_append, Html.writeAll_append, List.append_assoc, List.append_assoc] at h
  obtain ⟨hsame, h⟩ := hxs _ _ h
  obtain ⟨hsame', rfl⟩ := hys _ _ h
  exact ⟨⟨hsame, hsame'⟩, rfl⟩

lemma within (h : Html.Tell same xs xs') (pre post : List Html) :
    Html.Tell same (pre ++ xs ++ post) (pre ++ xs' ++ post) :=
  (((refl pre).append h).append (refl post)).imp fun h => h.1.2

lemma element (h : Html.Tell same xs xs') (name : String) (attributes : List Attribute) :
    Html.Tell same [.element name attributes xs] [.element name attributes xs'] := by
  intro s s' hs
  simp only [Html.writeAll_singleton, Html.write, List.append_assoc] at hs
  obtain ⟨hsame, hs⟩ := h _ _ (List.append_cancel_left hs)
  exact ⟨hsame, by simpa using hs⟩

lemma then_lineFeed {x x' : Html} (h : Html.Tell same [x] [x']) :
    Html.Tell same [x, .lineFeed] [x', .lineFeed] :=
  h.within [] [.lineFeed]

/-- A link tells its target. -/
lemma link (h : Html.Tell same xs xs') (href href' : Text) (attributes : List Attribute) :
    Html.Tell (href = href' ∧ same) [.element "a" (.of "href" href :: attributes) xs]
      [.element "a" (.of "href" href' :: attributes) xs'] := by
  intro s s' hs
  simp only [Html.writeAll_singleton, Html.write, writeTag, List.flatMap_cons, Attribute.write,
    Attribute.of, List.append_assoc, List.cons_append, List.cons.injEq, true_and,
    List.append_cancel_left_eq, List.nil_append] at hs
  obtain ⟨hhref, hs⟩ := escapeHtml_append_quote_inj hs
  obtain ⟨hsame, hs⟩ := h _ _ (List.cons.inj (List.append_cancel_left hs)).2
  exact ⟨⟨hhref, hsame⟩, by simpa using hs⟩

/-- An image tells its target. -/
lemma image (src src' : Text) (attributes : List Attribute) :
    Html.Tell (src = src') [.void "img" (.of "src" src :: attributes)]
      [.void "img" (.of "src" src' :: attributes)] := by
  intro s s' hs
  simp only [Html.writeAll_singleton, Html.write, writeTag, List.flatMap_cons, Attribute.write,
    Attribute.of, List.append_assoc, List.cons_append, List.cons.injEq, true_and,
    List.append_cancel_left_eq, List.nil_append] at hs
  obtain ⟨hsrc, hs⟩ := escapeHtml_append_quote_inj hs
  exact ⟨hsrc, (List.cons.inj (List.append_cancel_left hs)).2⟩

/-- A table tells what its header and its other rows tell. -/
lemma table {align : List (Option Alignment)} {header header' : List (List Html)}
    {rows rows' : List (List (List Html))}
    (hheader : Html.Tell same [rowHtml "th" align header] [rowHtml "th" align header'])
    (hempty : rows.isEmpty = rows'.isEmpty)
    (hrows : Html.Tell same' (rows.flatMap fun r => [rowHtml "td" align r, .lineFeed])
      (rows'.flatMap fun r => [rowHtml "td" align r, .lineFeed])) :
    Html.Tell (same ∧ same') (tableHtml align header rows) (tableHtml align header' rows') := by
  have hhead := ((hheader.within [.lineFeed] [.lineFeed]).element "thead" []).within
    [.lineFeed] [.lineFeed]
  have hbody := ((hrows.within [.lineFeed] []).element "tbody" []).then_lineFeed
  simp only [List.append_nil, List.singleton_append] at hbody
  simp only [tableHtml, ← hempty]
  by_cases hnone : rows.isEmpty = true
  · have hnone' : rows'.isEmpty = true := hempty ▸ hnone
    rw [List.isEmpty_iff.1 hnone, List.isEmpty_iff.1 hnone'] at hrows
    rw [if_pos hnone, if_pos hnone]
    exact ((hhead.append hrows).element "table" []).then_lineFeed
  · rw [if_neg hnone, if_neg hnone]
    exact ((hhead.append hbody).element "table" []).then_lineFeed

end Html.Tell

/-- A frame around HTML tells what the HTML tells. -/
lemma Block.Frame.toHtml_tell {same : Prop} {xs xs' : List Html} (f : Block.Frame)
    (callout : Bool) (h : Html.Tell same xs xs') :
    Html.Tell same (f.toHtml callout xs) (f.toHtml callout xs') := by
  have hafter (pre : List Html) : Html.Tell same (pre ++ xs) (pre ++ xs') := by
    simpa only [List.append_nil] using h.within pre []
  cases f with
  | document => exact h
  | included path => exact h
  | blockquote =>
    cases callout with
    | true => exact h
    | false => exact ((hafter [.lineFeed]).element _ _).then_lineFeed
  | list ordered start loose => exact ((hafter [.lineFeed]).element _ _).then_lineFeed
  | listItem checked loose => exact ((hafter (taskHtml checked)).element _ _).then_lineFeed
  | note kind => exact ((hafter _).element _ _).then_lineFeed
  | division attributes => exact ((hafter [.lineFeed]).element _ _).then_lineFeed

/-- Two renderings that succeed and tell something. -/
def RenderingsTell (same : Prop) (a a' : Except Fault (List Html)) : Prop :=
  ∃ xs xs', a = .ok xs ∧ a' = .ok xs' ∧ Html.Tell same xs xs'

namespace RenderingsTell

variable {same same' : Prop} {a a' b b' : Except Fault (List Html)}

lemma refl (h : ∃ xs, a = .ok xs) : RenderingsTell True a a := by
  obtain ⟨xs, hxs⟩ := h
  exact ⟨xs, xs, hxs, hxs, .refl xs⟩

lemma imp (h : RenderingsTell same a a') (himp : same → same') : RenderingsTell same' a a' := by
  obtain ⟨xs, xs', hxs, hxs', htell⟩ := h
  exact ⟨xs, xs', hxs, hxs', htell.imp himp⟩

lemma map {f f' : List Html → List Html} (h : RenderingsTell same a a')
    (hf : ∀ xs xs', Html.Tell same xs xs' → Html.Tell same' (f xs) (f' xs')) :
    RenderingsTell same' (a.map f) (a'.map f') := by
  obtain ⟨xs, xs', rfl, rfl, htell⟩ := h
  exact ⟨f xs, f' xs', rfl, rfl, hf xs xs' htell⟩

lemma append (ha : RenderingsTell same a a') (hb : RenderingsTell same' b b') :
    RenderingsTell (same ∧ same') (do return (← a) ++ (← b)) (do return (← a') ++ (← b')) := by
  obtain ⟨xs, xs', rfl, rfl, htell⟩ := ha
  obtain ⟨ys, ys', rfl, rfl, htell'⟩ := hb
  exact ⟨xs ++ ys, xs' ++ ys', rfl, rfl, htell.append htell'⟩

/-- A sequence that is rendered one by one tells whether it is the same. -/
lemma sequence {α β : Type} {f g : α → β} {all : List β → Except Fault (List Html)}
    (hnil : all [] = .ok []) (hcons : ∀ b bs, all (b :: bs) = do return (← all [b]) ++ (← all bs))
    {as : List α} (h : ∀ a ∈ as, RenderingsTell (f a = g a) (all [f a]) (all [g a])) :
    RenderingsTell (as.map f = as.map g) (all (as.map f)) (all (as.map g)) := by
  induction as with
  | nil => exact ⟨[], [], hnil, hnil, (Html.Tell.refl []).imp fun _ => rfl⟩
  | cons a as ih =>
    rw [List.map_cons, List.map_cons, hcons (f a), hcons (g a)]
    have hrest := ih fun a' ha' => h a' (List.mem_cons_of_mem _ ha')
    refine ((h a List.mem_cons_self).append hrest).imp ?_
    rintro ⟨ha, has⟩
    rw [ha, has]

end RenderingsTell

/-! ## Trees that differ in targets -/

lemma Inline.Leaf.toHtml_tell (f g : Text → Text) (c : Inline.Leaf) :
    Html.Tell (c.mapTargets f = c.mapTargets g) (c.mapTargets f).toHtml (c.mapTargets g).toHtml := by
  cases c with
  | image src title alt =>
    refine (Html.Tell.image _ _ _).imp fun hsrc => ?_
    simp only [Inline.Leaf.mapTargets, hsrc]
  | _ => exact (Html.Tell.refl _).imp fun _ => rfl

lemma Inline.Frame.toHtml_tell (f g : Text → Text) (fr : Inline.Frame) {same : Prop}
    {xs xs' : List Html} (h : Html.Tell same xs xs') :
    Html.Tell (fr.mapTargets f = fr.mapTargets g ∧ same) ((fr.mapTargets f).toHtml xs)
      ((fr.mapTargets g).toHtml xs') := by
  cases fr with
  | link href title =>
    refine (h.link _ _ _).imp ?_
    rintro ⟨hhref, hsame⟩
    exact ⟨by simp only [Inline.Frame.mapTargets, hhref], hsame⟩
  | included path => exact h.imp fun hsame => ⟨rfl, hsame⟩
  | _ => exact (h.element _ _).imp fun hsame => ⟨rfl, hsame⟩

section Targets

variable (f g : Option Path → Text → Text)

lemma inlinesHtml_singleton (t : Inline) :
    Renderer.standard.inlinesHtml [t] = Renderer.standard.inlineHtml t := by
  simp only [Renderer.inlinesHtml]
  cases Renderer.standard.inlineHtml t with
  | error e => rfl
  | ok xs =>
    show Except.ok (xs ++ []) = Except.ok xs
    rw [List.append_nil]

lemma inlinesHtml_cons (t : Inline) (ts : List Inline) :
    Renderer.standard.inlinesHtml (t :: ts) =
      do return (← Renderer.standard.inlinesHtml [t]) ++ (← Renderer.standard.inlinesHtml ts) := by
  rw [inlinesHtml_singleton, Renderer.inlinesHtml]

lemma Inline.inlinesHtml_tell_of {file : Option Path} {ts : List Inline}
    (h : ∀ t ∈ ts, RenderingsTell (t.mapTargetsAt f file = t.mapTargetsAt g file)
      (Renderer.standard.inlineHtml (t.mapTargetsAt f file))
      (Renderer.standard.inlineHtml (t.mapTargetsAt g file))) :
    RenderingsTell (mapTargetsAtAll f file ts = mapTargetsAtAll g file ts)
      (Renderer.standard.inlinesHtml (mapTargetsAtAll f file ts))
      (Renderer.standard.inlinesHtml (mapTargetsAtAll g file ts)) := by
  rw [mapTargetsAtAll_eq_map, mapTargetsAtAll_eq_map]
  refine RenderingsTell.sequence (by rw [Renderer.inlinesHtml]) inlinesHtml_cons fun t ht => ?_
  rw [inlinesHtml_singleton, inlinesHtml_singleton]
  exact h t ht

lemma Inline.inlineHtml_tell (file : Option Path) (t : Inline) :
    RenderingsTell (t.mapTargetsAt f file = t.mapTargetsAt g file)
      (Renderer.standard.inlineHtml (t.mapTargetsAt f file))
      (Renderer.standard.inlineHtml (t.mapTargetsAt g file)) := by
  induction t using Inline.induction generalizing file with
  | leaf h c =>
    rw [mapTargetsAt, mapTargetsAt, Renderer.inlineHtml, Renderer.inlineHtml]
    exact ⟨_, _, rfl, rfl, (c.toHtml_tell _ _).imp fun hc => by rw [hc]⟩
  | node h fr ts ih =>
    rw [mapTargetsAt, mapTargetsAt, Renderer.inlineHtml, Renderer.inlineHtml]
    refine (inlinesHtml_tell_of f g fun t ht => ih t ht _).map fun xs xs' htell =>
      (fr.toHtml_tell _ _ htell).imp ?_
    rintro ⟨hfr, hts⟩
    rw [hfr, hts]

lemma Inline.inlinesHtml_tell (file : Option Path) (ts : List Inline) :
    RenderingsTell (mapTargetsAtAll f file ts = mapTargetsAtAll g file ts)
      (Renderer.standard.inlinesHtml (mapTargetsAtAll f file ts))
      (Renderer.standard.inlinesHtml (mapTargetsAtAll g file ts)) :=
  inlinesHtml_tell_of f g fun t _ => inlineHtml_tell f g file t

/-! ### Tables -/

/-- Cells, or rows, that are rendered one by one and each wrapped by its number tell whether all of
them are the same. -/
lemma mapM_tell {α β X : Type} {f g : α → β} {inner : β → Except Fault X}
    (wrap : X × ℕ → List Html) {as : List α}
    (h : ∀ a ∈ as, ∃ x x', inner (f a) = .ok x ∧ inner (g a) = .ok x' ∧
      ∀ i, Html.Tell (f a = g a) (wrap (x, i)) (wrap (x', i))) :
    ∃ xs xs', (as.map f).mapM inner = .ok xs ∧ (as.map g).mapM inner = .ok xs' ∧
      ∀ k, Html.Tell (as.map f = as.map g) ((xs.zipIdx k).flatMap wrap)
        ((xs'.zipIdx k).flatMap wrap) := by
  induction as with
  | nil => exact ⟨[], [], rfl, rfl, fun k => (Html.Tell.refl _).imp fun _ => rfl⟩
  | cons a as ih =>
    obtain ⟨x, x', hx, hx', htell⟩ := h a List.mem_cons_self
    obtain ⟨xs, xs', hxs, hxs', hrest⟩ := ih fun a' ha' => h a' (List.mem_cons_of_mem _ ha')
    refine ⟨x :: xs, x' :: xs', ?_, ?_, fun k => ?_⟩
    · rw [List.map_cons, List.mapM_cons, hx, hxs]
      rfl
    · rw [List.map_cons, List.mapM_cons, hx', hxs']
      rfl
    · rw [List.zipIdx_cons, List.zipIdx_cons, List.flatMap_cons, List.flatMap_cons]
      refine ((htell k).append (hrest (k + 1))).imp ?_
      rintro ⟨ha, has⟩
      rw [List.map_cons, List.map_cons, ha, has]

lemma rowHtml_tell (file : Option Path) (tag : String) (align : List (Option Alignment))
    (row : List (List Inline)) :
    ∃ xs xs', (row.map (Inline.mapTargetsAtAll f file)).mapM Renderer.standard.inlinesHtml = .ok xs ∧
      (row.map (Inline.mapTargetsAtAll g file)).mapM Renderer.standard.inlinesHtml = .ok xs' ∧
      Html.Tell (row.map (Inline.mapTargetsAtAll f file) = row.map (Inline.mapTargetsAtAll g file))
        [rowHtml tag align xs] [rowHtml tag align xs'] := by
  obtain ⟨xs, xs', hxs, hxs', htell⟩ := mapM_tell
    (fun x => [.element tag (Alignment.attribute (align[x.2]?.getD none)) x.1, .lineFeed])
    fun ts (_ : ts ∈ row) => by
      obtain ⟨x, x', hx, hx', htell⟩ := Inline.inlinesHtml_tell f g file ts
      exact ⟨x, x', hx, hx', fun i => (htell.element _ _).then_lineFeed⟩
  refine ⟨xs, xs', hxs, hxs', ?_⟩
  have hcells := ((htell 0).within [.lineFeed] []).element "tr" []
  simp only [List.append_nil, List.singleton_append] at hcells
  exact hcells

lemma tableHtml_tell (file : Option Path) (align : List (Option Alignment))
    (header : List (List Inline)) (rows : List (List (List Inline))) :
    RenderingsTell
      ((Block.Leaf.table align header rows).mapInlines (Inline.mapTargetsAtAll f file) =
        (Block.Leaf.table align header rows).mapInlines (Inline.mapTargetsAtAll g file))
      (((Block.Leaf.table align header rows).mapInlines (Inline.mapTargetsAtAll f file)).toHtml
        Renderer.standard.inlinesHtml)
      (((Block.Leaf.table align header rows).mapInlines (Inline.mapTargetsAtAll g file)).toHtml
        Renderer.standard.inlinesHtml) := by
  obtain ⟨xs, xs', hxs, hxs', hheader⟩ := rowHtml_tell f g file "th" align header
  obtain ⟨ys, ys', hys, hys', hrows⟩ := mapM_tell
    (fun x => [rowHtml "td" align x.1, .lineFeed])
    fun row (_ : row ∈ rows) => by
      obtain ⟨x, x', hx, hx', htell⟩ := rowHtml_tell f g file "td" align row
      exact ⟨x, x', hx, hx', fun _ => htell.then_lineFeed⟩
  have hunnumbered (ys : List (List (List Html))) :
      (ys.zipIdx 0).flatMap (fun x => [rowHtml "td" align x.1, .lineFeed]) =
        ys.flatMap fun r => [rowHtml "td" align r, .lineFeed] := by
    have hmap := List.flatMap_map Prod.fst (fun r => [rowHtml "td" align r, .lineFeed]) (ys.zipIdx 0)
    rw [List.zipIdx_map_fst] at hmap
    exact hmap.symm
  have hempty {F : List Inline → List Inline} {ys : List (List (List Html))}
      (hys : (rows.map (List.map F)).mapM (·.mapM Renderer.standard.inlinesHtml) = .ok ys) :
      ys.isEmpty = rows.isEmpty := by
    have hlength := (forall₂_of_mapM_ok hys).length_eq
    rw [List.length_map] at hlength
    cases ys <;> cases rows <;> simp at hlength ⊢
  refine ⟨tableHtml align xs ys, tableHtml align xs' ys', ?_, ?_, ?_⟩
  · rw [Block.Leaf.mapInlines, Block.Leaf.toHtml, hxs, hys]
    rfl
  · rw [Block.Leaf.mapInlines, Block.Leaf.toHtml, hxs', hys']
    rfl
  · have hbody := hrows 0
    rw [hunnumbered, hunnumbered] at hbody
    refine (hheader.table ((hempty hys).trans (hempty hys').symm) hbody).imp ?_
    rintro ⟨hheader, hrows⟩
    rw [Block.Leaf.mapInlines, Block.Leaf.mapInlines, hheader]
    exact congrArg _ hrows

lemma Block.Leaf.toHtml_tell (file : Option Path) (c : Block.Leaf) :
    RenderingsTell
      (c.mapInlines (Inline.mapTargetsAtAll f file) = c.mapInlines (Inline.mapTargetsAtAll g file))
      ((c.mapInlines (Inline.mapTargetsAtAll f file)).toHtml Renderer.standard.inlinesHtml)
      ((c.mapInlines (Inline.mapTargetsAtAll g file)).toHtml Renderer.standard.inlinesHtml) := by
  have hinlines (ts : List Inline) := Inline.inlinesHtml_tell f g file ts
  cases c with
  | heading depth id ts =>
    exact (hinlines ts).map fun _ _ htell =>
      ((htell.element _ _).then_lineFeed).imp fun hts => congrArg (Block.Leaf.heading depth id) hts
  | paragraph ts =>
    exact (hinlines ts).map fun _ _ htell =>
      ((htell.element _ _).then_lineFeed).imp fun hts => congrArg Block.Leaf.paragraph hts
  | text ts => exact (hinlines ts).imp fun hts => congrArg Block.Leaf.text hts
  | table align header rows => exact tableHtml_tell f g file align header rows
  | _ => exact (RenderingsTell.refl (Block.Leaf.exists_toHtml_standard _)).imp fun _ => rfl

/-! ### Blocks -/

lemma Block.kind_mapTargetsAt (file : Option Path) (b : Block) :
    (b.mapTargetsAt f file).kind = b.kind := by
  cases b with
  | leaf h c =>
    rw [mapTargetsAt]
    cases c <;> rfl
  | node h fr bs => rw [mapTargetsAt, kind, kind]

lemma startsWithCallout_map {F : Block → Block} (hF : ∀ b, (F b).kind = b.kind) (bs : List Block) :
    startsWithCallout (bs.map F) = startsWithCallout bs := by
  induction bs with
  | nil => rfl
  | cons b bs ih => rw [List.map_cons, startsWithCallout_cons, startsWithCallout_cons, hF, ih]

/-- What two blocks tell, by themselves and in an item. -/
structure Block.Tell (b b' : Block) : Prop where
  block : RenderingsTell (b = b') (Renderer.standard.blockHtml b) (Renderer.standard.blockHtml b')
  item (loose several : Bool) : RenderingsTell (b = b')
    (Renderer.standard.itemHtml loose several [b]) (Renderer.standard.itemHtml loose several [b'])

/-- Blocks that are rendered alike in an item and by themselves. -/
lemma Block.Tell.of_block {b b' : Block}
    (h : RenderingsTell (b = b') (Renderer.standard.blockHtml b) (Renderer.standard.blockHtml b'))
    (hb : b.kind ≠ .text) (hb' : b'.kind ≠ .text) : b.Tell b' := by
  refine ⟨h, fun loose several => ?_⟩
  rw [itemHtml_singleton loose several, itemHtml_singleton loose several]
  · exact h
  · rintro _ _ rfl
    exact hb' rfl
  · rintro _ _ rfl
    exact hb rfl

lemma Block.leaf_tell (file : Option Path) (h : Head) (c : Block.Leaf) :
    ((Block.leaf h c).mapTargetsAt f file).Tell ((Block.leaf h c).mapTargetsAt g file) := by
  have hleaf : RenderingsTell
      ((Block.leaf h c).mapTargetsAt f file = (Block.leaf h c).mapTargetsAt g file)
      (Renderer.standard.blockHtml ((Block.leaf h c).mapTargetsAt f file))
      (Renderer.standard.blockHtml ((Block.leaf h c).mapTargetsAt g file)) := by
    rw [mapTargetsAt, mapTargetsAt, Renderer.blockHtml, Renderer.blockHtml]
    exact (c.toHtml_tell f g file).imp fun hc => by rw [hc]
  by_cases htext : c.kind = .text
  · obtain ⟨ts, rfl⟩ : ∃ ts, c = .text ts := by
      cases c <;> first | exact ⟨_, rfl⟩ | cases htext
    refine ⟨hleaf, fun loose several => ?_⟩
    have hinlines := Inline.inlinesHtml_tell f g file ts
    have hitem : RenderingsTell
        (Inline.mapTargetsAtAll f file ts = Inline.mapTargetsAtAll g file ts)
        (Renderer.standard.itemHtml loose several [(Block.leaf h (.text ts)).mapTargetsAt f file])
        (Renderer.standard.itemHtml loose several
          [(Block.leaf h (.text ts)).mapTargetsAt g file]) := by
      have hnil : ∃ xs, Renderer.standard.itemHtml loose several [] = .ok xs :=
        ⟨[], by rw [Renderer.itemHtml]⟩
      rw [mapTargetsAt, mapTargetsAt, Block.Leaf.mapInlines, Block.Leaf.mapInlines]
      cases loose with
      | true =>
        rw [Renderer.itemHtml.eq_2 _ true, Renderer.itemHtml.eq_2 _ true]
        exact ((hinlines.map fun _ _ htell => (htell.element _ _).then_lineFeed).append
          (.refl hnil)).imp And.left
      | false =>
        rw [Renderer.itemHtml.eq_2 _ false, Renderer.itemHtml.eq_2 _ false]
        exact ((hinlines.map fun _ _ htell => by simpa using htell.within [] _).append
          (.refl hnil)).imp And.left
    exact hitem.imp fun hts => by
      rw [mapTargetsAt, mapTargetsAt, Block.Leaf.mapInlines, Block.Leaf.mapInlines, hts]
  · refine Block.Tell.of_block hleaf ?_ ?_ <;>
    · rw [kind_mapTargetsAt]
      exact htext

lemma Block.node_tell (h : Head) (fr : Block.Frame) {F G : Block → Block}
    (hF : ∀ b, (F b).kind = b.kind) (hG : ∀ b, (G b).kind = b.kind) {bs : List Block}
    (hbs : ∀ b ∈ bs, (F b).Tell (G b)) :
    (Block.node h fr (bs.map F)).Tell (Block.node h fr (bs.map G)) := by
  have hblocks : RenderingsTell (bs.map F = bs.map G) (Renderer.standard.blocksHtml (bs.map F))
      (Renderer.standard.blocksHtml (bs.map G)) := by
    refine RenderingsTell.sequence (by rw [Renderer.blocksHtml]) (fun b bs => ?_) fun b hb => ?_
    · rw [blocksHtml_singleton, Renderer.blocksHtml]
    · rw [blocksHtml_singleton, blocksHtml_singleton]
      exact (hbs b hb).block
  have hitem (loose several : Bool) : RenderingsTell (bs.map F = bs.map G)
      (Renderer.standard.itemHtml loose several (bs.map F))
      (Renderer.standard.itemHtml loose several (bs.map G)) :=
    RenderingsTell.sequence (by rw [Renderer.itemHtml])
      (Renderer.itemHtml_cons Renderer.standard loose several) fun b hb =>
        (hbs b hb).item loose several
  refine Block.Tell.of_block ?_ (by cases fr <;> simp [kind, Frame.kind])
    (by cases fr <;> simp [kind, Frame.kind])
  refine (?_ : RenderingsTell (bs.map F = bs.map G) _ _).imp fun hbs => by rw [hbs]
  by_cases hf : fr.isItem = true
  · obtain ⟨checked, loose, rfl⟩ := Block.Frame.exists_of_isItem hf
    rw [Renderer.blockHtml, Renderer.blockHtml]
    simp only [List.length_map]
    exact (hitem loose _).map fun _ _ => Block.Frame.toHtml_tell _ _
  · have hframe (checked : Option Bool) (loose : Bool) : fr ≠ .listItem checked loose := by
      rintro rfl
      exact hf rfl
    rw [Renderer.blockHtml, Renderer.blockHtml]
    · rw [startsWithCallout_map hF, startsWithCallout_map hG]
      exact hblocks.map fun _ _ => fr.toHtml_tell _
    · exact hframe
    · exact hframe

lemma Block.tell_mapTargetsAt (file : Option Path) (b : Block) :
    (b.mapTargetsAt f file).Tell (b.mapTargetsAt g file) := by
  induction b using Block.induction generalizing file with
  | leaf h c => exact leaf_tell f g file h c
  | node h fr bs ih =>
    rw [mapTargetsAt, mapTargetsAt, mapTargetsAtAll_eq_map, mapTargetsAtAll_eq_map]
    exact node_tell h fr (kind_mapTargetsAt f _) (kind_mapTargetsAt g _) fun b hb => ih b hb _

/-- **HTML tells targets.**  Maps over targets make the same HTML of a tree only if they make the same
tree of it. -/
theorem Renderer.render_mapTargetsAt_eq_iff (file : Option Path) (b : Block) :
    Renderer.standard.render (b.mapTargetsAt f file) =
        Renderer.standard.render (b.mapTargetsAt g file) ↔
      b.mapTargetsAt f file = b.mapTargetsAt g file := by
  refine ⟨fun h => ?_, fun h => by rw [h]⟩
  obtain ⟨xs, xs', hxs, hxs', htell⟩ := (b.tell_mapTargetsAt f g file).block
  rw [Renderer.render, Renderer.render, hxs, hxs'] at h
  have hwritten : Html.writeAll xs = Html.writeAll xs' := Except.ok.inj h
  exact (htell [] [] (by rw [hwritten])).1

end Targets

end Docmark
