import Mathlib
import Docmark.Construct.Definition
import Docmark.Construct.Directive
import Docmark.Proofs.FinalFeed.Leaf

/-!
# Bracketed constructs at the end of a text

Definitions, directives and the markers of callouts are read piece by piece from the front.  No
piece takes a line feed at the end of the text, so it is left behind each of them; the end of the
construct then takes the line feeds that follow, and this one with them if nothing else does.
-/

namespace Docmark

/-! ## What is left behind a construct -/

/-- What is left behind a construct at the start of a text, and of the text with one more line
feed: it is left as well, unless nothing else is left. -/
def FedLeft (left left' : Text) : Prop :=
  left ≠ [] ∧ left' = left ++ ['\n'] ∨ left = [] ∧ left' = []

/-- Two outcomes of reading a piece: the same, with the line feed left behind it. -/
def FedPiece {α : Type} (r r' : α × Text) : Prop := r'.1 = r.1 ∧ FedLeft r.2 r'.2

section Rel

variable {α β γ δ : Type} {R : α → β → Prop} {S : γ → δ → Prop} {x : Option α} {y : Option β}

lemma rel_map {f : α → γ} {g : β → δ} (h : Option.Rel R x y) (hfg : ∀ a b, R a b → S (f a) (g b)) :
    Option.Rel S (x.map f) (y.map g) := by
  cases h with
  | some h => exact .some (hfg _ _ h)
  | none => exact .none

lemma rel_or {x' : Option α} {y' : Option β} (h : Option.Rel R x y) (h' : Option.Rel R x' y') :
    Option.Rel R (x.or x') (y.or y') := by
  cases h with
  | some h => exact .some h
  | none => exact h'

end Rel

/-- A construct that is told by what is left behind it. -/
lemma Found.Fed.of_left {α : Type} {R : α → α → Prop} {cs left left' : Text} {v v' : α}
    (hcs : cs ≠ []) (h : FedLeft left left') (hsame : left ≠ [] → v' = v) (hR : R v v') :
    Found.Fed R cs (some ⟨cs.length - left.length, v⟩)
      (some ⟨(cs ++ ['\n']).length - left'.length, v'⟩) := by
  obtain ⟨hne, rfl⟩ | ⟨rfl, rfl⟩ := h
  · rw [hsame hne, length_feed_sub_feed]
    refine .inside ?_
    have := List.length_pos_iff.2 hne
    have := List.length_pos_iff.2 hcs
    omega
  · simp only [List.length_nil, Nat.sub_zero, List.length_append, List.length_singleton]
    exact .grows hR

/-- The end of a line takes the line feeds behind it. -/
lemma lineTail?_fed (cs : Text) :
    Option.Rel FedLeft (lineTail? cs) (lineTail? (cs ++ ['\n'])) := by
  have hleft (after : Text) : FedLeft (after.dropWhile (· = '\n'))
      ((after ++ ['\n']).dropWhile (· = '\n')) := by
    rw [List.dropWhile_append]
    split
    next hnil => exact .inr ⟨List.isEmpty_iff.1 hnil, by simp⟩
    next hne => exact .inl ⟨mt List.isEmpty_iff.2 hne, rfl⟩
  rw [lineTail?, lineTail?, restOfLine_feed, afterLine_feed]
  split
  · exact .some (hleft _)
  · exact .none

/-! ## Definitions -/

lemma titleCloser?_ne_feed {c closer : Char} (h : titleCloser? c = some closer) :
    closer ≠ '\n' := by
  rintro rfl
  simp only [titleCloser?] at h
  split at h
  next hc =>
    cases h
    simp at hc
  next =>
    split at h <;> cases h

lemma lineTitle?_feed (cs : Text) :
    lineTitle? (cs ++ ['\n']) = (lineTitle? cs).map fun r => (r.1, r.2 ++ ['\n']) := by
  have hpads : (cs ++ ['\n']).takeWhile isPad = cs.takeWhile isPad := takeWhile_feed (by decide) cs
  rw [lineTitle?, lineTitle?, dropWhile_feed (by decide), hpads]
  cases cs.dropWhile isPad with
  | nil => rfl
  | cons c rest =>
    simp only [List.cons_append]
    cases hcloser : titleCloser? c with
    | none => rfl
    | some closer =>
      have hne := titleCloser?_ne_feed hcloser
      dsimp only
      split
      · rfl
      · rw [takeWhile_feed (by simp), drop_length_feed]
        cases rest.drop (rest.takeWhile fun d => d ≠ closer && d ≠ '\n').length with
        | nil => simp [hne.symm]
        | cons d after =>
          simp only [List.cons_append]
          split <;> rfl

lemma definitionTail?_fed (cs : Text) :
    Option.Rel FedPiece (definitionTail? cs) (definitionTail? (cs ++ ['\n'])) := by
  have htail (title : Option Text) (rest : Text) :
      Option.Rel FedPiece ((lineTail? rest).map fun left => (title, left))
        ((lineTail? (rest ++ ['\n'])).map fun left => (title, left)) :=
    rel_map (lineTail?_fed rest) fun _ _ h => ⟨rfl, h⟩
  rw [definitionTail?, definitionTail?, lineTitle?_feed]
  cases lineTitle? cs with
  | none => exact htail none cs
  | some r => exact htail (some r.1) r.2

lemma definitionHref?_feed (cs : Text) :
    definitionHref? (cs ++ ['\n']) = (definitionHref? cs).map fun r => (r.1, r.2 ++ ['\n']) := by
  have hends (body : Text) : (body ++ ['\n']).takeWhile (fun c => !(isSpace c || c == '>')) =
      body.takeWhile fun c => !(isSpace c || c == '>') := takeWhile_feed (by simp) body
  have hopen (bare : Text) : ((bare ++ ['\n']).head?.all fun c => isSpace c || c == '>') =
      bare.head?.all fun c => isSpace c || c == '>' := by
    cases bare <;> simp
  have hbody (p : Prop) [Decidable p] (bare : Text) :
      (if p then cs ++ ['\n'] else bare ++ ['\n']) = (if p then cs else bare) ++ ['\n'] := by
    split <;> rfl
  simp only [definitionHref?, dropFront_feed (c := '<') (by decide), hopen, hbody, hends]
  generalize (if ((dropFront '<' cs).head?.all fun c => isSpace c || c == '>') = true then cs
    else dropFront '<' cs) = body
  split
  · rfl
  · rw [drop_length_feed, dropFront_feed (by decide)]
    rfl

/-- The destination of a definition at its place, with an optional title and the end of the line. -/
def destinationAt? (cs : Text) : Option (Destination × Text) :=
  (definitionHref? cs).bind fun r => (definitionTail? r.2).map fun t => (⟨r.1, t.1⟩, t.2)

/-- The place of a destination: on the line of the label or on the next one. -/
def destinationStart (cs : Text) : Text :=
  match cs.dropWhile isPad with
  | '\n' :: below => below.dropWhile isPad
  | rest => rest

lemma definitionBody?_eq (cs : Text) :
    definitionBody? cs = destinationAt? (destinationStart cs) := by
  rw [definitionBody?]
  split
  next h =>
    have h : definitionHref? (destinationStart cs) = none := h
    rw [destinationAt?, h, Option.bind_none]
  next href after h =>
    have h : definitionHref? (destinationStart cs) = some (href, after) := h
    rw [destinationAt?, h, Option.bind_some]
    cases definitionTail? after <;> simp

lemma destinationAt?_fed (cs : Text) :
    Option.Rel FedPiece (destinationAt? cs) (destinationAt? (cs ++ ['\n'])) := by
  rw [destinationAt?, destinationAt?, definitionHref?_feed]
  cases definitionHref? cs with
  | none => exact .none
  | some r => exact rel_map (definitionTail?_fed r.2) fun t t' h => ⟨by rw [h.1], h.2⟩

lemma destinationStart_feed (cs : Text) :
    destinationStart (cs ++ ['\n']) = destinationStart cs ++ ['\n'] ∨
      destinationStart (cs ++ ['\n']) = [] ∧ destinationStart cs = [] := by
  have hpads (cs : Text) : (cs ++ ['\n']).dropWhile isPad = cs.dropWhile isPad ++ ['\n'] :=
    dropWhile_feed (by decide) cs
  rw [destinationStart, destinationStart, hpads]
  cases cs.dropWhile isPad with
  | nil => exact .inr ⟨rfl, rfl⟩
  | cons c rest =>
    left
    by_cases hc : c = '\n'
    · simp [hc, hpads]
    · simp [hc]

lemma definitionBody?_fed (cs : Text) :
    Option.Rel FedPiece (definitionBody? cs) (definitionBody? (cs ++ ['\n'])) := by
  rw [definitionBody?_eq, definitionBody?_eq]
  obtain hstart | ⟨hstart', hstart⟩ := destinationStart_feed cs
  · rw [hstart]
    exact destinationAt?_fed _
  · rw [hstart, hstart']
    exact .none

theorem linkDefinition?_fed (scope : Scope) {cs : Text} (hcs : cs ≠ []) :
    Found.Fed Block.Leaf.Feeds cs (linkDefinition? scope cs)
      (linkDefinition? scope (cs ++ ['\n'])) := by
  have hblank : (cs ++ ['\n']).dropWhile (· = ' ') = cs.dropWhile (· = ' ') ++ ['\n'] :=
    dropWhile_feed (by decide) cs
  simp only [linkDefinition?, hblank, length_feed_sub_feed]
  split
  · exact .none
  · cases cs.dropWhile (· = ' ') with
    | nil => exact .none
    | cons c rest =>
      by_cases hc : c = '['
      · subst hc
        simp only [List.cons_append]
        rw [takeWhile_feed (by simp), drop_length_feed]
        generalize rest.takeWhile (fun c => c ≠ ']' && c ≠ '\n') = label
        rcases rest.drop label.length with _ | ⟨d, _ | ⟨e, after⟩⟩
        · exact .none
        · by_cases hd : d = ']' <;> simp [hd] <;> exact .none
        · by_cases hmark : d = ']' ∧ e = ':'
          · obtain ⟨rfl, rfl⟩ := hmark
            simp only [List.cons_append]
            split
            · exact .none
            · have hbody := definitionBody?_fed after
              generalize definitionBody? after = r at hbody
              generalize definitionBody? (after ++ ['\n']) = r' at hbody
              cases hbody with
              | none => exact .none
              | some h =>
                dsimp only
                rw [h.1]
                exact .of_left hcs h.2 (fun _ => rfl) (.refl (by simp [Block.Leaf.kind]))
          · have hnone : ∀ after' : Text, d :: e :: after ≠ ']' :: ':' :: after' := by
              rintro after' ⟨⟩
              exact hmark ⟨rfl, rfl⟩
            split
            next heq => exact absurd heq (hnone _)
            next =>
              split
              next heq =>
                cases heq
                exact absurd ⟨rfl, rfl⟩ hmark
              next => exact .none
      · simp [hc]
        exact .none

/-! ## Directives -/

lemma afterKeyword?_feed {keyword : String} (hfeed : '\n' ∉ "[!".toList ++ keyword.toList)
    (cs : Text) :
    afterKeyword? keyword (cs ++ ['\n']) = (afterKeyword? keyword cs).map (· ++ ['\n']) := by
  simp only [afterKeyword?]
  generalize "[!".toList ++ keyword.toList = opening at hfeed
  by_cases hlength : opening.length ≤ cs.length
  · rw [List.take_append_of_le_length hlength, drop_feed hlength]
    split <;> rfl
  · have hcs : lowerAscii (cs.take opening.length) ≠ opening := by
      intro h
      have := congrArg List.length h
      simp only [lowerAscii, List.length_map, List.length_take] at this
      omega
    have hcs' : lowerAscii ((cs ++ ['\n']).take opening.length) ≠ opening := by
      rw [List.take_of_length_le (by rw [List.length_append, List.length_singleton]; omega),
        lowerAscii_feed]
      rintro rfl
      exact hfeed (by simp)
    rw [if_neg hcs, if_neg hcs']
    rfl

lemma bracketedTitle?_feed (inner : Bool) (cs : Text) :
    bracketedTitle? inner (cs ++ ['\n']) =
      (bracketedTitle? inner cs).map fun r => (r.1, r.2 ++ ['\n']) := by
  induction cs generalizing inner with
  | nil => simp [bracketedTitle?]
  | cons c cs ih =>
    simp only [List.cons_append, bracketedTitle?, ih]
    split_ifs <;> simp [Function.comp_def]

lemma skipRemark_feed (cs : Text) : skipRemark (cs ++ ['\n']) = skipRemark cs ++ ['\n'] := by
  have hpads : (cs ++ ['\n']).dropWhile isPad = cs.dropWhile isPad ++ ['\n'] :=
    dropWhile_feed (by decide) cs
  simp only [skipRemark, hpads]
  cases hrest : cs.dropWhile isPad with
  | nil => simp
  | cons q rest =>
    have hcs : cs ≠ [] := by
      rintro rfl
      cases hrest
    simp only [List.cons_append, List.head?_append_of_ne_nil _ hcs]
    split
    next hquote =>
      rw [dropWhile_feed (by simp)]
      cases rest.dropWhile fun c => c ≠ q && c ≠ '\n' with
      | nil =>
        have hq : '\n' ≠ q := by
          rintro rfl
          simp at hquote
        simp [hq]
      | cons c after =>
        simp only [List.cons_append]
        split <;> rfl
    next => rfl

lemma directiveEnd?_feed (cs : Text) :
    directiveEnd? (cs ++ ['\n']) = (directiveEnd? cs).map (· ++ ['\n']) := by
  simp only [directiveEnd?, skipRemark_feed, dropWhile_feed (p := isPad) (by decide)]
  rcases (skipRemark cs).dropWhile isPad with _ | ⟨c, _ | ⟨d, rest⟩⟩
  · rfl
  · by_cases hc : c = ')' <;> simp [hc]
  · by_cases hc : c = ')'
    · by_cases hd : d = ']' <;> simp [hc, hd]
    · simp [hc]

lemma angledPath?_feed (cs : Text) :
    angledPath? (cs ++ ['\n']) = (angledPath? cs).map fun r => (r.1, r.2 ++ ['\n']) := by
  cases cs with
  | nil => rfl
  | cons c rest =>
    by_cases hc : c = '<'
    · subst hc
      simp only [List.cons_append, angledPath?]
      rw [takeWhile_feed (by simp), drop_length_feed]
      cases rest.drop (rest.takeWhile fun c => c ≠ '>' && c ≠ '\n').length with
      | nil => rfl
      | cons d after => by_cases hd : d = '>' <;> simp [hd]
    · simp [angledPath?, hc]

lemma barePath?_feed (cs : Text) :
    barePath? (cs ++ ['\n']) = (barePath? cs).map fun r => (r.1, r.2 ++ ['\n']) := by
  simp only [barePath?]
  rw [takeWhile_feed (by simp), drop_length_feed]
  split <;> rfl

lemma directivePath?_fed (cs : Text) :
    Option.Rel FedPiece (directivePath? lineTail? cs)
      (directivePath? lineTail? (cs ++ ['\n'])) := by
  have hfinish (path after : Text) :
      Option.Rel FedPiece (((directiveEnd? after).bind lineTail?).map fun left => (path, left))
        (((directiveEnd? (after ++ ['\n'])).bind lineTail?).map fun left => (path, left)) := by
    rw [directiveEnd?_feed]
    cases directiveEnd? after with
    | none => exact .none
    | some rest => exact rel_map (lineTail?_fed rest) fun _ _ h => ⟨rfl, h⟩
  rw [directivePath?, directivePath?, angledPath?_feed, barePath?_feed]
  refine rel_or ?_ ?_
  · cases angledPath? cs with
    | none => exact .none
    | some r => exact hfinish r.1 r.2
  · cases barePath? cs with
    | none => exact .none
    | some r => exact hfinish r.1 r.2

/-- The source of a directive is trimmed, so that it is the same. -/
lemma trimEnd_take_fed {cs left left' : Text} (h : FedLeft left left') :
    trimEnd ((cs ++ ['\n']).take ((cs ++ ['\n']).length - left'.length)) =
      trimEnd (cs.take (cs.length - left.length)) := by
  obtain ⟨-, rfl⟩ | ⟨rfl, rfl⟩ := h
  · rw [length_feed_sub_feed, List.take_append_of_le_length (Nat.sub_le _ _)]
  · simp only [List.length_nil, Nat.sub_zero, List.take_length, trimEnd_feed]

lemma directive?_fed {cs : Text} (hcs : cs ≠ []) :
    Found.Fed Eq cs (directive? '+' lineTail? cs) (directive? '+' lineTail? (cs ++ ['\n'])) := by
  rw [directive?, directive?, afterKeyword?_feed (by decide)]
  cases afterKeyword? "include" cs with
  | none => exact .none
  | some after =>
    simp only [Option.map_some, dropFront_feed (c := '+') (by decide)]
    cases dropFront '+' after with
    | nil => exact .none
    | cons c rest =>
      by_cases hc : c = '['
      · subst hc
        simp only [List.cons_append, bracketedTitle?_feed]
        rcases bracketedTitle? false rest with _ | ⟨title, _ | ⟨d, target⟩⟩
        · exact .none
        · exact .none
        · by_cases hd : d = '('
          · subst hd
            simp only [Option.map_some, List.cons_append, dropWhile_feed (p := isPad) (by decide)]
            have hpath := directivePath?_fed (target.dropWhile isPad)
            generalize directivePath? lineTail? (target.dropWhile isPad) = r at hpath
            generalize directivePath? lineTail? (target.dropWhile isPad ++ ['\n']) = r' at hpath
            cases hpath with
            | none => exact .none
            | some h =>
              dsimp only
              rw [h.1, trimEnd_take_fed h.2]
              split
              · exact .none
              · exact .of_left hcs h.2 (fun _ => rfl) rfl
          · simp [hd]
            exact .none
      · simp [hc]
        exact .none

theorem blockDirective?_fed {cs : Text} (hcs : cs ≠ []) :
    Found.Fed Block.Leaf.Feeds cs (blockDirective? cs) (blockDirective? (cs ++ ['\n'])) :=
  (directive?_fed hcs).map fun d d' h => by
    rw [h]
    exact .refl (by simp [Block.Leaf.kind])

/-! ## Callouts -/

lemma Found.Fed.findSome {α ι : Type} {R : α → α → Prop} {cs : Text} {f g : ι → Option (Found α)}
    {is : List ι} (h : ∀ i ∈ is, Fed R cs (f i) (g i)) :
    Fed R cs (is.findSome? f) (is.findSome? g) := by
  induction is with
  | nil => exact .none
  | cons i is ih =>
    have hrest := ih fun j hj => h j (List.mem_cons_of_mem _ hj)
    have hi := h i List.mem_cons_self
    simp only [List.findSome?_cons]
    generalize f i = x at hi
    generalize g i = y at hi
    cases hi with
    | none => exact hrest
    | inside h => exact .inside h
    | apart h hv => exact .apart h hv
    | grows h => exact .grows h

/-- What is left behind the marker of a note: what follows its line, or what follows it on the line,
behind white space. -/
def noteLeft? (rest : Text) : Option Text :=
  match lineTail? rest with
  | some left => some left
  | none => if rest.head?.any isPad then some (rest.dropWhile isPad) else none

lemma noteLeft?_fed (rest : Text) :
    Option.Rel FedLeft (noteLeft? rest) (noteLeft? (rest ++ ['\n'])) := by
  have htail := lineTail?_fed rest
  rw [noteLeft?, noteLeft?]
  cases hleft : lineTail? rest with
  | some left =>
    rw [hleft] at htail
    generalize lineTail? (rest ++ ['\n']) = r' at htail
    cases htail with
    | some h => exact .some h
  | none =>
    rw [hleft] at htail
    generalize lineTail? (rest ++ ['\n']) = r' at htail
    cases htail with
    | none =>
      have hne : rest ≠ [] := by
        rintro rfl
        cases hleft
      -- white space up to the end of the text would end the line
      have hpads : rest.dropWhile isPad ≠ [] := by
        intro hnil
        have hall := List.dropWhile_eq_nil_iff.1 hnil
        rw [lineTail?, if_pos] at hleft
        · cases hleft
        · exact List.all_eq_true.2 fun c hc => hall c ((List.takeWhile_prefix _).subset hc)
      simp only [List.head?_append_of_ne_nil _ hne, dropWhile_feed (p := isPad) (by decide)]
      split
      · exact .some (.inl ⟨hpads, rfl⟩)
      · exact .none

/-- A construct that makes the same, whatever of the text is left behind it. -/
lemma Found.Fed.of_left_map {α : Type} {R : α → α → Prop} {cs : Text} {left left' : Option Text}
    (hcs : cs ≠ []) (h : Option.Rel FedLeft left left') {v : α} (hv : R v v) :
    Fed R cs (left.map fun left => ⟨cs.length - left.length, v⟩)
      (left'.map fun left => ⟨(cs ++ ['\n']).length - left.length, v⟩) := by
  cases h with
  | none => exact .none
  | some h => exact .of_left hcs h (fun _ => rfl) hv

variable (h : Head) (scope : Scope) {cs : Text} (hcs : cs ≠ [])

/-- The body of a note or division before anything is moved into it. -/
lemma Block.Body.Feeds.callout {f : Block.Frame} : Block.Body.Feeds h (.node f []) (.node f []) :=
  .node (by simp)

include hcs

/-- The marker of a callout makes the same, whether it takes the line feed or leaves it. -/
theorem note?_fed :
    Found.Fed (Block.Body.Feeds h) cs (note? scope cs) (note? scope (cs ++ ['\n'])) := by
  have hfeed : ∀ kind ∈ noteKinds, '\n' ∉ "[!".toList ++ kind.toList := by decide
  simp only [note?]
  split
  · exact .none
  · refine .findSome fun kind hkind => ?_
    rw [afterKeyword?_feed (hfeed kind hkind)]
    rcases afterKeyword? kind cs with _ | _ | ⟨c, rest⟩
    · exact .none
    · exact .none
    · by_cases hc : c = ']'
      · subst hc
        exact .of_left_map hcs (noteLeft?_fed rest) (.callout h)
      · simp [hc]
        exact .none

theorem division?_fed :
    Found.Fed (Block.Body.Feeds h) cs (division? scope cs) (division? scope (cs ++ ['\n'])) := by
  simp only [division?, afterKeyword?_feed (by decide : '\n' ∉ "[!".toList ++ "div".toList)]
  split
  · exact .none
  · cases afterKeyword? "div" cs with
    | none => exact .none
    | some after =>
      have hpads : (after ++ ['\n']).takeWhile isPad = after.takeWhile isPad :=
        takeWhile_feed (by decide) after
      simp only [Option.map_some, hpads, ← List.drop_drop, drop_length_feed]
      rw [takeWhile_feed (by simp)]
      generalize after.drop (after.takeWhile isPad).length = rest
      have hbody : (if (after.takeWhile isPad).isEmpty then [] else
          rest.takeWhile fun c => c ≠ ']' && c ≠ '\n').length ≤ rest.length := by
        split
        · exact Nat.zero_le _
        · exact length_takeWhile_le rest
      rw [drop_feed hbody]
      generalize (if (after.takeWhile isPad).isEmpty then [] else
        rest.takeWhile fun c => c ≠ ']' && c ≠ '\n') = body
      cases rest.drop body.length with
      | nil => exact .none
      | cons c rest =>
        by_cases hc : c = ']'
        · subst hc
          exact .of_left_map hcs (lineTail?_fed rest) (.callout h)
        · simp [hc]
          exact .none

theorem video?_fed :
    Found.Fed (Block.Body.Feeds h) cs (video? scope cs) (video? scope (cs ++ ['\n'])) := by
  simp only [video?, afterKeyword?_feed (by decide : '\n' ∉ "[!".toList ++ "video".toList)]
  split
  · exact .none
  · cases afterKeyword? "video" cs with
    | none => exact .none
    | some after =>
      have hpads : (after ++ ['\n']).takeWhile isPad = after.takeWhile isPad :=
        takeWhile_feed (by decide) after
      simp only [Option.map_some, hpads, ← List.drop_drop, drop_length_feed]
      rw [takeWhile_feed (by simp)]
      generalize after.drop (after.takeWhile isPad).length = rest
      rw [drop_length_feed]
      split
      · exact .none
      · cases rest.drop (rest.takeWhile fun c => c ≠ ']' && !isSpace c).length with
        | nil => exact .none
        | cons c rest =>
          by_cases hc : c = ']'
          · subst hc
            exact .of_left_map hcs (lineTail?_fed rest)
              (Block.Leaf.Feeds.refl (by simp [Block.Leaf.kind]) |>.body h)
          · simp [hc]
            exact .none

end Docmark
