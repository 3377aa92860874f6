import Mathlib
import Docmark.Proofs.FinalFeed.Reading
import Docmark.Proofs.Inclusion.Transclusion

/-!
# Building a text with one more line feed

Whatever is done to the tree of a text on the way to a document is done in the same way to the tree
of the text with one more line feed: headings get the same ids, the checks find the same tags at the
same places, and directives, whose spans start at the same points, lead to the same files and
reports.  The trees that come out are related as those that went in.
-/

namespace Docmark

/-! ## Heading ids -/

/-- Two actions that leave the same state, with related values. -/
def RunsAlike {S α : Type} (R : α → α → Prop) (a a' : StateM S α) : Prop :=
  ∀ s, R (a s).1 (a' s).1 ∧ (a' s).2 = (a s).2

section RunsAlike

variable {S α β : Type} {R : α → α → Prop} {Q : β → β → Prop}

lemma RunsAlike.pure {x y : α} (h : R x y) :
    RunsAlike R (Pure.pure x : StateM S α) (Pure.pure y) :=
  fun _ => ⟨h, rfl⟩

lemma RunsAlike.bind {a a' : StateM S α} {f f' : α → StateM S β} (ha : RunsAlike R a a')
    (hf : ∀ x y, R x y → RunsAlike Q (f x) (f' y)) : RunsAlike Q (a >>= f) (a' >>= f') := by
  intro s
  obtain ⟨hR, hstate⟩ := ha s
  have h := hf _ _ hR (a s).2
  have hstep : (a' >>= f') s = f' (a' s).1 (a s).2 := by
    rw [← hstate]
    rfl
  rw [hstep]
  exact h

/-- An action runs as itself, with a value that it always yields. -/
lemma RunsAlike.refl {a : StateM S α} {P : α → Prop} (h : Yields a P) :
    RunsAlike (fun x y => y = x ∧ P x) a a :=
  fun s => ⟨⟨rfl, h s⟩, rfl⟩

end RunsAlike

section HeadingIds

variable {file : Option Path} {shown : Bool}

/-- A leaf that is offered to the rewriter gets the same id, wherever it ends. -/
lemma headingId_alike {h h' : Head} (l : Block.Leaf) :
    RunsAlike (fun o o' => ∃ l', o = some (.leaf h l') ∧ o' = some (.leaf h' l'))
      (headingIdRewriter.block file (.leaf h l)) (headingIdRewriter.block file (.leaf h' l)) := by
  intro s
  by_cases hheading : ∃ depth content, l = .heading depth none content
  · obtain ⟨depth, content, rfl⟩ := hheading
    exact ⟨⟨_, rfl, rfl⟩, rfl⟩
  · have hkeep (h : Head) : headingIdRewriter.block file (.leaf h l) s = (some (.leaf h l), s) := by
      cases l with
      | heading depth id content =>
        cases id with
        | none => exact absurd ⟨_, _, rfl⟩ hheading
        | some => rfl
      | _ => rfl
    rw [hkeep, hkeep]
    exact ⟨⟨l, rfl, rfl⟩, rfl⟩

lemma visitBlock_leaf (h : Head) (l : Block.Leaf) :
    headingIdRewriter.visitBlock file (.leaf h l) = headingIdRewriter.block file (.leaf h l) := by
  rw [Rewriter.visitBlock, Rewriter.visitLeaf_keeps fun _ => rfl, pure_bind]

lemma visitBlocks_newline {bs : List Block} (hbs : ∀ b ∈ bs, b.kind = .newline) :
    headingIdRewriter.visitBlocks file bs = pure bs := by
  induction bs with
  | nil => rw [Rewriter.visitBlocks]
  | cons b bs ih =>
    obtain ⟨hb, hrest⟩ := List.forall_mem_cons.1 hbs
    obtain ⟨hd, rfl⟩ := Block.exists_of_newline hb
    rw [Rewriter.visitBlocks, visitBlock_leaf, ih hrest]
    rfl

/-- Sequences that grow, with as many blocks as others. -/
def GrowsInto (shown : Bool) (bs bs' ds ds' : List Block) : Prop :=
  GrowsAtEnd shown (Block.Grows shown) ds ds' ∧ ds.length = bs.length ∧ ds'.length = bs'.length

lemma visitBlocks_alike {bs bs' : List Block}
    (h : GrowsAtEnd shown (fun b b' => RunsAlike
      (fun o o' => ∃ d d', o = some d ∧ o' = some d' ∧ d.Grows shown d')
      (headingIdRewriter.visitBlock file b) (headingIdRewriter.visitBlock file b')) bs bs') :
    RunsAlike (GrowsInto shown bs bs') (headingIdRewriter.visitBlocks file bs)
      (headingIdRewriter.visitBlocks file bs') := by
  induction h with
  | feeds hshown hbs hbs' =>
    rw [visitBlocks_newline hbs, visitBlocks_newline hbs']
    exact .pure ⟨.feeds hshown hbs hbs', rfl, rfl⟩
  | last h =>
    simp only [Rewriter.visitBlocks, pure_bind]
    refine h.bind ?_
    rintro _ _ ⟨d, d', rfl, rfl, hd⟩
    exact .pure ⟨.last hd, rfl, rfl⟩
  | cons b _ ih =>
    rw [Rewriter.visitBlocks, Rewriter.visitBlocks]
    refine (RunsAlike.refl (Rewriter.yields_visitBlock headingIdRewriter_isGentle b)).bind ?_
    rintro _ _ ⟨rfl, d, rfl, -⟩
    refine ih.bind fun ds ds' hds => .pure ?_
    exact ⟨.cons d hds.1, congrArg (· + 1) hds.2.1, congrArg (· + 1) hds.2.2⟩

lemma visitBlock_alike {b b' : Block} (h : b.Grows shown b') :
    RunsAlike (fun o o' => ∃ d d', o = some d ∧ o' = some d' ∧ d.Grows shown d')
      (headingIdRewriter.visitBlock file b) (headingIdRewriter.visitBlock file b') := by
  refine Block.Grows.induction ?_ ?_ h
  · intro hd hd' l l' hh hl
    rw [visitBlock_leaf, visitBlock_leaf]
    cases hl with
    | refl hshown =>
      have halike : RunsAlike _ (headingIdRewriter.block file (.leaf hd l))
          (headingIdRewriter.block file (.leaf hd' l)) := headingId_alike l
      intro s
      obtain ⟨⟨l', ho, ho'⟩, hstate⟩ := halike s
      exact ⟨⟨_, _, ho, ho', .leaf hh (.refl hshown l')⟩, hstate⟩
    | table hshown => exact .pure ⟨_, _, rfl, rfl, .leaf hh (.table hshown)⟩
    | html hraw => exact .pure ⟨_, _, rfl, rfl, .leaf hh (.html hraw)⟩
  · intro hd hd' f bs bs' hh hitem hbs
    rw [Rewriter.visitBlock, Rewriter.visitBlock]
    refine (visitBlocks_alike hbs).bind fun ds ds' hds => .pure ⟨_, _, rfl, rfl, .node hh ?_ hds.1⟩
    rwa [hds.2.1, hds.2.2]

end HeadingIds

/-! ## Checks -/

section Checks

lemma tagAt?_feed (offset : Nat) (cs : Text) : tagAt? offset (cs ++ ['\n']) = tagAt? offset cs := by
  cases cs with
  | nil => rfl
  | cons c cs =>
    have hname (cs : Text) : (cs ++ ['\n']).takeWhile (fun c => c.isAlphanum || c == '-') =
        cs.takeWhile fun c => c.isAlphanum || c == '-' := takeWhile_feed (by decide) cs
    simp only [tagAt?, List.cons_append, List.head?_cons, List.drop_succ_cons, List.drop_zero]
    rw [← List.cons_append, ← apply_ite (· ++ ['\n']), hname]

lemma tagsFrom_feed (offset skip : Nat) (cs : Text) :
    tagsFrom offset skip (cs ++ ['\n']) = tagsFrom offset skip cs := by
  induction cs generalizing offset skip with
  | nil => cases skip <;> simp [tagsFrom]
  | cons c cs ih =>
    cases skip with
    | succ skip => exact ih (offset + 1) skip
    | zero =>
      simp only [List.cons_append, tagsFrom, ih, tagAt?_feed,
        isPrefixOf_feed (by decide : '\n' ∉ "!--".toList),
        indexOf?_feed (by decide : '\n' ∉ "-->".toList) (by decide)]

/-- The rules on tags say the same of raw HTML with one more line feed. -/
lemma reports_feed (rules : List TagRule) (file : Option Path) (start : Point) (html : Text) :
    TagRule.reports rules file start (html ++ ['\n']) = TagRule.reports rules file start html := by
  have htags : htmlTags (html ++ ['\n']) = htmlTags html := tagsFrom_feed 0 0 html
  rw [TagRule.reports, TagRule.reports, htags]
  refine List.flatMap_congr fun tag htag => ?_
  have hoffset : tag.offset ≤ html.length := by
    by_contra hlt
    have hopening := opening_of_mem_htmlTags htag
    rw [List.drop_eq_nil_of_le (by omega), List.prefix_nil] at hopening
    exact List.cons_ne_nil _ _ hopening
  simp only [TagRule.report, List.take_append_of_le_length hoffset]

section Trees

variable {rules : List TagRule} {file : Option Path} {shown : Bool}

/-- What some rules have to say about one token. -/
def TagRule.reportsOf (rules : List TagRule) (file : Option Path) (x : Token) : List Diagnostic :=
  x.html?.toList.flatMap fun y => reports rules file y.head.span.start y.text

lemma TagRule.reportsOn_eq_flatMap (root : Block) :
    reportsOn rules file root = root.walk.flatMap (reportsOf rules file) := by
  rw [reportsOn, Block.rawHtml, Block.collect]
  induction root.walk with
  | nil => rfl
  | cons x xs ih =>
    rw [List.flatMap_cons, ← ih, List.filterMap_cons, reportsOf]
    cases x.html? <;> simp

lemma reportsOf_insideAll {bs bs' : List Block}
    (h : GrowsAtEnd shown (fun b b' =>
      TagRule.reportsOf rules file (.block b') = TagRule.reportsOf rules file (.block b) ∧
        b'.inside.flatMap (TagRule.reportsOf rules file) =
          b.inside.flatMap (TagRule.reportsOf rules file)) bs bs') :
    (Block.insideAll bs').flatMap (TagRule.reportsOf rules file) =
      (Block.insideAll bs).flatMap (TagRule.reportsOf rules file) := by
  have hnone {bs : List Block} (hbs : ∀ b ∈ bs, b.kind = .newline) :
      (Block.insideAll bs).flatMap (TagRule.reportsOf rules file) = [] := by
    induction bs with
    | nil => simp [Block.insideAll]
    | cons b bs ih =>
      obtain ⟨hb, hrest⟩ := List.forall_mem_cons.1 hbs
      obtain ⟨hd, rfl⟩ := Block.exists_of_newline hb
      rw [Block.insideAll, List.flatMap_append, List.flatMap_cons, ih hrest, Block.inside_leaf]
      rfl
  induction h with
  | feeds _ hbs hbs' => rw [hnone hbs, hnone hbs']
  | last h => simp only [Block.insideAll, List.flatMap_append, List.flatMap_cons, h.1, h.2]
  | cons b _ ih => simp only [Block.insideAll, List.flatMap_append, List.flatMap_cons, ih]

/-- The rules on tags say the same of a tree that grows. -/
lemma reportsOn_grows {b b' : Block} (h : b.Grows shown b') :
    TagRule.reportsOn rules file b' = TagRule.reportsOn rules file b := by
  have hboth : TagRule.reportsOf rules file (.block b') = TagRule.reportsOf rules file (.block b) ∧
      b'.inside.flatMap (TagRule.reportsOf rules file) =
        b.inside.flatMap (TagRule.reportsOf rules file) := by
    refine Block.Grows.induction ?_ ?_ h
    · intro hd hd' l l' hh hl
      rw [Block.inside_leaf, Block.inside_leaf]
      cases hl with
      | refl =>
        refine ⟨?_, rfl⟩
        cases l with
        | html raw => simp [TagRule.reportsOf, Token.html?, hh.2]
        | _ => rfl
      | table => exact ⟨rfl, rfl⟩
      | html => exact ⟨by simp [TagRule.reportsOf, Token.html?, hh.2, reports_feed], rfl⟩
    · intro hd hd' f bs bs' hh _ hbs
      rw [Block.inside_node, Block.inside_node]
      exact ⟨rfl, reportsOf_insideAll hbs⟩
  rw [TagRule.reportsOn_eq_flatMap, TagRule.reportsOn_eq_flatMap, Block.walk, Block.walk,
    List.flatMap_cons, List.flatMap_cons, hboth.1, hboth.2]

end Trees

end Checks

/-! ## Steps that follow others -/

/-- A step of a build that does what another one does, if that one succeeds: it succeeds with a
related value and records the same. -/
def Follows {α β : Type} (R : α → β → Prop) (a : BuildM α) (a' : BuildM β) : Prop :=
  ∀ j x k, a j = (.ok x, k) → ∃ y, a' j = (.ok y, k) ∧ R x y

section Follows

variable {α α' β β' : Type} {R : α → α' → Prop} {Q : β → β' → Prop}

lemma Follows.pure {x : α} {y : α'} (h : R x y) : Follows R (Pure.pure x) (Pure.pure y) := by
  intro j z k hz
  cases hz
  exact ⟨y, rfl, h⟩

lemma Follows.bind {a : BuildM α} {a' : BuildM α'} {f : α → BuildM β} {f' : α' → BuildM β'}
    (ha : Follows R a a') (hf : ∀ x y, R x y → Follows Q (f x) (f' y)) :
    Follows Q (a >>= f) (a' >>= f') := by
  intro j z k hz
  obtain ⟨x, l, hx, hz⟩ := exists_of_bind_run hz
  obtain ⟨y, hy, hR⟩ := ha j x l hx
  rw [run_bind_of_ok hy]
  exact hf x y hR l z k hz

lemma Follows.refl (a : BuildM α) : Follows Eq a a := fun _ x _ hx => ⟨x, hx, rfl⟩

end Follows

/-! ## Expansion -/

section Expand

variable {load : Loader BuildM} {shown : Bool}

lemma expandBlocks_newline {bs : List Block} (hbs : ∀ b ∈ bs, b.kind = .newline) :
    expandBlocks load bs = pure bs := by
  induction bs with
  | nil => rw [expandBlocks]
  | cons b bs ih =>
    obtain ⟨hb, hrest⟩ := List.forall_mem_cons.1 hbs
    obtain ⟨hd, rfl⟩ := Block.exists_of_newline hb
    rw [expandBlocks, ih hrest]
    rfl

lemma expandBlocks_follows {bs bs' : List Block}
    (h : GrowsAtEnd shown
      (fun b b' => Follows (Block.Grows shown) (expandBlock load b) (expandBlock load b')) bs bs') :
    Follows (GrowsInto shown bs bs') (expandBlocks load bs) (expandBlocks load bs') := by
  induction h with
  | feeds hshown hbs hbs' =>
    rw [expandBlocks_newline hbs, expandBlocks_newline hbs']
    exact .pure ⟨.feeds hshown hbs hbs', rfl, rfl⟩
  | last h =>
    simp only [expandBlocks, pure_bind]
    exact h.bind fun d d' hd => .pure ⟨.last hd, rfl, rfl⟩
  | cons b _ ih =>
    rw [expandBlocks, expandBlocks]
    refine (Follows.refl _).bind ?_
    rintro d _ rfl
    refine ih.bind fun ds ds' hds => .pure ?_
    exact ⟨.cons d hds.1, congrArg (· + 1) hds.2.1, congrArg (· + 1) hds.2.2⟩

/-- A loader that looks at nothing but the start of a directive expands trees that grow alike. -/
theorem expandBlock_follows
    (hload : ∀ d {s s' : Span}, s'.start = s.start → load d s' = load d s) {b b' : Block}
    (h : b.Grows shown b') :
    Follows (Block.Grows shown) (expandBlock load b) (expandBlock load b') := by
  refine Block.Grows.induction ?_ ?_ h
  · intro hd hd' l l' hh hl
    cases hl with
    | refl hshown =>
      by_cases hkind : l.kind = .directive
      · obtain ⟨d, rfl⟩ := Block.Leaf.exists_of_kind_directive hkind
        rw [expandBlock, expandBlock, hload d hh.2]
        refine (Follows.refl _).bind ?_
        rintro found _ rfl
        subst hshown
        cases found with
        | none => exact .pure (.leaf hh (.refl rfl _))
        | some found => exact .pure (.node hh (absurd · Bool.false_ne_true) (.refl _ _))
      · rw [expandBlock_leaf hkind, expandBlock_leaf hkind]
        refine (Follows.refl _).bind ?_
        rintro l' _ rfl
        exact .pure (.leaf hh (.refl hshown l'))
    | table hshown => exact .pure (.leaf hh (.table hshown))
    | html hraw => exact .pure (.leaf hh (.html hraw))
  · intro hd hd' f bs bs' hh hitem hbs
    rw [expandBlock, expandBlock]
    refine (expandBlocks_follows hbs).bind fun ds ds' hds => .pure (.node hh ?_ hds.1)
    rwa [hds.2.1, hds.2.2]

end Expand

/-! ## Files -/

namespace Engine

variable {e : Engine} {rules : List TagRule} {file : Option Path} {shown : Bool}

lemma headings_follow {h h' : Head} {f : Block.Frame} {bs bs' : List Block}
    (hgrows : (Block.node h f bs).Grows shown (.node h' f bs')) :
    Follows (Block.Grows shown)
      (runPasses (if e.headingIds then [headingIdRewriter.pass] else []) file (.node h f bs))
      (runPasses (if e.headingIds then [headingIdRewriter.pass] else []) file
        (.node h' f bs')) := by
  split
  · rw [runPasses_singleton, runPasses_singleton]
    cases hgrows with
    | node hh hitem hbs =>
      intro j x k hx
      have halike : RunsAlike (GrowsInto shown bs bs') (headingIdRewriter.visitBlocks file bs)
          (headingIdRewriter.visitBlocks file bs') :=
        visitBlocks_alike (hbs.mono fun _ _ => visitBlock_alike)
      obtain ⟨⟨hgrows, hlength, hlength'⟩, hstate⟩ := halike ([], j)
      have hpass (h : Head) (bs : List Block) : headingIdRewriter.pass file (.node h f bs) j =
          (.ok (.node h f (headingIdRewriter.visitBlocks file bs ([], j)).1),
            (headingIdRewriter.visitBlocks file bs ([], j)).2.2) := rfl
      rw [hpass] at hx
      cases hx
      refine ⟨_, (hpass h' bs').trans (by rw [hstate]), .node hh ?_ hgrows⟩
      rwa [hlength, hlength']
  · exact .pure hgrows

lemma checks_follow (he : e.IsChecking rules) {root root' : Block} (h : root.Grows shown root') :
    Follows (Block.Grows shown)
      (runPasses (if e.validators.isEmpty then [] else [(Validator.group e.validators).pass]) file
        root)
      (runPasses (if e.validators.isEmpty then [] else [(Validator.group e.validators).pass]) file
        root') := by
  intro j x k hx
  rw [checks_run he] at hx
  cases hx
  refine ⟨root', ?_, h⟩
  rw [checks_run he, reportsOn_grows h]

lemma loadIn_start (chain : IncludeChain) (d : Directive) {s s' : Span} (h : s'.start = s.start) :
    e.loadIn chain file d s' = e.loadIn chain file d s := by
  simp only [loadIn, reportAt, h]

/-- **Building a text with one more line feed.**  What is recorded is the same, and the tree grows
at its end as the tree that was read does. -/
theorem process_follows (he : e.IsChecking rules) (hblank : e.rules.SkipsBlank)
    (chain : IncludeChain) (file : Option Path) {scope : Scope} {text : Text} {source : Block}
    (hlast : text.getLast? ≠ some '\n') (hsource : read e.rules scope text = .ok source) :
    Follows (Block.Grows (source.endsOpen true)) (e.process chain scope file text)
      (e.process chain scope file (text ++ ['\n'])) := by
  obtain ⟨source', hsource'⟩ :=
    exists_readWith he.plain.rules he.plain.text [] scope (text ++ ['\n'])
  have hgrows := readWith_fed he.plain.rules he.plain.text hblank hlast hsource hsource'
  have hprepare {text : Text} {source : Block} (hsource : read e.rules scope text = .ok source) :
      e.prepare scope file text = runPasses e.allPasses file source := by
    rw [prepare, hsource]
    rfl
  rw [process_eq, process_eq, hprepare hsource, hprepare hsource', allPasses, he.passes,
    List.append_nil]
  refine Follows.bind (R := Block.Grows (source.endsOpen true)) ?_ fun root root' hroot =>
    expandBlock_follows (fun d _ _ h => loadIn_start chain d h) hroot
  obtain ⟨-, bs, -, -, rfl⟩ := readWith_ok hsource
  obtain ⟨-, bs', -, -, rfl⟩ := readWith_ok hsource'
  rw [runPasses_append, runPasses_append]
  exact (headings_follow hgrows).bind fun root root' hroot => checks_follow he hroot

end Engine

end Docmark
