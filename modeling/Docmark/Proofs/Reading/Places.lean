import Mathlib
import Docmark.Proofs.Reading.Kinds

/-!
# Where tokens stand

A reading makes each token at a place in its text: what is left of the text there is what the rule
was shown, and the token's span starts there.  The content of a link or of emphasis is a stretch of
the text around it, read from its own place, so the same is true of inline tokens at any depth.

## Main results

* `runBlocks_places` — the place of each block of a text.
* `readInlines_places` — the place of each inline token of a text, however deep.
-/

namespace Docmark

/-! ## Cursors in a text -/

/-- A cursor on the way through a text that starts at `origin`. -/
def Cursor.IsIn (cur : Cursor) (text : Text) (origin : Point) : Prop :=
  ∃ before, text = before ++ cur.rest ∧ cur.point = origin.advance before

lemma Cursor.isIn_ofText (text : Text) (origin : Point) :
    (Cursor.ofText text origin).IsIn text origin := ⟨[], rfl, rfl⟩

lemma Cursor.IsIn.drop {cur : Cursor} {text : Text} {origin : Point} (h : cur.IsIn text origin)
    (n : Nat) : (cur.drop n).IsIn text origin := by
  obtain ⟨before, htext, hpoint⟩ := h
  refine ⟨before ++ cur.rest.take n, ?_, ?_⟩
  · simp only [Cursor.drop]
    rw [List.append_assoc, List.take_append_drop]
    exact htext
  · simp only [Cursor.drop]
    rw [Point.advance_append, hpoint]

/-- What every step's token has, wherever the cursor stands in the text, every token of a reading
has. -/
lemma readAll_places {α : Type} {next : Cursor → Except Fault (Option (Match α))} {P : α → Prop}
    {text : Text} {origin : Point}
    (h : ∀ cur m, cur.IsIn text origin → next cur = .ok (some m) → P m.token) (cur : Cursor)
    (hcur : cur.IsIn text origin) : ∀ t ∈ (readAll next cur).tokens, P t :=
  readAll_invariant (fun cur m hcur _ hm => ⟨h cur m hcur hm, hcur.drop _⟩) cur hcur

/-- **The place of a block.**  Each block of a text is what a construct found at a cursor on the way
through the text. -/
theorem runBlocks_places {rules : RuleSet} (hrules : rules.IsStandard) (nest : Option BlockReader)
    (scope : Scope) (text : Text) (origin : Point) :
    ∀ b ∈ (runBlocks rules nest scope text origin).tokens,
      ∃ (cur : Cursor) (c : BlockConstruct) (found : Found Block.Body), cur.IsIn text origin ∧
        c.recognize nest scope cur = .ok (some found) ∧
          b = .ofBody ⟨c.name, cur.spanOf found.length⟩ found.value := by
  refine readAll_places ?_ _ (Cursor.isIn_ofText text origin)
  intro cur m hcur hm
  obtain ⟨c, found, -, hfound, rfl⟩ := nextBlock_some hrules hm
  exact ⟨cur, c, found, hcur, hfound, rfl⟩

/-! ## Inline tokens -/

/-- A token that stands in a text, at the place where `rest` is left of it, and of which `P` holds
there. -/
def Inline.Stands (P : Inline → Text → Prop) (text : Text) (origin : Point) (t : Inline) : Prop :=
  ∃ before rest, text = before ++ rest ∧ t.span.start = origin.advance before ∧ P t rest

section Stands

variable {P : Inline → Text → Prop}

/-- A token in a stretch of a text stands in the text, if more behind it makes no difference. -/
lemma Inline.Stands.inside (hgrow : ∀ t rest after, P t rest → P t (rest ++ after))
    {before content after : Text} {origin : Point} {t : Inline}
    (h : t.Stands P content (origin.advance before)) :
    t.Stands P (before ++ content ++ after) origin := by
  obtain ⟨skipped, rest, rfl, hstart, hP⟩ := h
  refine ⟨before ++ skipped, rest ++ after, by simp only [List.append_assoc], ?_,
    hgrow t rest after hP⟩
  rw [hstart, Point.advance_append]

lemma Cursor.IsIn.stands (hgrow : ∀ t rest after, P t rest → P t (rest ++ after))
    {cur : Cursor} {text : Text} {origin : Point} {t : Inline} (hcur : cur.IsIn text origin)
    (h : t.Stands P cur.rest cur.point) : t.Stands P text origin := by
  obtain ⟨before, htext, hpoint⟩ := hcur
  rw [hpoint] at h
  have hinside : t.Stands P (before ++ cur.rest ++ []) origin := h.inside hgrow
  rwa [List.append_nil, ← htext] at hinside

end Stands

/-! ### The content of frames -/

section Content

variable {nest : Option InlineReader} {scope : Scope} {cur : Cursor} {m : Found Inline.Body}

/-- What a frame's content is: a stretch of the input, read from its own place. -/
def Inline.Body.HasContent (nest : Option InlineReader) (cur : Cursor) : Inline.Body → Prop
  | .leaf _ => True
  | .node _ ts => ∃ read scope before content after, nest = some read ∧
      cur.rest = before ++ content ++ after ∧
        read scope content (cur.point.advance before) = .ok ts

lemma IsBetween.hasSlice {cs text : Text} {size : Nat} (h : IsBetween cs size text) :
    HasSlice cs size text := by
  obtain ⟨rfl, mark, hpairs⟩ | ⟨rfl, hmarks⟩ := h
  · exact betweenPairs?_hasSlice hpairs
  · exact betweenMarks?_hasSlice hmarks

/-- A stretch of the input behind some characters is read from the place behind them. -/
lemma pointAt_of_split {opening content after : Text} {size : Nat}
    (hrest : cur.rest = opening ++ content ++ after) (hsize : opening.length = size) :
    cur.pointAt size = cur.point.advance opening := by
  rw [Cursor.pointAt, hrest, ← hsize, List.append_assoc, List.take_left]

/-- Whatever construct makes a frame, its content is a stretch of the input. -/
lemma InlineConstruct.recognize_hasContent {defs : Definitions} {c : InlineConstruct}
    (h : c.recognize defs nest scope cur = .ok (some m)) : m.value.HasContent nest cur := by
  rcases c.recognize_cases h with
    ⟨l, hvalue, -⟩ | ⟨target, -, hlink⟩ | ⟨frame, size, content, -, -, hbetween, hframed⟩
  · rw [hvalue]
    trivial
  · obtain ⟨l, d, hl, -, rfl | ⟨read, ts, hread, -, hts, rfl⟩⟩ := exists_of_linkVia hlink
    · trivial
    · obtain ⟨opening, after, hrest, hsize⟩ := label?_hasSlice hl
      rw [pointAt_of_split hrest hsize] at hts
      exact ⟨read, _, opening, l.text, after, hread, hrest, hts⟩
  · obtain ⟨read, text, ts, hread, htext, hts, rfl⟩ := exists_of_framed hframed
    obtain ⟨opening, after, hrest, hsize⟩ := (hbetween text htext).hasSlice
    rw [pointAt_of_split hrest hsize] at hts
    exact ⟨read, _, opening, text, after, hread, hrest, hts⟩

end Content

/-! ### All levels -/

/-- A reader whose tokens, at any depth, stand in the text that it reads. -/
def InlineReader.Places (read : InlineReader) (P : Inline → Text → Prop) : Prop :=
  ∀ scope text origin ts, read scope text origin = .ok ts →
    ∀ t ∈ ts, ∀ u ∈ t.nodes, u.Stands P text origin

/-- **The place of an inline token.**  A property that every construct's token has, given what is
left of the input, is one of all inline tokens of a text at their places, at any depth; provided
that it stays when more follows the input. -/
theorem readInlines_places {rules : RuleSet} (hrules : rules.IsStandard) {defs : Definitions}
    {P : Inline → Text → Prop} (hgrow : ∀ t rest after, P t rest → P t (rest ++ after))
    (hfound : ∀ nest scope (cur : Cursor) (c : InlineConstruct) (found : Found Inline.Body),
      .standard c ∈ rules.inline → c.recognize defs nest scope cur = .ok (some found) →
        P (.ofBody ⟨c.name, cur.spanOf found.length⟩ found.value) cur.rest) :
    (readInlines rules defs).Places P := by
  have hstep (nest : Option InlineReader)
      (hnest : ∀ read, nest = some read → InlineReader.Places read P) :
      InlineReader.Places (runInlines rules defs nest) P := by
    intro scope text origin ts h
    obtain ⟨-, rfl⟩ := Run.tokens_of_toExcept h
    refine readAll_places ?_ _ (Cursor.isIn_ofText text origin)
    intro cur m hcur hm
    obtain ⟨c, found, hc, hrec, rfl⟩ := nextInline_some hrules hm
    have hself := hfound nest _ cur c found hc hrec
    have hcontent := InlineConstruct.recognize_hasContent hrec
    intro u hu
    refine hcur.stands hgrow ?_
    cases hvalue : found.value with
    | leaf l =>
      rw [hvalue] at hself hu
      rw [Inline.ofBody, Inline.nodes_leaf, List.mem_singleton] at hu
      rw [hu]
      exact ⟨[], cur.rest, rfl, rfl, hself⟩
    | node frame ts =>
      rw [hvalue] at hself hu hcontent
      rw [Inline.ofBody, Inline.nodes_node, List.mem_cons] at hu
      rcases hu with rfl | hu
      · exact ⟨[], cur.rest, rfl, rfl, hself⟩
      · obtain ⟨t, ht, hut⟩ := Inline.mem_nodesAll.1 hu
        obtain ⟨read, scope', before, content, after, hread, hrest, hts⟩ := hcontent
        rw [hrest]
        exact (hnest read hread _ _ _ _ hts t ht u hut).inside hgrow
  have hlevels : ∀ n, InlineReader.Places (inlinesAt rules defs n) P := by
    intro n
    induction n with
    | zero => exact hstep none (by simp)
    | succ n ih =>
      refine hstep _ ?_
      rintro read ⟨⟩
      exact ih
  intro scope
  exact hlevels scope.budget scope

end Docmark
