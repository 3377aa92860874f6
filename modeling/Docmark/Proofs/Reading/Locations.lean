import Mathlib
import Docmark.Proofs.Extent.Pending
import Docmark.Proofs.Reading.Passes
import Docmark.Proofs.Reading.Tiling
import Docmark.Proofs.Token.Walk

/-!
# Where tokens say that they start

Raw HTML and directives keep the piece of source text that they were made from, and a token says
where in the file it starts.  At the place that it names there should stand the piece that it keeps.

This is so for what a document holds directly, as long as its text is read as it stands: raw HTML
and directives as blocks, headings behind hashes, and paragraphs whose lines start flush.  It is not
so where a text is rebuilt before it is read, since what is read is told only where the first of its
characters stands: the marks of a quote or an item, the indentation of a line in a paragraph and
everything in front of a cell are missing from the places further on.

## Main results

* `readWith_pointsHome` — in a document, the excerpts of the blocks that are read in place stand at
  their places.
-/

namespace Docmark

/-! ## Excerpts -/

/-- A piece of source text that a token keeps, and the point at which the token starts. -/
structure Excerpt where
  start : Point
  text : Text
deriving DecidableEq

/-- The piece of source that a token keeps, if it is raw HTML or a directive. -/
def Token.excerpt? : Token → Option Excerpt
  | .block (.leaf h (.html raw)) => some ⟨h.span.start, raw⟩
  | .block (.leaf h (.directive d)) => some ⟨h.span.start, d.raw⟩
  | .inline (.leaf h (.tag raw)) => some ⟨h.span.start, raw⟩
  | .inline (.leaf h (.directive d)) => some ⟨h.span.start, d.raw⟩
  | _ => none

/-- The pieces of source that the tokens of a block keep, at any depth. -/
def Block.excerpts (b : Block) : List Excerpt := b.collect Token.excerpt?

/-- An excerpt stands in a text that starts at `origin`, right where it says. -/
def Excerpt.StandsIn (x : Excerpt) (text : Text) (origin : Point) : Prop :=
  ∃ before after, text = before ++ x.text ++ after ∧ x.start = origin.advance before

/-- What stands in a piece of a text stands in the text. -/
lemma Excerpt.StandsIn.inside {x : Excerpt} {before content after : Text} {origin : Point}
    (h : x.StandsIn content (origin.advance before)) :
    x.StandsIn (before ++ content ++ after) origin := by
  obtain ⟨front, back, rfl, hstart⟩ := h
  refine ⟨before ++ front, back ++ after, by simp only [List.append_assoc], ?_⟩
  rw [hstart, Point.advance_append]

/-- What stands in a text right at its start starts the text. -/
lemma Excerpt.StandsIn.initial {x : Excerpt} {text : Text} {origin : Point}
    (h : x.StandsIn text origin) (hstart : x.start = origin) : x.text <+: text := by
  obtain ⟨before, after, rfl, hx⟩ := h
  rw [hstart] at hx
  have hoffset := congrArg Point.offset hx
  rw [Point.advance_offset] at hoffset
  -- anything in front of the excerpt would take bytes
  have hbefore : before = [] := by
    by_contra hne
    have hpos := byteLength_pos hne
    omega
  rw [hbefore, List.nil_append]
  exact List.prefix_append _ _

/-! ## Inlines -/

/-- An inline token keeps what is left of the text where it starts. -/
def Inline.Keeps (t : Inline) (rest : Text) : Prop :=
  ∀ x, Token.excerpt? (.inline t) = some x → x.text <+: rest

lemma Inline.excerpt?_start {t : Inline} {x : Excerpt} (h : Token.excerpt? (.inline t) = some x) :
    x.start = t.span.start := by
  cases t with
  | node hd f ts => cases h
  | leaf hd c => cases c <;> first | (cases h; rfl) | cases h

lemma Inline.Stands.standsIn {text : Text} {origin : Point} {t : Inline} {x : Excerpt}
    (h : t.Stands Inline.Keeps text origin) (hx : Token.excerpt? (.inline t) = some x) :
    x.StandsIn text origin := by
  obtain ⟨before, rest, rfl, hstart, hkeeps⟩ := h
  obtain ⟨after, rfl⟩ := hkeeps x hx
  refine ⟨before, after, (List.append_assoc _ _ _).symm, ?_⟩
  rw [Inline.excerpt?_start hx, hstart]

/-- A directive keeps the start of the text that it is read from. -/
lemma directive?_raw {sign : Char} {tail : Text → Option Text} {cs : Text} {d : Found Directive}
    (h : directive? sign tail cs = some d) : d.value.raw <+: cs := by
  simp only [directive?] at h
  split at h
  next => cases h
  next =>
    split at h
    next =>
      split at h
      next =>
        split at h
        next => cases h
        next =>
          split at h
          next => cases h
          next =>
            cases h
            exact (dropEndWhile_initial isSpace _).trans (List.take_prefix _ _)
      next => cases h
    next => cases h

section Recognize

variable {defs : Definitions} {nest : Option InlineReader} {scope : Scope} {cur : Cursor}
  {m : Found Inline.Body} {head : Head}

/-- Of the inline tokens, only tags and directives keep a piece of source. -/
lemma Inline.keeps_of_kind {t : Inline} {rest : Text} (h : t.kind ∉ [.tag, .directive]) :
    t.Keeps rest := by
  have htag : t.kind ≠ .tag := List.ne_of_not_mem_cons h
  have hdirective : t.kind ≠ .directive :=
    List.ne_of_not_mem_cons (List.not_mem_of_not_mem_cons h)
  intro x hx
  cases t with
  | node hd f ts => cases hx
  | leaf hd c => cases c <;> first | exact absurd rfl htag | exact absurd rfl hdirective | cases hx

/-- Whatever a construct makes keeps the start of the input, if it keeps anything. -/
lemma InlineConstruct.recognize_keeps {c : InlineConstruct}
    (h : c.recognize defs nest scope cur = .ok (some m)) :
    (Inline.ofBody head m.value).Keeps cur.rest := by
  have hother (hmade : c.made ∉ [.tag, .directive]) :
      (Inline.ofBody head m.value).Keeps cur.rest := by
    refine Inline.keeps_of_kind ?_
    rcases c.recognize_kind head h with hkind | hkind
    · rwa [hkind]
    · rw [hkind]
      decide
  cases c with
  | tag =>
    obtain ⟨x, hx, rfl⟩ := Option.map_eq_some_iff.1 (Except.ok.inj h)
    obtain ⟨n, -, rfl⟩ := Option.map_eq_some_iff.1 hx
    rintro y ⟨⟩
    exact List.take_prefix n cur.rest
  | directive =>
    obtain ⟨x, hx, rfl⟩ := Option.map_eq_some_iff.1 (Except.ok.inj h)
    obtain ⟨d, hd, rfl⟩ := Option.map_eq_some_iff.1 hx
    rintro y ⟨⟩
    exact directive?_raw hd
  | _ => exact hother (by simp [made])

end Recognize

/-- What inline tokens keep, at any depth, stands in the text that is read, where they say. -/
lemma readInlines_standsIn {rules : RuleSet} (hrules : rules.IsStandard) {defs : Definitions}
    {scope : Scope} {text : Text} {origin : Point} {ts : List Inline}
    (h : readInlines rules defs scope text origin = .ok ts) :
    ∀ t ∈ ts, ∀ x ∈ t.collect Token.excerpt?, x.StandsIn text origin := by
  have hplaces : (readInlines rules defs).Places Inline.Keeps :=
    readInlines_places hrules (fun t rest after hkeeps x hx => (hkeeps x hx).trans
      (List.prefix_append rest after)) fun _ _ _ _ _ _ hrec => InlineConstruct.recognize_keeps hrec
  intro t ht x hx
  obtain ⟨u, hu, hx⟩ := Inline.mem_collect.1 hx
  exact (hplaces _ _ _ _ h t ht u hu).standsIn hx

/-! ## Blocks -/

/-- A text of which every line is blank or starts with something else than white space. -/
def StartsFlush (source : Text) : Prop := ∀ l ∈ lines source, isBlank l = true ∨ trimStart l = l

instance (source : Text) : Decidable (StartsFlush source) :=
  inferInstanceAs (Decidable (∀ l ∈ lines source, _))

/-- A block that is read from its source as it stands: no container and no table, and with lines
that start flush if it is a paragraph or an underlined title. -/
def Block.ReadsInPlace (source : Text) (b : Block) : Prop :=
  b.isContainer = false ∧ b.kind ≠ .table ∧
    (b.kind = .paragraph ∨ b.kind = .text ∨ b.head.rule = BlockConstruct.underlinedHeading.name →
      StartsFlush source)

/-- A block over a piece of a text, at which its excerpts stand if it is read in place. -/
def Block.PointsHome (text : Text) (origin : Point) (b : Block) : Prop :=
  ∃ before source after, text = before ++ source ++ after ∧
    b.span = ⟨origin.advance before, origin.advance (before ++ source)⟩ ∧
      (b.ReadsInPlace source → ∀ x ∈ b.excerpts, x.StandsIn text origin)

/-- Nothing is taken from the front of lines that start flush. -/
lemma flatMap_trimStart_of_flush {ls : List Text} (h : ∀ l ∈ ls, trimStart l = l) :
    ls.flatMap trimStart = ls.flatten := by
  rw [List.flatMap_def, List.map_congr_left h, List.map_id']

/-- White space at the front of a text that starts with some other text is at the front of that. -/
lemma trimStart_eq_self_of_append {cs ds : Text} (h : trimStart (cs ++ ds) = cs ++ ds) :
    trimStart cs = cs := by
  cases cs with
  | nil => rfl
  | cons c cs =>
    by_cases hc : isSpace c = true
    · have hdrop : trimStart (c :: cs ++ ds) = trimStart (cs ++ ds) := List.dropWhile_cons_of_pos hc
      have hlength := (List.dropWhile_suffix isSpace (l := cs ++ ds)).length_le
      rw [← trimStart, ← hdrop, h, List.cons_append, List.length_cons] at hlength
      omega
    · exact List.dropWhile_cons_of_neg hc

/-- A title in a flush line is a piece of the line, from its start. -/
lemma trim_restOfLine_of_flush {taken : Text} (h : StartsFlush taken) :
    trim (restOfLine taken) <+: taken := by
  -- the first line starts flush, or it is blank and there is nothing of it left
  have hfront : trimStart (restOfLine taken) = restOfLine taken ∨
      trimStart (restOfLine taken) = [] := by
    cases hlines : lines taken with
    | nil =>
      have htaken : taken = [] := by rw [← lines_flatten taken, hlines, List.flatten_nil]
      exact .inl (by rw [htaken]; rfl)
    | cons l ls =>
      have hl : ∃ feed, l = restOfLine taken ++ feed := by
        rcases head_of_lines hlines with hl | hl
        · exact ⟨[], by rw [hl, List.append_nil]⟩
        · exact ⟨['\n'], hl⟩
      obtain ⟨feed, hl⟩ := hl
      rcases h l (hlines ▸ List.mem_cons_self) with hblank | hflush
      · refine .inr (List.dropWhile_eq_nil_iff.2 fun c hc => ?_)
        exact List.all_eq_true.1 hblank c (hl ▸ List.mem_append_left _ hc)
      · rw [hl] at hflush
        exact .inl (trimStart_eq_self_of_append hflush)
  rcases hfront with hfront | hfront <;> rw [trim, trimEnd, hfront]
  · exact (dropEndWhile_initial isSpace _).trans (restOfLine_initial taken)
  · exact List.nil_prefix

/-- The text of a paragraph with flush lines is a piece of them, from their start. -/
lemma joinParagraph_of_flush {taken : Text} {ls : List Text} (hls : ls <+: lines taken)
    (hblank : (∀ l ∈ ls, isBlank l = false) ∨ joinParagraph ls = []) (h : StartsFlush taken) :
    joinParagraph ls <+: taken := by
  rcases hblank with hblank | hnil
  · have hkeep : ∀ l ∈ ls, trimStart l = l := fun l hl =>
      (h l (hls.subset hl)).resolve_left (by simp [hblank l hl])
    rw [joinParagraph, flatMap_trimStart_of_flush hkeep]
    exact (dropEndWhile_initial isSpace _).trans (flatten_initial hls)
  · rw [hnil]
    exact List.nil_prefix

/-- The text of a pending block that is read in place is a piece of what its construct has taken. -/
lemma Pending.IsFrom.exists_piece {q : Point} {taken : Text} {c : BlockConstruct} {p : Pending}
    (h : p.IsFrom q taken c) (htable : ∀ align header rows, p.form ≠ .table align header rows)
    (hflush : p.form = .paragraph ∨ p.form = .text ∨ c = .underlinedHeading → StartsFlush taken) :
    ∃ before, before ++ p.source <+: taken ∧ p.origin = q.advance before := by
  cases h with
  | heading hline => exact ⟨_, hline.trans (restOfLine_initial taken), rfl⟩
  | title hline =>
    rw [hline]
    exact ⟨[], trim_restOfLine_of_flush (hflush (.inr (.inr rfl))), rfl⟩
  | paragraph hform hls hblank =>
    refine ⟨[], joinParagraph_of_flush hls hblank (hflush ?_), rfl⟩
    exact hform.imp_right .inl
  | table => exact absurd rfl (htable _ _ _)

/-- A leaf with a head comes from a body that is the leaf. -/
lemma Block.Body.eq_leaf_of_ofBody {head hd : Head} {v : Block.Body} {l : Block.Leaf}
    (h : Block.ofBody head v = .leaf hd l) : v = .leaf l := by
  cases v with
  | leaf l' =>
    cases h
    rfl
  | node => cases h

/-- A leaf that a construct makes keeps the start of the input, if it keeps anything. -/
lemma BlockConstruct.recognize_keeps {nest : Option BlockReader} {scope : Scope} {cur : Cursor}
    {c : BlockConstruct} {m : Found Block.Body} {l : Block.Leaf} {head : Head} {x : Excerpt}
    (h : c.recognize nest scope cur = .ok (some m)) (hl : m.value = .leaf l)
    (hx : Token.excerpt? (.block (.leaf head l)) = some x) :
    x.text <+: cur.rest ∧ x.start = head.span.start := by
  have hmade := (BlockConstruct.recognize_leaf h hl).1
  cases l with
  | html raw =>
    cases hx
    cases c with
    | html =>
      obtain ⟨y, hy, rfl⟩ := Option.map_eq_some_iff.1 (Except.ok.inj h)
      obtain ⟨n, -, rfl⟩ := Option.map_eq_some_iff.1 hy
      cases hl
      exact ⟨List.take_prefix n cur.rest, rfl⟩
    | _ => cases hmade
  | directive d =>
    cases hx
    cases c with
    | directive =>
      obtain ⟨y, hy, rfl⟩ := Option.map_eq_some_iff.1 (Except.ok.inj h)
      obtain ⟨d', hd, rfl⟩ := Option.map_eq_some_iff.1 hy
      cases hl
      exact ⟨directive?_raw hd, rfl⟩
    | _ => cases hmade
  | _ => cases hx

/-! ## Documents -/

section Document

variable {rules : RuleSet} (hrules : rules.IsStandard)

include hrules

omit hrules in
/-- What becomes something else than a table becomes one sequence of inlines, read from its text. -/
lemma Pending.exists_of_complete {read : InlineReader} {rule : String} {p : Pending}
    {l : Block.Leaf} (h : p.complete read rule = .ok l) (htable : l.kind ≠ .table) :
    (∀ align header rows, p.form ≠ .table align header rows) ∧
      (p.form = .paragraph → l.kind = .paragraph) ∧ (p.form = .text → l.kind = .text) ∧
      ∃ ts, read p.scope p.source p.origin = .ok ts ∧ l.inlines = [ts] := by
  obtain ⟨form, source, origin, scope⟩ := p
  cases Pending.becomes_of_complete h with
  | heading hts => exact ⟨by simp, by simp, by simp, _, hts, rfl⟩
  | paragraph hts => exact ⟨by simp, fun _ => rfl, by simp, _, hts, rfl⟩
  | text hts => exact ⟨by simp, by simp, fun _ => rfl, _, hts, rfl⟩
  | table => exact absurd rfl htable

/-- What a pending block that is read in place becomes has its excerpts where they say. -/
lemma Pending.complete_standsIn {defs : Definitions} {q : Point} {taken : Text}
    {c : BlockConstruct} {p : Pending} {span : Span} {l : Block.Leaf} (hp : p.IsFrom q taken c)
    (hl : p.complete (readInlines rules defs) c.name = .ok l)
    (hplace : (Block.leaf ⟨c.name, span⟩ l).ReadsInPlace taken) :
    ∀ x ∈ (Block.leaf ⟨c.name, span⟩ l).excerpts, x.StandsIn taken q := by
  obtain ⟨-, htable, hflush⟩ := hplace
  obtain ⟨hform, hparagraph, htext, ts, hts, hinlines⟩ := Pending.exists_of_complete hl htable
  obtain ⟨before, ⟨after, htaken⟩, horigin⟩ := hp.exists_piece hform fun hlines => hflush <| by
    rcases hlines with hlines | hlines | rfl
    · exact .inl (hparagraph hlines)
    · exact .inr (.inl (htext hlines))
    · exact .inr (.inr rfl)
  rw [horigin] at hts
  intro x hx
  rcases Block.mem_collect_leaf.1 hx with hx | ⟨ts', hts', t, ht, hx⟩
  · cases l <;> first | (cases hinlines; done) | cases hx
  · rw [hinlines, List.mem_singleton] at hts'
    rw [← htaken]
    exact (readInlines_standsIn hrules hts t (hts' ▸ ht) x hx).inside

/-- The completion of a block that a construct makes on the way through a text points home. -/
lemma Block.pointsHome_of_resolve {defs : Definitions} {nest : Option BlockReader} {scope : Scope}
    {cur : Cursor} {c : BlockConstruct} {m : Found Block.Body} {text : Text} {origin : Point}
    {b : Block} (hcur : cur.IsIn text origin) (h : c.recognize nest scope cur = .ok (some m))
    (hb : (Block.ofBody ⟨c.name, cur.spanOf m.length⟩ m.value).resolve (readInlines rules defs) =
      .ok b) : b.PointsHome text origin := by
  obtain ⟨before, htext, hpoint⟩ := hcur
  have hhead : b.head = ⟨c.name, cur.spanOf m.length⟩ := by
    rw [Block.head_resolve hb]
    cases m.value <;> rfl
  refine ⟨before, cur.rest.take m.length, cur.rest.drop m.length, ?_, ?_, ?_⟩
  · rw [List.append_assoc, List.take_append_drop, htext]
  · rw [Block.span, hhead, Cursor.spanOf, Cursor.drop, Point.advance_append, hpoint]
  · intro hplace x hx
    -- the source of the block is all that is left, which is taken to the end of the text afterwards
    have hstands : x.StandsIn cur.rest cur.point := by
      cases b with
      | node => cases hplace.1
      | leaf hd l =>
        cases hhead
        rcases exists_of_resolve_leaf hb with ⟨p, hpending, hl⟩ | ⟨hsame, -⟩
        · have hp : m.value = .leaf (.pending p) := Block.Body.eq_leaf_of_ofBody hpending
          have htaken := Pending.complete_standsIn hrules (BlockConstruct.recognize_pending h hp) hl
            hplace x hx
          have hinside : x.StandsIn ([] ++ cur.rest.take m.length ++ cur.rest.drop m.length)
              cur.point := Excerpt.StandsIn.inside htaken
          rwa [List.nil_append, List.take_append_drop] at hinside
        · have hl : m.value = .leaf l := Block.Body.eq_leaf_of_ofBody hsame
          rcases Block.mem_collect_leaf.1 hx with hx | ⟨ts, hts, -⟩
          · obtain ⟨⟨after, hrest⟩, hstart⟩ := BlockConstruct.recognize_keeps h hl hx
            exact ⟨[], after, hrest.symm, hstart⟩
          · rw [(BlockConstruct.recognize_leaf h hl).2] at hts
            cases hts
    rw [hpoint] at hstands
    rw [htext, ← List.append_nil (before ++ cur.rest)]
    exact hstands.inside

/-- **Positions of a document.**  Each block directly in a document covers a piece of its text, and
if it is read in place, its excerpts stand in the text where they say. -/
theorem readWith_pointsHome {defs : Definitions} {scope : Scope} {text : Text} {root : Block}
    (h : (readWith rules defs scope text).1 = .ok root) :
    ∀ b ∈ root.children, b.PointsHome text Point.start := by
  obtain ⟨bs, bs', hbs, hbs', rfl⟩ := readWith_ok h
  intro b' hb'
  obtain ⟨b, hb, hres⟩ := exists_of_mem_forall₂ (Block.resolveAll_forall₂ hbs') b' hb'
  rw [← (Run.tokens_of_toExcept hbs).2] at hb
  obtain ⟨cur, c, m, hcur, hm, rfl⟩ := runBlocks_places hrules _ scope text Point.start b hb
  exact Block.pointsHome_of_resolve hrules hcur hm hres

end Document

end Docmark
