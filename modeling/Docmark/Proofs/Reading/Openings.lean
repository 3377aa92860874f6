import Mathlib
import Docmark.Proofs.Reading.Dialects
import Docmark.Proofs.Reading.Single

/-!
# What inline constructs begin with

Every inline construct but plain text shows at its start: one of a few texts stands there wherever
it is recognised.  So where the next characters cannot begin a construct, its rule declines without
a look at what follows.

## Main results

* `InlineConstruct.recognize_eq_none_of_openings` — a construct none of whose openings stands at the
  start of the input is not recognised.
* `InlineConstruct.recognize_eq_none_of_head` — so it is if the first character begins none of them.
-/

namespace Docmark

/-! ## Constructs of one kind of opening -/

section Nothing

variable {cs : Text}

lemma escape?_eq_none (h : ¬ ['\\'] <+: cs) : escape? cs = none := by
  simp only [escape?]
  split
  next c rest => exact absurd (List.prefix_append ['\\'] (c :: rest)) h
  next => rfl

lemma autoLink?_eq_none (h : ¬ ['<'] <+: cs) : autoLink? cs = none := by
  simp only [autoLink?]
  split
  next rest => exact absurd (List.prefix_append ['<'] rest) h
  next => rfl

lemma tagLength?_eq_none (h : ¬ ['<'] <+: cs) : tagLength? cs = none := by
  have hcomment : ¬ "<!--".toList.isPrefixOf cs := fun hopening =>
    h ((List.prefix_append ['<'] _).trans (List.isPrefixOf_iff_prefix.1 hopening))
  simp only [tagLength?, if_neg hcomment]
  split
  next rest => exact absurd (List.prefix_append ['<'] rest) h
  next => rfl

lemma label?_eq_none (himage : ¬ ['!', '['] <+: cs) (hlink : ¬ ['['] <+: cs) :
    label? cs = none := by
  simp only [label?]
  split
  next rest => exact absurd (List.prefix_append ['!', '['] rest) himage
  next rest => exact absurd (List.prefix_append ['['] rest) hlink
  next => rfl

lemma betweenMarks?_eq_none (hstar : ¬ ['*'] <+: cs) (hline : ¬ ['_'] <+: cs) :
    betweenMarks? cs = none := by
  cases cs with
  | nil => rfl
  | cons mark content =>
    refine if_neg ?_
    rintro ⟨rfl | rfl, -⟩
    · exact hstar (List.prefix_append ['*'] content)
    · exact hline (List.prefix_append ['_'] content)

lemma codeSpan?_eq_none (h : ¬ ['\x60'] <+: cs) : codeSpan? cs = none := by
  have hrun : cs.takeWhile (· = '\x60') = [] := by
    cases cs with
    | nil => rfl
    | cons c cs =>
      refine List.takeWhile_cons_of_neg ?_
      rw [decide_eq_true_eq]
      rintro rfl
      exact h (List.prefix_append ['\x60'] cs)
  rw [codeSpan?, hrun]
  rfl

lemma lineBreak?_eq_none_of_openings (hslash : ¬ ['\\', '\n'] <+: cs)
    (hblanks : ¬ [' ', ' '] <+: cs) : lineBreak? cs = none := by
  simp only [lineBreak?]
  split
  next rest => exact absurd (List.prefix_append ['\\', '\n'] rest) hslash
  next =>
    refine if_neg fun hfeed => hblanks ?_
    have hrun : cs.takeWhile (· = ' ') = List.replicate (cs.takeWhile (· = ' ')).length ' ' :=
      List.eq_replicate_of_mem fun c hc => by simpa using List.mem_takeWhile_imp hc
    have htwo : List.replicate 2 ' ' <+: cs.takeWhile (· = ' ') := by
      rw [hrun]
      exact List.prefix_replicate_iff.2 ⟨by simpa using hfeed.1, by simp⟩
    exact htwo.trans (List.takeWhile_prefix _)

lemma linkVia_eq_none {cur : Cursor} (h : label? cur.rest = none)
    (target : Label → Text → Option (Found Destination)) (nest : Option InlineReader)
    (scope : Scope) : linkVia target nest scope cur = .ok none := by
  rw [linkVia, h]

lemma framed_none (frame : Inline.Frame) (size : Nat) (nest : Option InlineReader) (scope : Scope)
    (cur : Cursor) : framed frame size none nest scope cur = .ok none := by
  cases nest <;> rfl

end Nothing

/-! ## The openings of a construct -/

namespace InlineConstruct

/-- The texts of which one stands at the start of the input wherever a construct is recognised.
Plain text begins with anything. -/
def openings : InlineConstruct → List Text
  | escape => ["\\".toList]
  | autoLink | tag => ["<".toList]
  | bareLink => bareSchemes
  | link | refLink | shortLink => ["![".toList, "[".toList]
  | strong => ["**".toList, "__".toList]
  | em => ["*".toList, "_".toList]
  | code => ["\x60".toList]
  | lineBreak => ["\\\n".toList, "  ".toList]
  | del => ["~~".toList]
  | text _ => [[]]
  | directive => ["[!".toList]
  | angledXref => ["<xref:".toList]
  | shortXref => ["@".toList]

variable {cur : Cursor} {c : InlineConstruct}

/-- **A construct shows at its start.** -/
theorem recognize_eq_none_of_openings (h : ∀ p ∈ c.openings, ¬ p <+: cur.rest)
    (defs : Definitions) (nest : Option InlineReader) (scope : Scope) :
    c.recognize defs nest scope cur = .ok none := by
  have hlink (hc : c.openings = link.openings) : label? cur.rest = none :=
    label?_eq_none (h _ (by rw [hc]; decide)) (h _ (by rw [hc]; decide))
  cases c with
  | escape => simp only [recognize, escape?_eq_none (h _ (by decide)), Option.map_none]
  | autoLink => simp only [recognize, autoLink?_eq_none (h _ (by decide)), Option.map_none]
  | bareLink => simp only [recognize, bareLink?_eq_none h, Option.map_none, ite_self]
  | tag => simp only [recognize, tag?, tagLength?_eq_none (h _ (by decide)), Option.map_none]
  | link => exact linkVia_eq_none (hlink rfl) _ nest scope
  | refLink => exact linkVia_eq_none (hlink rfl) _ nest scope
  | shortLink => exact linkVia_eq_none (hlink rfl) _ nest scope
  | strong =>
    rw [recognize, betweenPairs?_eq_none (h ['*', '*'] (by decide)),
      betweenPairs?_eq_none (h ['_', '_'] (by decide))]
    exact framed_none _ _ nest scope cur
  | em =>
    rw [recognize, betweenMarks?_eq_none (h _ (by decide)) (h _ (by decide))]
    exact framed_none _ _ nest scope cur
  | code => simp only [recognize, codeSpan?_eq_none (h _ (by decide)), Option.map_none]
  | lineBreak =>
    simp only [recognize, lineBreak?_eq_none_of_openings (h _ (by decide)) (h _ (by decide)),
      Option.map_none]
  | del =>
    rw [recognize, betweenPairs?_eq_none (h ['~', '~'] (by decide))]
    exact framed_none _ _ nest scope cur
  | text b => exact absurd List.nil_prefix (h [] (List.mem_singleton_self _))
  | directive =>
    simp only [recognize, inlineDirective?, directive?, afterKeyword?_eq_none (h _ (by decide)),
      Option.map_none]
  | angledXref => simp only [recognize, angledXref?_eq_none (h _ (by decide)), Option.map_none]
  | shortXref => simp only [recognize, shortXref?_eq_none (h _ (by decide)), Option.map_none]

/-- Where the first character of the input begins no opening of a construct, it is not
recognised. -/
lemma recognize_eq_none_of_head {first : Char} {rest : Text} (hcur : cur.rest = first :: rest)
    (h : ∀ p ∈ c.openings, p.head?.any (· ≠ first) = true) (defs : Definitions)
    (nest : Option InlineReader) (scope : Scope) : c.recognize defs nest scope cur = .ok none := by
  refine recognize_eq_none_of_openings (fun p hp hopening => ?_) defs nest scope
  have hhead := h p hp
  cases p with
  | nil => simp at hhead
  | cons d p =>
    rw [hcur] at hopening
    simp [(List.cons_prefix_cons.1 hopening).1] at hhead

end InlineConstruct

end Docmark
