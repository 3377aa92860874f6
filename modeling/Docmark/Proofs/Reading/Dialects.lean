import Mathlib
import Docmark.Proofs.Reading.Agreement

/-!
# What the dialects have in common

Each dialect adds constructs to the one before it, and each of these constructs starts with a mark
of its own, or has one on its first line.  On a text without the marks the added rules decline
wherever they are tried.  Where a rule is exchanged for another one, both decline or both take the
same: a heading of either style needs a hash, and plain text that would end in front of bare
addresses ends at the same places as plain text that would not.  So the rule sets agree.

## Main results

* `dialects_extend` — the dialects give the same tree for a text without the marks in which they
  differ.
-/

namespace Docmark

/-! ## Constructs that need their pattern -/

section Decline

variable {scope : Scope} {cur : Cursor}

/-! ### Square brackets and cross references -/

/-- A character that is no letter is the lower-case form of itself only. -/
lemma eq_of_toLower_eq {c d : Char} (hd : d.isAlpha = false) (h : c.toLower = d) : c = d := by
  have hc : c.isAlpha = false := by rw [← Char.isAlpha_toLower_eq_isAlpha, h, hd]
  have hupper : ¬ c.isUpper := fun hupper => by simp [Char.isAlpha, hupper] at hc
  rw [← Char.toLower_eq_of_not_isUpper hupper, h]

lemma afterKeyword?_eq_none {keyword : String} {cs : Text} (h : ¬ "[!".toList <+: cs) :
    afterKeyword? keyword cs = none := by
  have hopening : "[!".toList ++ keyword.toList = '[' :: '!' :: keyword.toList := rfl
  rw [afterKeyword?, hopening, if_neg]
  intro hlower
  obtain _ | ⟨a, _ | ⟨b, cs⟩⟩ := cs
  · cases hlower
  · simp [lowerAscii] at hlower
  · obtain ⟨ha, hb, -⟩ : a.toLower = '[' ∧ b.toLower = '!' ∧ _ := by
      simpa only [lowerAscii, List.length_cons, List.take_succ_cons, List.map_cons,
        List.cons.injEq] using hlower
    rw [eq_of_toLower_eq (by decide) ha, eq_of_toLower_eq (by decide) hb] at h
    exact h (List.prefix_append ['[', '!'] cs)

lemma angledXref?_eq_none {cs : Text} (h : ¬ "<xref:".toList <+: cs) : angledXref? cs = none := by
  rw [angledXref?, if_neg fun hopening => h (List.isPrefixOf_iff_prefix.1 hopening)]

lemma shortXref?_eq_none {cs : Text} (h : ¬ "@".toList <+: cs) : shortXref? cs = none := by
  simp only [shortXref?]
  split
  next rest => exact absurd (List.prefix_append ['@'] rest) h
  next => rfl

/-! ### Hashes, bars, tildes and addresses -/

lemma headingLine?_eq_none {style : HeadingStyle} {line : Text} (h : '#' ∉ line) :
    headingLine? style line = none := by
  have hrun : (line.dropWhile (· = ' ')).takeWhile (· = '#') = [] := by
    refine List.eq_nil_iff_forall_not_mem.2 fun c hc => ?_
    have hmark : c = '#' := by simpa using List.mem_takeWhile_imp hc
    rw [hmark] at hc
    exact h ((List.dropWhile_suffix _).subset ((List.takeWhile_prefix _).subset hc))
  cases style with
  | relaxed => simp [headingLine?, relaxedHeading?, hrun]
  | strict => simp [headingLine?, strictHeading?, hrun]

lemma heading?_eq_none {style : HeadingStyle} {level : Option Nat} (h : '#' ∉ cur.rest) :
    heading? style level scope cur = none := by
  have hline : '#' ∉ restOfLine cur.rest := fun hhash =>
    h ((restOfLine_initial _).isInfix.subset hhash)
  rw [heading?, headingLine?_eq_none hline]

lemma table?_eq_none (h : '|' ∉ cur.rest) : table? scope cur = none := by
  simp only [table?]
  split
  next header dashed rest hlines =>
    have hheader : '|' ∉ header := fun hbar => h <| by
      rw [← lines_flatten cur.rest, hlines]
      exact List.mem_append_left _ hbar
    rw [if_pos (Or.inl hheader)]
  next => rfl

lemma betweenPairs?_eq_none {mark : Char} {cs : Text} (h : ¬ [mark, mark] <+: cs) :
    betweenPairs? mark cs = none := by
  simp only [betweenPairs?]
  split
  next a b content =>
    refine if_neg ?_
    rintro ⟨rfl, rfl, -⟩
    exact h (List.prefix_append [_, _] content)
  next => rfl

lemma bareScheme?_eq_none {cs : Text} (h : ∀ p ∈ bareSchemes, ¬ p <+: cs) :
    bareSchemes.find? (·.isPrefixOf cs) = none :=
  List.find?_eq_none.2 fun p hp hcs => h p hp (List.isPrefixOf_iff_prefix.1 hcs)

lemma bareLink?_eq_none {cs : Text} (h : ∀ p ∈ bareSchemes, ¬ p <+: cs) : bareLink? cs = none := by
  rw [bareLink?, bareScheme?_eq_none h]

/-- Where no bare address begins, plain text stops alike in both ways of reading it. -/
lemma stopsText_congr {cs : Text} (h : ∀ p ∈ bareSchemes, ¬ p <+: cs) (previous : Char) :
    stopsText true previous cs = stopsText false previous cs := by
  have hnone : bareSchemes.any (·.isPrefixOf cs) = false := by
    rw [List.any_eq_false]
    exact fun p hp hcs => h p hp (List.isPrefixOf_iff_prefix.1 hcs)
  cases cs with
  | nil => rfl
  | cons c cs => simp [stopsText, hnone]

lemma plainLength_congr {cs : Text} (h : ∀ p ∈ bareSchemes, ¬ p <:+: cs) (previous : Char) :
    plainLength true previous cs = plainLength false previous cs := by
  induction cs generalizing previous with
  | nil => rfl
  | cons c cs ih =>
    have hstop := stopsText_congr (fun p hp hcs => h p hp hcs.isInfix) previous
    have hbelow := ih (fun p hp hcs => h p hp (hcs.trans (List.suffix_cons c cs).isInfix)) c
    rw [plainLength, plainLength, hstop, hbelow]

/-- Without bare addresses it makes no difference to plain text whether it would end there. -/
lemma plainText?_congr {cs : Text} (h : ∀ p ∈ bareSchemes, ¬ p <:+: cs) :
    plainText? true cs = plainText? false cs := by
  cases cs with
  | nil => rfl
  | cons c cs =>
    have hlength := plainLength_congr
      (fun p hp hcs => h p hp (hcs.trans (List.suffix_cons c cs).isInfix)) c
    rw [plainText?, plainText?, hlength]

end Decline

/-! ## The dialects -/

/-- The patterns of which one begins wherever the third dialect reads what the second does not. -/
def dfmMarks : List String := ["[!", "@", "<xref:"]

/-- The patterns of which one stands wherever the second dialect reads what the first does not. -/
def gfmMarks : List String := ["#", "|", "~~", "http://", "https://", "www."]

lemma dfmMarks_solid : ∀ p ∈ dfmMarks, IsSolid p.toList := by
  simp [dfmMarks, IsSolid, isSpace]

lemma gfmMarks_solid : ∀ p ∈ gfmMarks, IsSolid p.toList := by
  simp [gfmMarks, IsSolid, isSpace]

section Without

variable {scope : Scope} {cur : Cursor}

/-- The block constructs that start with an opening bracket and an exclamation mark. -/
def BlockConstruct.isBracketed : BlockConstruct → Bool
  | directive | note | division | video => true
  | _ => false

lemma BlockConstruct.recognize_bracketed {nest : Option BlockReader}
    (h : ¬ "[!".toList <+: cur.rest) {c : BlockConstruct} (hc : c.isBracketed = true) :
    c.recognize nest scope cur = .ok none := by
  have hkeyword (keyword : String) : afterKeyword? keyword cur.rest = none :=
    afterKeyword?_eq_none h
  cases c with
  | directive => simp [recognize, blockDirective?, directive?, hkeyword]
  | note => simp [recognize, note?, hkeyword]
  | division => simp [recognize, division?, hkeyword]
  | video => simp [recognize, video?, hkeyword]
  | _ => cases hc

lemma InlineConstruct.recognize_dfm (h : Avoids dfmMarks cur.rest) {defs : Definitions}
    {nest : Option InlineReader} {c : InlineConstruct}
    (hc : c ∈ [.directive, .angledXref, .shortXref]) :
    c.recognize defs nest scope cur = .ok none := by
  have hkeyword : afterKeyword? "include" cur.rest = none :=
    afterKeyword?_eq_none (h.not_initial (p := "[!") (by decide))
  have hangled := angledXref?_eq_none (h.not_initial (p := "<xref:") (by decide))
  have hshort := shortXref?_eq_none (h.not_initial (p := "@") (by decide))
  simp only [List.mem_cons, List.not_mem_nil, or_false] at hc
  rcases hc with rfl | rfl | rfl
  · simp [recognize, inlineDirective?, directive?, hkeyword]
  · simp [recognize, hangled]
  · simp [recognize, hshort]

/-- No bare address begins anywhere in a text without the marks of the second dialect. -/
lemma Avoids.no_bareScheme {text : Text} (h : Avoids gfmMarks text) :
    ∀ p ∈ bareSchemes, ¬ p <:+: text := by
  intro p hp
  simp only [bareSchemes, List.mem_cons, List.not_mem_nil, or_false] at hp
  rcases hp with rfl | rfl | rfl
  · exact h "http://" (by decide)
  · exact h "https://" (by decide)
  · exact h "www." (by decide)

end Without

/-- Without the marks of the third dialect its rules choose as those of the second. -/
lemma dfmRules_agreeOn : dfmRules.AgreeOn dfmMarks gfmRules where
  block {nest nest'} hnest scope cur hcur := by
    have same := BlockRule.attempt_congr hcur scope dfmMarks_solid hnest
    have added (cs : List BlockConstruct) (hcs : ∀ c ∈ cs, c.isBracketed = true) :
        ∀ r ∈ cs.map BlockRule.standard, Declines (BlockRule.attempt nest scope cur) r := by
      rw [List.forall_mem_map]
      exact fun c hc => declines_of_block
        (c.recognize_bracketed (hcur.not_initial (p := "[!") (by decide)) (hcs c hc))
    refine ChooseAlike.firstMatch_eq ?_
    exact .prepend (same [.newline, .indentedCode, .fences]) <|
      .skip (added [.directive] (by decide)) <|
      .prepend (same [.heading "heading" .strict none, .underlinedHeading, .thematicBreak]) <|
      .skip (added [.note, .division, .video] (by decide)) <|
      .prepend (same [.blockquote, .list, .html, .definition, .table, .paragraph, .text]) .nil
  inline defs nest nest' hnest scope cur hcur := by
    have same := InlineRule.attempt_congr hcur defs scope hnest
    have added (cs : List InlineConstruct)
        (hcs : cs ⊆ [.directive, .angledXref, .shortXref]) :
        ∀ r ∈ cs.map InlineRule.standard, Declines (InlineRule.attempt defs nest scope cur) r := by
      rw [List.forall_mem_map]
      exact fun c hc => declines_of_inline (c.recognize_dfm hcur (hcs hc))
    refine ChooseAlike.firstMatch_eq ?_
    exact .prepend (same [.escape]) <|
      .skip (added [.directive, .angledXref] (by decide)) <|
      .prepend (same [.autoLink, .bareLink, .tag, .link, .refLink, .shortLink, .strong, .em, .code,
        .lineBreak, .del]) <|
      .skip (added [.shortXref] (by decide)) <|
      .prepend (same [.text true]) .nil

/-- Without the marks of the second dialect its rules choose as those of the first. -/
lemma gfmRules_agreeOn : gfmRules.AgreeOn gfmMarks markdownRules where
  block {nest nest'} hnest scope cur hcur := by
    have same := BlockRule.attempt_congr hcur scope gfmMarks_solid hnest
    have hhash : '#' ∉ cur.rest := hcur.not_mem (p := "#") (by decide) rfl
    have hbar : '|' ∉ cur.rest := hcur.not_mem (p := "|") (by decide) rfl
    -- the rule for headings is another one, under the same name, and neither finds any
    have hheading : BlockRule.attempt nest scope cur (.standard (.heading "heading" .strict none)) =
        BlockRule.attempt nest' scope cur (.standard (.heading "heading" .relaxed none)) := by
      simp only [BlockRule.attempt, BlockConstruct.recognize, heading?_eq_none hhash,
        Option.map_none]
    have htable : Declines (BlockRule.attempt nest scope cur) (.standard .table) :=
      declines_of_block <| by
        simp only [BlockConstruct.recognize, table?_eq_none hbar, Option.map_none]
    refine ChooseAlike.firstMatch_eq ?_
    exact .prepend (same [.newline, .indentedCode, .fences]) <|
      .both rfl hheading <|
      .prepend (same [.underlinedHeading, .thematicBreak, .blockquote, .list, .html,
        .definition]) <|
      .left htable <|
      .prepend (same [.paragraph, .text]) .nil
  inline defs nest nest' hnest scope cur hcur := by
    have same := InlineRule.attempt_congr hcur defs scope hnest
    have hbare : Declines (InlineRule.attempt defs nest scope cur) (.standard .bareLink) := by
      -- inside a link it is not looked for, and elsewhere there is none
      have hnone := bareLink?_eq_none fun p hp hcs => hcur.no_bareScheme p hp hcs.isInfix
      refine declines_of_inline ?_
      simp only [InlineConstruct.recognize, hnone, Option.map_none, ite_self]
    have hdel : Declines (InlineRule.attempt defs nest scope cur) (.standard .del) := by
      have hnone : betweenPairs? '~' cur.rest = none :=
        betweenPairs?_eq_none (hcur.not_initial (p := "~~") (by decide))
      refine declines_of_inline ?_
      simp only [InlineConstruct.recognize, hnone, framed]
    have htext : InlineRule.attempt defs nest scope cur (.standard (.text true)) =
        InlineRule.attempt defs nest' scope cur (.standard (.text false)) := by
      simp only [InlineRule.attempt, InlineConstruct.recognize,
        plainText?_congr hcur.no_bareScheme, InlineConstruct.name]
    refine ChooseAlike.firstMatch_eq ?_
    exact .prepend (same [.escape, .autoLink]) <|
      .left hbare <|
      .prepend (same [.tag, .link, .refLink, .shortLink, .strong, .em, .code, .lineBreak]) <|
      .left hdel <|
      .both rfl htext .nil

/-- **The dialects extend each other.**  On a text without the marks of the third dialect it comes
to the tree and the definitions that the second comes to, and on a text without the marks of the
second so does the first. -/
theorem dialects_extend (defs : Definitions) (scope : Scope) (text : Text) :
    ∃ root defs', readWith Flavor.gfm.rules defs scope text = (.ok root, defs') ∧
      (Avoids dfmMarks text → readWith Flavor.dfm.rules defs scope text = (.ok root, defs')) ∧
      (Avoids gfmMarks text →
        readWith Flavor.markdown.rules defs scope text = (.ok root, defs')) := by
  obtain ⟨root, hroot⟩ := exists_readWith (Flavor.rules_isStandard .gfm) (Flavor.rules_hasText .gfm)
    defs scope text
  have hgfm : readWith Flavor.gfm.rules defs scope text =
      (.ok root, (readWith Flavor.gfm.rules defs scope text).2) := Prod.ext hroot rfl
  refine ⟨root, _, hgfm, fun htext => ?_, fun htext => ?_⟩
  · rw [← hgfm]
    exact dfmRules_agreeOn.readWith_eq dfmMarks_solid (Flavor.rules_isStandard .dfm) defs scope
      htext
  · rw [← hgfm]
    exact (gfmRules_agreeOn.readWith_eq gfmMarks_solid (Flavor.rules_isStandard .gfm) defs scope
      htext).symm

/-- A quoted item with emphasis and a tag, in all three dialects. -/
theorem dialects_extend_item :
    Avoids dfmMarks "> - *a* <b>\n".toList ∧ Avoids gfmMarks "> - *a* <b>\n".toList ∧
    ∃ root defs', readWith Flavor.gfm.rules [] Scope.document "> - *a* <b>\n".toList =
        (.ok root, defs') ∧
      readWith Flavor.dfm.rules [] Scope.document "> - *a* <b>\n".toList = (.ok root, defs') ∧
      readWith Flavor.markdown.rules [] Scope.document "> - *a* <b>\n".toList =
        (.ok root, defs') := by
  have hthird : Avoids dfmMarks "> - *a* <b>\n".toList := by decide
  have hsecond : Avoids gfmMarks "> - *a* <b>\n".toList := by decide
  obtain ⟨root, defs', hgfm, hdfm, hmarkdown⟩ :=
    dialects_extend [] Scope.document "> - *a* <b>\n".toList
  exact ⟨hthird, hsecond, root, defs', hgfm, hdfm hthird, hmarkdown hsecond⟩

end Docmark
