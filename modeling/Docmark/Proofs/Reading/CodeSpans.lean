import Mathlib
import Docmark.Proofs.Reading.Openings

/-!
# Code spans quote any text

A code span ends at the first run of as many backticks as it was opened with; shorter and longer
runs are part of the code.  So a text is quoted by any number of backticks of which it holds no run,
with a blank on either side so that backticks at its ends stay apart from the marks.  Reading takes
off these two blanks and no others.

## Main results

* `throughTicks?_of_not_hasTicks` — the closing run is found behind all other runs.
* `codeSpan_quotes` — a text in backticks is read as one code span that holds the text.
-/

namespace Docmark

/-! ## Runs of backticks -/

/-- A run of backticks. -/
def ticks (n : Nat) : Text := List.replicate n '\x60'

/-- A run of exactly `n` backticks stands in a text: no further one on either side of it. -/
def HasTicks (n : Nat) (cs : Text) : Prop :=
  ∃ before after, cs = before ++ ticks n ++ after ∧
    before.getLast? ≠ some '\x60' ∧ after.head? ≠ some '\x60'

/-- A run is found by where it starts. -/
lemma hasTicks_iff {n : Nat} {cs : Text} :
    HasTicks n cs ↔ ∃ k < cs.length + 1, (cs.drop k).take n = ticks n ∧
      (cs.take k).getLast? ≠ some '\x60' ∧ ((cs.drop k).drop n).head? ≠ some '\x60' := by
  constructor
  · rintro ⟨before, after, rfl, hbefore, hafter⟩
    have hlength : (ticks n).length = n := List.length_replicate
    refine ⟨before.length, by simp only [List.length_append]; omega, ?_⟩
    rw [List.append_assoc, List.drop_left, List.take_left, List.take_left' hlength,
      List.drop_left' hlength]
    exact ⟨rfl, hbefore, hafter⟩
  · rintro ⟨k, -, hrun, hbefore, hafter⟩
    refine ⟨cs.take k, (cs.drop k).drop n, ?_, hbefore, hafter⟩
    rw [← hrun, List.append_assoc, List.take_append_drop, List.take_append_drop]

instance (n : Nat) (cs : Text) : Decidable (HasTicks n cs) := decidable_of_iff' _ hasTicks_iff

section Runs

variable {n seen : Nat} {c : Char} {cs : Text}

/-- Runs behind another character are runs of the whole text. -/
lemma HasTicks.behind (h : HasTicks n cs) (hc : c ≠ '\x60') (before : Text) :
    HasTicks n (before ++ c :: cs) := by
  obtain ⟨inner, after, rfl, hinner, hafter⟩ := h
  refine ⟨before ++ c :: inner, after, by simp, ?_, hafter⟩
  cases inner with
  | nil => simpa using hc
  | cons d inner => rwa [List.getLast?_append_cons, List.getLast?_cons_cons]

lemma hasTicks_ticks_cons (hc : c ≠ '\x60') : HasTicks n (ticks n ++ c :: cs) :=
  ⟨[], c :: cs, by simp, by simp, by simpa using hc⟩

/-! ## The closing run -/

lemma throughTicks?_ticks (k : Nat) (h : seen + k = n) :
    throughTicks? n seen (ticks k) = some k := by
  induction k generalizing seen with
  | zero => exact if_pos h
  | succ k ih =>
    rw [ticks, List.replicate_succ, throughTicks?, if_pos rfl, ← ticks, ih (by omega)]
    rfl

/-- **The closing run is found**: no run that ends before it has its length, so all are passed
over. -/
lemma throughTicks?_of_not_hasTicks (hn : 0 < n) (h : ¬ HasTicks n (ticks seen ++ cs)) :
    throughTicks? n seen (cs ++ ' ' :: ticks n) = some (cs.length + (n + 1)) := by
  induction cs generalizing seen with
  | nil =>
    have hseen : seen ≠ n := by
      rintro rfl
      exact h ⟨[], [], by simp, by simp, by simp⟩
    rw [List.nil_append, throughTicks?, if_neg (by decide), if_neg hseen,
      throughTicks?_ticks n (Nat.zero_add n)]
    simp
  | cons c cs ih =>
    rw [List.cons_append, throughTicks?]
    by_cases hc : c = '\x60'
    · subst hc
      have hlonger : ticks (seen + 1) ++ cs = ticks seen ++ '\x60' :: cs := by
        simp [ticks, List.replicate_succ']
      rw [if_pos rfl, ih (hlonger ▸ h), Option.map_some, List.length_cons]
      congr 1
      omega
    · have hseen : seen ≠ n := by
        rintro rfl
        exact h (hasTicks_ticks_cons hc)
      rw [if_neg hc, if_neg hseen, ih fun hrun => h (hrun.behind hc _), Option.map_some,
        List.length_cons]
      congr 1
      omega

end Runs

/-! ## Quoted code -/

/-- A text between blanks and backticks. -/
def quotedCode (n : Nat) (cs : Text) : Text := ticks n ++ (' ' :: cs ++ ' ' :: ticks n)

/-- Code on one line: every line feed is a blank. -/
def onOneLine (cs : Text) : Text := cs.map fun c => if c = '\n' then ' ' else c

section Quoted

variable {n : Nat} {cs : Text}

lemma isBlank_onOneLine (cs : Text) : isBlank (onOneLine cs) = isBlank cs := by
  rw [isBlank, onOneLine, List.all_map]
  refine congrArg cs.all (funext fun c => ?_)
  by_cases hc : c = '\n'
  · simp [hc, isSpace]
  · simp [hc]

/-- Of the blanks around the code only the two that were written are taken off. -/
lemma codeText_padded (h : isBlank cs = false) : codeText (' ' :: cs ++ [' ']) = onOneLine cs := by
  have hcode : (' ' :: cs ++ [' ']).map (fun c => if c = '\n' then ' ' else c) =
      ' ' :: (onOneLine cs ++ [' ']) := by simp [onOneLine]
  have hblank : ¬ isBlank (onOneLine cs) = true := by simp [isBlank_onOneLine, h]
  simp only [codeText, hcode]
  rw [List.getLast?_concat, List.dropLast_concat, if_pos ⟨rfl, hblank⟩]

/-- Quoted code is a code span to its end. -/
lemma codeSpan?_quotedCode (hn : 0 < n) (hblank : isBlank cs = false) (h : ¬ HasTicks n cs) :
    codeSpan? (quotedCode n cs) = some ⟨(quotedCode n cs).length, .codeSpan (onOneLine cs)⟩ := by
  have hlength : (ticks n).length = n := List.length_replicate
  have hopening : (quotedCode n cs).takeWhile (· = '\x60') = ticks n := by
    have hmarks : ∀ c ∈ ticks n, decide (c = '\x60') = true := fun c hc =>
      decide_eq_true (List.eq_of_mem_replicate hc)
    rw [quotedCode, List.takeWhile_append_of_pos hmarks, List.cons_append,
      List.takeWhile_cons_of_neg (by decide), List.append_nil]
  have hrest : (quotedCode n cs).drop n = ' ' :: cs ++ ' ' :: ticks n := List.drop_left' hlength
  have hclosing : throughTicks? n 0 (' ' :: cs ++ ' ' :: ticks n) = some (cs.length + n + 2) := by
    have hinner : throughTicks? n 0 (cs ++ ' ' :: ticks n) = some (cs.length + (n + 1)) :=
      throughTicks?_of_not_hasTicks hn h
    rw [List.cons_append, throughTicks?, if_neg (by decide), if_neg hn.ne, hinner]
    rfl
  have hcontent : (' ' :: cs ++ ' ' :: ticks n).take (cs.length + n + 2 - n) =
      ' ' :: cs ++ [' '] := by
    have hsplit : ' ' :: cs ++ ' ' :: ticks n = (' ' :: cs ++ [' ']) ++ ticks n := by simp
    refine hsplit ▸ List.take_left' ?_
    simp only [List.length_append, List.length_cons, List.length_nil]
    omega
  have hall : n + (cs.length + n + 2) = (quotedCode n cs).length := by
    simp only [quotedCode, List.length_append, List.length_cons, hlength]
    omega
  rw [codeSpan?, hopening, hlength, if_neg hn.ne', hrest, hclosing, Option.map_some, hcontent,
    codeText_padded hblank, hall]

end Quoted

/-- Every dialect tries code behind constructs that do not begin with a backtick. -/
lemma Flavor.rules_code (f : Flavor) : ∃ before after : List InlineConstruct,
    f.rules.inline = (before ++ .code :: after).map .standard ∧
      ∀ c ∈ before, ∀ p ∈ c.openings, p.head?.any (· ≠ '\x60') = true := by
  cases f with
  | markdown =>
    exact ⟨[.escape, .autoLink, .tag, .link, .refLink, .shortLink, .strong, .em], _, rfl, by decide⟩
  | gfm =>
    exact ⟨[.escape, .autoLink, .bareLink, .tag, .link, .refLink, .shortLink, .strong, .em], _, rfl,
      by decide⟩
  | dfm =>
    exact ⟨[.escape, .directive, .angledXref, .autoLink, .bareLink, .tag, .link, .refLink,
      .shortLink, .strong, .em], _, rfl, by decide⟩

/-- **Code spans quote any text.**  In each dialect, wherever inlines are read, a text that is not
blank is quoted by any number of backticks of which it holds no run: between two such runs, with a
blank on either side, it is read as one code span over the whole, whose code is the text with blanks
for line feeds. -/
theorem codeSpan_quotes (f : Flavor) (defs : Definitions) (scope : Scope) (origin : Point) {n : Nat}
    {cs : Text} (hn : 1 ≤ n) (hblank : isBlank cs = false) (hticks : ¬ HasTicks n cs) :
    readInlines f.rules defs scope (quotedCode n cs) origin =
      .ok [.leaf ⟨InlineConstruct.code.name, ⟨origin, origin.advance (quotedCode n cs)⟩⟩
        (.codeSpan (cs.map fun c => if c = '\n' then ' ' else c))] := by
  obtain ⟨before, after, hrules, hbefore⟩ := f.rules_code
  obtain ⟨rest, hrest⟩ : ∃ rest, quotedCode n cs = '\x60' :: rest := by
    obtain ⟨k, rfl⟩ := Nat.exists_eq_add_of_le' hn
    exact ⟨_, rfl⟩
  have hne : quotedCode n cs ≠ [] := by simp [hrest]
  have hcode (nest : Option InlineReader) (scope : Scope) :
      InlineConstruct.code.recognize defs nest scope (Cursor.ofText (quotedCode n cs) origin) =
        .ok (some ⟨(quotedCode n cs).length, .leaf (.codeSpan (onOneLine cs))⟩) := by
    simp only [InlineConstruct.recognize, Cursor.ofText, codeSpan?_quotedCode hn hblank hticks]
    rfl
  have hread := readInlines_single hrules scope hne (fun d hd =>
    InlineConstruct.recognize_eq_none_of_head hrest (hbefore d hd) defs) hcode
  exact hread

/-- Code that starts and ends with backticks and has a line feed, in the last level that may be
opened. -/
theorem codeSpan_quotes_ticks :
    1 ≤ 2 ∧ isBlank "\x60a \x60\x60\x60\n\x60".toList = false ∧
    ¬ HasTicks 2 "\x60a \x60\x60\x60\n\x60".toList ∧
    readInlines Flavor.dfm.rules [] ⟨.inline, 100, []⟩
        "\x60\x60 \x60a \x60\x60\x60\n\x60 \x60\x60".toList Point.start =
      .ok [.leaf ⟨"code", ⟨Point.start, ⟨2, 5, 14⟩⟩⟩
        (.codeSpan "\x60a \x60\x60\x60 \x60".toList)] := by
  have hticks : ¬ HasTicks 2 "\x60a \x60\x60\x60\n\x60".toList := by decide
  exact ⟨by decide, by decide, hticks,
    codeSpan_quotes .dfm [] ⟨.inline, 100, []⟩ Point.start (by decide) (by decide) hticks⟩

end Docmark
