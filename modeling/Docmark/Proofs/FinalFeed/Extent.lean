import Mathlib
import Docmark.Proofs.Extent.Pending
import Docmark.Proofs.FinalFeed.Line

/-!
# Constructs at the end of a text

A line feed at the end of a text reaches a construct at its start only if the construct covers the
whole text, and then the construct takes the line feed as well.  `Found.Fed` says so of one
recogniser.  For the constructs that take whole lines it comes from `Chosen`: what a test on lines
chooses from the lines of a text is chosen again when the last line gets a line feed, with this line
feed if the last line is among it.
-/

namespace Docmark

/-! ## What becomes of a construct -/

/-- A construct of `n` characters at the start of a text stays what it is when a line feed is added
to the text: the line feed does not follow directly, or it stands on a line of its own. -/
def Stays (cs : Text) (n : Nat) : Prop := n < cs.length ∨ n = cs.length ∧ cs.getLast? = some '\n'

lemma Stays.prepend {cs : Text} {n : Nat} (before : Text) (h : Stays cs n) :
    Stays (before ++ cs) (before.length + n) := by
  rw [Stays, List.length_append]
  obtain hlt | ⟨rfl, hlast⟩ := h
  · exact .inl (by omega)
  · exact .inr ⟨rfl, by rw [List.getLast?_append, hlast, Option.some_or]⟩

/-- A whole line with its line feed stays what it is. -/
lemma stays_line (l after : Text) : Stays (l ++ ['\n'] ++ after) (l ++ ['\n']).length := by
  cases after with
  | nil => exact .inr ⟨by simp, by simp⟩
  | cons c after =>
    left
    simp only [List.length_append, List.length_cons]
    omega

/-- Two numbers of characters that a construct covers, of a text and of the text with one more line
feed: it stays what it is, or takes everything. -/
def FedLength (cs : Text) (n n' : Nat) : Prop :=
  n' = n ∧ Stays cs n ∨ n = cs.length ∧ n' = cs.length + 1

/-- What a recogniser yields for a text and for the text with one more line feed: nothing, the same
construct, or two related constructs that both take everything. -/
inductive Found.Fed {α : Type} (R : α → α → Prop) (cs : Text) :
    Option (Found α) → Option (Found α) → Prop
  | none : Fed R cs none none
  | inside {n : Nat} {v : α} (h : n < cs.length) : Fed R cs (some ⟨n, v⟩) (some ⟨n, v⟩)
  /-- The construct covers the text, but the line feed stands on a line of its own. -/
  | apart {v : α} (h : cs.getLast? = some '\n') (hv : R v v) :
      Fed R cs (some ⟨cs.length, v⟩) (some ⟨cs.length, v⟩)
  | grows {v v' : α} (h : R v v') : Fed R cs (some ⟨cs.length, v⟩) (some ⟨cs.length + 1, v'⟩)

namespace Found.Fed

variable {α β : Type} {R : α → α → Prop} {cs : Text} {v : α}

lemma of_stays {n : Nat} (h : Stays cs n) (hv : n = cs.length → cs.getLast? = some '\n' → R v v) :
    Fed R cs (some ⟨n, v⟩) (some ⟨n, v⟩) := by
  obtain hlt | ⟨rfl, hlast⟩ := h
  · exact .inside hlt
  · exact .apart hlast (hv rfl hlast)

lemma map {S : β → β → Prop} {f : α → β} {m m' : Option (Found α)}
    (hf : ∀ v v', R v v' → S (f v) (f v')) (h : Fed R cs m m') :
    Fed S cs (m.map (·.map f)) (m'.map (·.map f)) := by
  cases h with
  | none => exact .none
  | inside h => exact .inside h
  | apart h hv => exact .apart h (hf _ _ hv)
  | grows h => exact .grows (hf _ _ h)

/-- A construct with the line feeds behind it takes one more if only line feeds are behind it. -/
lemma leadingNewlines {before after : Text} (h : cs = before ++ after) (hv : R v v) :
    Fed R cs (some ⟨before.length + leadingNewlines after, v⟩)
      (some ⟨before.length + leadingNewlines (after ++ ['\n']), v⟩) := by
  have hlength : cs.length = before.length + after.length := by rw [h, List.length_append]
  obtain ⟨hall, hfeed⟩ | ⟨hlt, hfeed⟩ := leadingNewlines_feed after
  · rw [hall, hfeed, ← Nat.add_assoc, ← hlength]
    exact .grows hv
  · rw [hfeed]
    exact .inside (by omega)

/-- A construct that fills its line takes the line feeds behind it. -/
lemma lineFeedsAfter (hv : R v v) :
    Fed R cs (some ⟨(restOfLine cs).length + lineFeedsAfter cs, v⟩)
      (some ⟨(restOfLine cs).length + lineFeedsAfter (cs ++ ['\n']), v⟩) := by
  rw [Docmark.lineFeedsAfter, Docmark.lineFeedsAfter, afterLine_feed]
  exact leadingNewlines (restOfLine_append_afterLine cs).symm hv

end Found.Fed

/-! ## Lines that are chosen -/

/-- The lines of a text, and those of the text with one more line feed: the last line gets it, or it
stands on a line of its own. -/
inductive FedLines : List Text → List Text → Prop
  | own : FedLines [] [['\n']]
  | last {l : Text} : l ≠ [] → '\n' ∉ l → FedLines [l] [l ++ ['\n']]
  | cons {l : Text} {ls ls' : List Text} : '\n' ∉ l → FedLines ls ls' →
      FedLines ((l ++ ['\n']) :: ls) ((l ++ ['\n']) :: ls')

lemma fedLines_lines (cs : Text) : FedLines (lines cs) (lines (cs ++ ['\n'])) := by
  have hfed {ls : List Text} (h : AreLines ls) : FedLines ls (lines (ls.flatten ++ ['\n'])) := by
    induction h with
    | nil => exact .own
    | @last l hne hl =>
      rw [List.flatten_singleton, lines_of_line hl []]
      exact .last hne hl
    | @cons l ls hl _ ih =>
      rw [List.flatten_cons, List.append_assoc, List.append_assoc, List.singleton_append,
        lines_of_line hl]
      exact .cons hl ih
  simpa only [lines_flatten] using hfed (lines_areLines cs)

/-- What is chosen from the first lines of a text, and from those of the text with one more line
feed: the same lines, or all of them. -/
inductive Chosen : List Text → List Text → List Text → List Text → Prop
  | own : Chosen [] [['\n']] [] []
  | last {l : Text} : l ≠ [] → '\n' ∉ l → Chosen [l] [l ++ ['\n']] [l] [l ++ ['\n']]
  | stop {ls ls' : List Text} : ls.flatten ≠ [] → FedLines ls ls' → Chosen ls ls' [] []
  | cons {l : Text} {ls ls' s s' : List Text} : '\n' ∉ l → Chosen ls ls' s s' →
      Chosen ((l ++ ['\n']) :: ls) ((l ++ ['\n']) :: ls') ((l ++ ['\n']) :: s) ((l ++ ['\n']) :: s')

/-- Some lines, and the same lines with a line feed at the end of the last one. -/
inductive FeedsLast : List Text → List Text → Prop
  | last {l : Text} : l ≠ [] → '\n' ∉ l → FeedsLast [l] [l ++ ['\n']]
  | cons {l : Text} {ls ls' : List Text} : '\n' ∉ l → FeedsLast ls ls' →
      FeedsLast ((l ++ ['\n']) :: ls) ((l ++ ['\n']) :: ls')

namespace FeedsLast

variable {ls ls' : List Text}

lemma flatten (h : FeedsLast ls ls') : ls'.flatten = ls.flatten ++ ['\n'] := by
  induction h with
  | last => simp
  | cons _ _ ih => simp [ih]

/-- The line that gets the line feed has none. -/
lemma getLast?_flatten (h : FeedsLast ls ls') : ls.flatten.getLast? ≠ some '\n' := by
  induction h with
  | @last l _ hl =>
    intro hlast
    exact hl (List.mem_of_getLast? (by simpa using hlast))
  | @cons l ls ls' _ h ih =>
    have hne : ls.flatten ≠ [] := by
      cases h with
      | last hne => simpa using hne
      | cons => simp
    rwa [List.flatten_cons, List.getLast?_append_of_ne_nil _ hne]

/-- What each line adds to a text, with the line feed at its end, the last line adds with its own
line feed. -/
lemma flatMap {f : Text → Text} (h : FeedsLast ls ls')
    (hf : ∀ l ∈ ls, f (l ++ ['\n']) = f l ++ ['\n']) : ls'.flatMap f = ls.flatMap f ++ ['\n'] := by
  induction h with
  | last => simp [hf _ List.mem_cons_self]
  | cons _ _ ih =>
    rw [List.flatMap_cons, List.flatMap_cons, ih fun l hl => hf l (List.mem_cons_of_mem _ hl),
      List.append_assoc]

/-- What is read off lines without regard to a line feed at their end is the same. -/
lemma map {α : Type} {f : Text → α} (h : FeedsLast ls ls') (hf : ∀ l, f (l ++ ['\n']) = f l) :
    ls'.map f = ls.map f := by
  induction h with
  | last => simp [hf]
  | cons _ _ ih => rw [List.map_cons, List.map_cons, ih]

lemma all {p : Text → Bool} (h : FeedsLast ls ls') (hp : ∀ l, p (l ++ ['\n']) = p l) :
    ls'.all p = ls.all p := by
  induction h with
  | last => simp [hp]
  | cons _ _ ih => rw [List.all_cons, List.all_cons, ih]

/-- What each line adds to a text, with or without the line feed at its end. -/
lemma flatMap_cases {f : Text → Text} (h : FeedsLast ls ls')
    (hf : ∀ l, f (l ++ ['\n']) = f l ∨ f (l ++ ['\n']) = f l ++ ['\n']) :
    ls'.flatMap f = ls.flatMap f ∨ ls'.flatMap f = ls.flatMap f ++ ['\n'] := by
  induction h with
  | @last l => simpa using hf l
  | cons _ _ ih =>
    simp only [List.flatMap_cons, List.append_assoc]
    exact ih.imp (congrArg _) (congrArg _)

end FeedsLast

namespace Chosen

/-- Lines are chosen again as they are, or all of them with the line feed. -/
lemma kept_or_fed {ls ls' s s' : List Text} (h : Chosen ls ls' s s') :
    s' = s ∧ (s.flatten.length < ls.flatten.length ∨
      s = ls ∧ (ls = [] ∨ ls.flatten.getLast? = some '\n')) ∨
    s = ls ∧ FeedsLast s s' := by
  induction h with
  | own => exact .inl ⟨rfl, .inr ⟨rfl, .inl rfl⟩⟩
  | last hne hl => exact .inr ⟨rfl, .last hne hl⟩
  | stop hne => exact .inl ⟨rfl, .inl (List.length_pos_iff.2 hne)⟩
  | @cons l ls ls' s s' hl _ ih =>
    obtain ⟨rfl, hlt | ⟨rfl, hend⟩⟩ | ⟨rfl, hfeeds⟩ := ih
    · refine .inl ⟨rfl, .inl ?_⟩
      simp only [List.flatten_cons, List.length_append]
      omega
    · refine .inl ⟨rfl, .inr ⟨rfl, .inr ?_⟩⟩
      obtain rfl | hend := hend
      · simp
      · rw [List.flatten_cons, List.getLast?_append, hend, Option.some_or]
    · exact .inr ⟨rfl, .cons hl hfeeds⟩

/-- The lines that are chosen from a text cover the same of it, or everything and then the line feed
as well. -/
theorem cases_lines {cs : Text} {s s' : List Text} (hcs : cs ≠ [])
    (h : Chosen (lines cs) (lines (cs ++ ['\n'])) s s') :
    s' = s ∧ Stays cs s.flatten.length ∨
      s.flatten = cs ∧ s'.flatten = cs ++ ['\n'] ∧ FeedsLast s s' := by
  obtain ⟨rfl, hlt | ⟨rfl, hend⟩⟩ | ⟨rfl, hfeeds⟩ := h.kept_or_fed
  · exact .inl ⟨rfl, .inl (by rwa [lines_flatten] at hlt)⟩
  · rw [lines_eq_nil, lines_flatten] at hend
    exact .inl ⟨rfl, .inr ⟨by rw [lines_flatten], hend.resolve_left hcs⟩⟩
  · exact .inr ⟨lines_flatten cs, by rw [hfeeds.flatten, lines_flatten], hfeeds⟩

lemma fedLength {cs : Text} {s s' : List Text} (hcs : cs ≠ [])
    (h : Chosen (lines cs) (lines (cs ++ ['\n'])) s s') :
    FedLength cs s.flatten.length s'.flatten.length := by
  obtain ⟨rfl, hstays⟩ | ⟨hs, hs', -⟩ := h.cases_lines hcs
  · exact .inl ⟨rfl, hstays⟩
  · rw [hs, hs', List.length_append]
    exact .inr ⟨rfl, rfl⟩

/-- A construct of the lines that are chosen stays the same or takes the line feed. -/
lemma fed {α : Type} {R : α → α → Prop} {cs : Text} {s s' : List Text} {v v' : α} (hcs : cs ≠ [])
    (h : Chosen (lines cs) (lines (cs ++ ['\n'])) s s') (hsame : s' = s → v' = v ∧ R v v)
    (hfeeds : FeedsLast s s' → R v v') :
    Found.Fed R cs (some ⟨s.flatten.length, v⟩) (some ⟨s'.flatten.length, v'⟩) := by
  obtain ⟨rfl, hstays⟩ | ⟨hs, hs', hlast⟩ := h.cases_lines hcs
  · obtain ⟨rfl, hv⟩ := hsame rfl
    exact .of_stays hstays fun _ _ => hv
  · rw [hs, hs', List.length_append, List.length_singleton]
    exact .grows (hfeeds hlast)

lemma length_le {cs : Text} {ls' s s' : List Text} (h : Chosen (lines cs) ls' s s') :
    s.flatten.length ≤ cs.length := by
  obtain ⟨-, hlt | ⟨rfl, -⟩⟩ | ⟨rfl, -⟩ := h.kept_or_fed
  · rw [lines_flatten] at hlt
    exact hlt.le
  · rw [lines_flatten]
  · rw [lines_flatten]

lemma eq_nil_iff {ls ls' s s' : List Text} (h : Chosen ls ls' s s') : s' = [] ↔ s = [] := by
  cases h <;> simp

lemma nothing {ls ls' : List Text} (h : FedLines ls ls') : Chosen ls ls' [] [] := by
  cases h with
  | own => exact .own
  | last hne hl => exact .stop (by simpa using hne) (.last hne hl)
  | cons hl hls => exact .stop (by simp) (.cons hl hls)

/-- What is read off the chosen lines without regard to a line feed at their end is the same. -/
lemma map {α : Type} {f : Text → α} {ls ls' s s' : List Text} (h : Chosen ls ls' s s')
    (hf : ∀ l, f (l ++ ['\n']) = f l) : s'.map f = s.map f := by
  obtain ⟨rfl, -⟩ | ⟨-, hlast⟩ := h.kept_or_fed
  · rfl
  · exact hlast.map hf

/-- A test that takes a line with or without its line feed alike, and no line that is nothing but a
line feed, chooses the first lines of a text. -/
lemma takeWhile {p : Text → Bool} (hp : ∀ l, l ≠ [] → '\n' ∉ l → p (l ++ ['\n']) = p l)
    (hfeed : p ['\n'] = false) {ls ls' : List Text} (h : FedLines ls ls') :
    Chosen ls ls' (ls.takeWhile p) (ls'.takeWhile p) := by
  induction h with
  | own => simpa [hfeed] using own
  | @last l hne hl =>
    cases hpl : p l with
    | true => simpa [hpl, hp l hne hl] using last hne hl
    | false => simpa [hpl, hp l hne hl] using stop (by simpa using hne) (.last hne hl)
  | @cons l ls ls' hl hls ih =>
    cases hpl : p (l ++ ['\n']) with
    | true => simpa [hpl] using cons hl ih
    | false => simpa [hpl] using stop (by simp) (.cons hl hls)

end Chosen

end Docmark
