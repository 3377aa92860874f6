import Docmark.Proofs.Regex.Parenthesis

/-!
# Reading an expression in a group

An expression that is put into a group behind a caret, as `^(?:…)`, is read part by part as it is
read by itself: the drafts are the same but for the group that is open around them
(`Draft.within`), and each part leaves the same behind it (`StepsWithin`).  At the end the
parenthesis closes that group, unless it stands in a comment.

## Main results

* `readParts_within` — a whole reading, in a group.
* `parse_grouped` — the expression in the group is the one that is read by itself.
-/

namespace Docmark.Regex

variable {cs : Text}

/-! ## Parts of an expression in a group -/

/-- A draft in a group that is open around all of its own. -/
def Draft.within (d : Draft) (g : OpenGroup) : Draft := { d with outer := d.outer ++ [g] }

@[simp] lemma Draft.flags_within (d : Draft) (g : OpenGroup) : (d.within g).flags = d.flags := rfl

@[simp] lemma Draft.items_within (d : Draft) (g : OpenGroup) : (d.within g).items = d.items := rfl

/-- What is left of a text with a parenthesis behind it: the parenthesis is left too, unless it is
part of a comment at the end. -/
def Behind (rest rest' : Text) : Prop := rest' = rest ++ [')'] ∨ (rest = [] ∧ rest' = [])

lemma skip_behind (f : Flags) (cs : Text) : Behind (f.skip cs) (f.skip (cs ++ [')'])) := by
  cases hskip : f.skip cs with
  | nil => exact (skip_nil hskip).imp id fun h => ⟨rfl, h⟩
  | cons c more => exact .inl (skip_cons hskip).2

lemma Behind.splitLazy {rest rest' : Text} (h : Behind rest rest') :
    (splitLazy rest').1 = (splitLazy rest).1 ∧
      Behind (splitLazy rest).2 (splitLazy rest').2 := by
  obtain rfl | ⟨rfl, rfl⟩ := h
  · cases rest with
    | nil => exact ⟨rfl, .inl rfl⟩
    | cons c rest =>
      rw [List.cons_append]
      unfold Regex.splitLazy
      by_cases hmark : c = '?'
      · subst hmark
        exact ⟨rfl, .inl rfl⟩
      · simp only [List.cons.injEq, hmark, false_and, false_implies, implies_true]
        exact ⟨trivial, .inl rfl⟩
  · exact ⟨rfl, .inr ⟨rfl, rfl⟩⟩

lemma splitLazy_length_le (cs : Text) : (splitLazy cs).2.length ≤ cs.length := by
  unfold splitLazy
  split
  · exact Nat.le_succ _
  · exact le_rfl

/-- A step `r` reads a part and leaves at most `n` characters, and in the group, with a parenthesis
behind the text, the step is `r'`. -/
def StepsWithin (g : OpenGroup) (n : Nat) (r r' : Except Flaw (Draft × Text)) : Prop :=
  ∀ d rest, r = .ok (d, rest) →
    rest.length ≤ n ∧ ∃ rest', Behind rest rest' ∧ r' = .ok (d.within g, rest')

namespace StepsWithin

variable {g : OpenGroup} {n : Nat}

lemma ok {d : Draft} {rest rest' : Text} (hlength : rest.length ≤ n) (h : Behind rest rest') :
    StepsWithin g n (.ok (d, rest)) (.ok (d.within g, rest')) := by
  rintro d rest ⟨⟩
  exact ⟨hlength, rest', h, rfl⟩

lemma error {e : Flaw} {r' : Except Flaw (Draft × Text)} : StepsWithin g n (.error e) r' := by
  rintro d rest ⟨⟩

lemma bind {α : Type} {r r' : Except Flaw (α × Text)}
    {k k' : α × Text → Except Flaw (Draft × Text)} (h : LeavesParen n r r')
    (hk : ∀ x rest, rest.length ≤ n → StepsWithin g n (k (x, rest)) (k' (x, rest ++ [')']))) :
    StepsWithin g n (r >>= k) (r' >>= k') := by
  intro d rest hd
  obtain ⟨⟨x, left⟩, hx, hleft⟩ := exists_of_bind_ok hd
  obtain ⟨hlength, hr'⟩ := h x left hx
  rw [hr']
  exact hk x left hlength d rest hleft

/-- A repetition of the last item of a draft. -/
lemma repeatLast (d : Draft) (low : Nat) (high : Option Nat) (lazy : Bool) {rest rest' : Text}
    (hlength : rest.length ≤ n) (h : Behind rest rest') :
    StepsWithin g n (do return (← d.repeatLast low high lazy, rest))
      (do return (← (d.within g).repeatLast low high lazy, rest')) := by
  unfold Draft.repeatLast Draft.within
  cases d.items with
  | nil => exact .error
  | cons item items =>
    cases item with
    | none => exact .error
    | some e => exact .ok hlength h

end StepsWithin

lemma openNamed_stepsWithin (d : Draft) (g : OpenGroup) {cs : Text} {n : Nat}
    (hn : cs.length ≤ n) :
    StepsWithin g n (openNamed d cs) (openNamed (d.within g) (cs ++ [')'])) :=
  .bind ((groupName_leavesParen d cs).mono hn) fun _ _ hrest => .ok hrest (.inl rfl)

lemma setFlags_stepsWithin (d : Draft) (g : OpenGroup) {cs : Text} {n : Nat}
    (hn : cs.length ≤ n) :
    StepsWithin g n (setFlags d cs) (setFlags (d.within g) (cs ++ [')'])) := by
  unfold setFlags
  cases hdrop : cs.drop (cs.takeWhile fun c => c ≠ ':' ∧ c ≠ ')').length with
  | nil =>
    simp only [hdrop]
    exact .error
  | cons c rest =>
    obtain ⟨htake, htail⟩ := takeWhile_append_of_stop hdrop [')']
    have hrest : rest.length ≤ n := by
      have hlength := congrArg List.length hdrop
      rw [List.length_drop, List.length_cons] at hlength
      omega
    simp only [htake, htail, hdrop, Draft.flags_within]
    split
    next heq =>
      cases heq
      simp only
      split
      · exact .ok hrest (.inl rfl)
      · exact .error
    next heq =>
      cases heq
      simp only
      split
      · exact .error
      · split
        · exact .ok hrest (.inl rfl)
        · exact .error
    next => exact .error

lemma openMarked_stepsWithin (d : Draft) (g : OpenGroup) {cs : Text} {n : Nat}
    (hn : cs.length ≤ n) :
    StepsWithin g n (openMarked d cs) (openMarked (d.within g) (cs ++ [')'])) := by
  unfold openMarked
  split
  case h_1 | h_2 | h_3 | h_4 => exact .error
  case h_5 cs =>
    exact openNamed_stepsWithin d g (by simp only [List.length_cons] at hn; omega)
  case h_6 cs hequals hbang =>
    have hname := openNamed_stepsWithin d g ((Nat.le_succ cs.length).trans hn)
    cases cs with
    | nil => exact hname
    | cons c cs =>
      have hc : c ≠ '=' ∧ c ≠ '!' :=
        ⟨fun h => hequals cs (h ▸ rfl), fun h => hbang cs (h ▸ rfl)⟩
      simpa only [List.cons_append, List.cons.injEq, hc, false_and, false_implies,
        implies_true] using hname
  case h_7 hequals hbang _ _ hname hangle =>
    have hflags := setFlags_stepsWithin d g hn
    cases cs with
    | nil => exact hflags
    | cons c cs =>
      have hc : c ≠ '=' ∧ c ≠ '!' ∧ c ≠ '<' :=
        ⟨fun h => hequals cs (h ▸ rfl), fun h => hbang cs (h ▸ rfl), fun h => hangle cs (h ▸ rfl)⟩
      -- a letter that might begin a name takes what follows it to do so
      cases cs with
      | nil =>
        simpa only [List.cons_append, List.nil_append, List.cons.injEq, hc, Char.reduceEq,
          false_and, and_false, false_implies, implies_true] using hflags
      | cons e cs =>
        by_cases hletter : c = 'P'
        · have he : e ≠ '<' := fun h => hname cs (hletter ▸ h ▸ rfl)
          subst hletter
          simpa only [List.cons_append, List.cons.injEq, he, Char.reduceEq, false_and, and_false,
            true_and, false_implies, implies_true] using hflags
        · simpa only [List.cons_append, List.cons.injEq, hc, hletter, false_and, false_implies,
            implies_true] using hflags

lemma openAt_stepsWithin (d : Draft) (g : OpenGroup) (cs : Text) :
    StepsWithin g cs.length (openAt d cs) (openAt (d.within g) (cs ++ [')'])) := by
  unfold openAt
  rw [Draft.flags_within]
  cases hskip : d.flags.skip cs with
  | nil =>
    rcases skip_nil hskip with hparen | hnil
    · rw [hparen]
      exact .ok (Nat.zero_le _) (.inl rfl)
    · rw [hnil]
      exact .ok (Nat.zero_le _) (.inr ⟨rfl, rfl⟩)
  | cons c more =>
    obtain ⟨hlt, hcons⟩ := skip_cons hskip
    rw [hcons]
    by_cases hmark : c = '?'
    · subst hmark
      exact openMarked_stepsWithin d g hlt.le
    · simp only [List.cons.injEq, hmark, false_and, false_implies, implies_true]
      exact .ok hlt (.inl rfl)

lemma readPart_stepsWithin (d : Draft) (g : OpenGroup) (c : Char) (cs : Text) :
    StepsWithin g cs.length (readPart d c cs) (readPart (d.within g) c (cs ++ [')'])) := by
  have hmarked (low : Nat) (high : Option Nat) :
      StepsWithin g cs.length
        (do return (← d.repeatLast low high (splitLazy cs).1, (splitLazy cs).2))
        (do return (← (d.within g).repeatLast low high (splitLazy (cs ++ [')'])).1,
          (splitLazy (cs ++ [')'])).2)) := by
    obtain ⟨hlazy, hbehind⟩ := Behind.splitLazy (.inl rfl : Behind cs (cs ++ [')']))
    rw [hlazy]
    exact .repeatLast d low high _ (splitLazy_length_le cs) hbehind
  have hflags := d.flags_within g
  have hitems := d.items_within g
  unfold readPart
  simp only [hflags]
  split
  case h_1 => exact openAt_stepsWithin d g cs
  -- what closes a group of the draft closes it there too
  case h_2 =>
    unfold Draft.closeGroup
    cases houter : d.outer with
    | nil => exact .error
    | cons g' outer =>
      simp only [Draft.within, houter, List.cons_append]
      exact .ok le_rfl (.inl rfl)
  case h_3 => exact .ok le_rfl (.inl rfl)
  case h_4 =>
    exact .bind (bracketClass_leavesParen d.flags cs) fun s rest hrest => .ok hrest (.inl rfl)
  -- repetitions, the last kind with counts
  case h_5 | h_6 | h_7 => exact hmarked _ _
  case h_8 =>
    simp only [hitems]
    split
    · exact .error
    · refine .bind (counts_leavesParen d.flags cs) fun range rest hrest => ?_
      obtain ⟨hlazy, hbehind⟩ := (skip_behind d.flags rest).splitLazy
      simp only
      rw [hlazy]
      exact .repeatLast d range.1 range.2 _
        ((splitLazy_length_le _).trans ((skip_length_le _ _).trans hrest)) hbehind
  case h_9 =>
    refine .bind (escape_leavesParen d.flags cs) fun e rest hrest => ?_
    cases e with
    | literal | set | look => exact .ok hrest (.inl rfl)
  case h_10 =>
    split
    · exact .ok le_rfl (.inl rfl)
    · exact .error
  case h_11 | h_12 | h_13 => exact .ok le_rfl (.inl rfl)

lemma readParts_of_skip_nil {d : Draft} (h : d.flags.skip cs = []) (n : Nat) :
    readParts n d cs = .ok d := by
  cases n with
  | zero => rfl
  | succ n => rw [readParts, h]

lemma readParts_of_skip_close {d : Draft} (h : d.flags.skip cs = [')']) (n : Nat) :
    readParts (n + 1) d cs = d.closeGroup := by
  rw [readParts, h]
  show (do return (← d.closeGroup, ([] : Text))) >>= _ = _
  cases d.closeGroup with
  | error e => rfl
  | ok d' => exact readParts_of_skip_nil rfl n

/-- What is read of an expression is read in a group too, and then the group is closed, unless its
parenthesis is part of a comment. -/
lemma readParts_within {n m : Nat} {d d' : Draft} (g : OpenGroup) (hn : cs.length ≤ n)
    (hm : cs.length < m) (h : readParts n d cs = .ok d') :
    readParts m (d.within g) (cs ++ [')']) = .ok (d'.within g) ∨
      readParts m (d.within g) (cs ++ [')']) = (d'.within g).closeGroup := by
  have hend {m : Nat} {cs : Text} {d : Draft} (hskip : d.flags.skip cs = []) :
      readParts (m + 1) (d.within g) (cs ++ [')']) = .ok (d.within g) ∨
        readParts (m + 1) (d.within g) (cs ++ [')']) = (d.within g).closeGroup := by
    obtain hparen | hnil : (d.within g).flags.skip (cs ++ [')']) = [')'] ∨
        (d.within g).flags.skip (cs ++ [')']) = [] := skip_nil hskip
    · exact .inr (readParts_of_skip_close hparen m)
    · exact .inl (readParts_of_skip_nil hnil (m + 1))
  induction n generalizing cs d m with
  | zero =>
    cases h
    obtain rfl := List.length_eq_zero_iff.1 (Nat.le_zero.1 hn)
    obtain ⟨m, rfl⟩ := Nat.exists_eq_add_of_lt hm
    exact hend rfl
  | succ n ih =>
    obtain ⟨m, rfl⟩ := Nat.exists_eq_succ_of_ne_zero (Nat.ne_zero_of_lt hm)
    rw [readParts] at h
    cases hskip : d.flags.skip cs with
    | nil =>
      rw [hskip] at h
      cases h
      exact hend hskip
    | cons c more =>
      rw [hskip] at h
      obtain ⟨⟨d₁, rest⟩, hpart, hread⟩ := exists_of_bind_ok h
      replace hread : readParts n d₁ rest = .ok d' := hread
      obtain ⟨hlt, hcons⟩ := skip_cons hskip
      obtain ⟨hlength, rest', hbehind, hpart'⟩ := readPart_stepsWithin d g c more d₁ rest hpart
      rw [readParts, Draft.flags_within, hcons]
      simp only [hpart']
      show readParts m (d₁.within g) rest' = _ ∨ readParts m (d₁.within g) rest' = _
      obtain rfl | ⟨rfl, rfl⟩ := hbehind
      · exact ih (by omega) (by omega) hread
      · obtain rfl : d₁ = d' := Except.ok.inj ((readParts_of_skip_nil rfl n).symm.trans hread)
        exact .inl (readParts_of_skip_nil rfl m)

/-! ## Expressions in a group -/

/-- What is read closes its own groups. -/
lemma exists_draft_of_parse {e : Expr} (h : parse cs = .ok e) :
    ∃ d : Draft, readParts cs.length {} cs = .ok d ∧ d.outer = [] ∧ d.content = e := by
  unfold parse at h
  obtain ⟨d, hread, h⟩ := exists_of_bind_ok h
  refine ⟨d, hread, ?_⟩
  cases houter : d.outer with
  | cons g outer =>
    rw [houter] at h
    cases h
  | nil =>
    rw [houter] at h
    split at h
    next hempty => cases hempty
    next =>
      simp only at h
      split at h
      · cases h
      · exact ⟨rfl, Except.ok.inj h⟩

/-- An expression that is read by itself, and in a group behind a caret too, is there what it is by
itself. -/
theorem parse_grouped {e e' : Expr} (h : parse cs = .ok e)
    (h' : parse ("^(?:".toList ++ cs ++ [')']) = .ok e') :
    e' = .seq (.look .textStart) (.group e) := by
  let g : OpenGroup := ⟨{}, [], [some (.look .textStart)]⟩
  obtain ⟨d, hread, houter, rfl⟩ := exists_draft_of_parse h
  obtain ⟨d', hread', houter', rfl⟩ := exists_draft_of_parse h'
  have hopen : readParts ("^(?:".toList ++ cs ++ [')']).length {} ("^(?:".toList ++ cs ++ [')']) =
      readParts (cs.length + 3) (({} : Draft).within g) (cs ++ [')']) := by
    rw [show ("^(?:".toList ++ cs ++ [')']).length = cs.length + 3 + 2 by simp]
    rfl
  rw [hopen] at hread'
  rcases readParts_within g le_rfl (by omega : cs.length < cs.length + 3) hread with hleft | hclosed
  · rw [hleft] at hread'
    cases hread'
    simp [Draft.within] at houter'
  · rw [hclosed] at hread'
    simp only [Draft.closeGroup, Draft.within, houter, List.nil_append] at hread'
    cases hread'
    rfl

end Docmark.Regex
