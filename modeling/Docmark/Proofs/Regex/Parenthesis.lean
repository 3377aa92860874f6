import Docmark.Proofs.Outcome
import Docmark.Regex.Reading

/-!
# Readings that leave a parenthesis

An expression that is put into a group has a parenthesis behind it.  Escapes, classes, counts and
the names of groups are read there as they are read at the end of the notation: none of them takes
the parenthesis, and what stands in front of it decides what they are (`LeavesParen`).

The parenthesis is no white space, no digit and no part of an operator, so nothing that has been
read to its end goes on into it.  What fails without it may well succeed with it, as a backslash at
the end does; so only readings that succeed are spoken of.
-/

namespace Docmark.Regex

variable {f : Flags} {cs rest : Text} {c : Char}

/-! ## What does not count -/

lemma skipFree_length_le (verbose inComment : Bool) (cs : Text) :
    (skipFree verbose inComment cs).length ≤ cs.length := by
  fun_induction skipFree verbose inComment cs with
  | case1 | case2 | case6 => exact le_rfl
  | case3 _ _ _ _ ih | case4 _ _ _ _ _ _ _ ih | case5 _ _ _ _ _ _ ih =>
    exact ih.trans (Nat.le_succ _)

/-- With more text behind it, nothing else is skipped; where nothing is left, the skipping goes on,
perhaps in a comment. -/
lemma skipFree_append (verbose inComment : Bool) (cs tail : Text) :
    (skipFree verbose inComment cs = [] ∧
      ∃ inComment', skipFree verbose inComment (cs ++ tail) = skipFree verbose inComment' tail) ∨
    (skipFree verbose inComment cs ≠ [] ∧
      skipFree verbose inComment (cs ++ tail) = skipFree verbose inComment cs ++ tail) := by
  fun_induction skipFree verbose inComment cs with
  | case1 verbose inComment => exact .inl ⟨rfl, inComment, rfl⟩
  | case2 verbose inComment d cs hcounts =>
    rw [List.cons_append, skipFree, if_pos hcounts]
    exact .inr ⟨List.cons_ne_nil _ _, rfl⟩
  | case3 verbose d cs hverbose ih =>
    obtain rfl : verbose = true := by simpa using hverbose
    rw [List.cons_append, skipFree, if_neg hverbose, if_pos rfl]
    exact ih
  | case4 verbose inComment d cs hverbose hcomment hspace ih =>
    obtain rfl : verbose = true := by simpa using hverbose
    rw [List.cons_append, skipFree, if_neg hverbose, if_neg hcomment, if_pos hspace]
    exact ih
  | case5 verbose inComment cs hverbose hcomment hspace ih =>
    obtain rfl : verbose = true := by simpa using hverbose
    rw [List.cons_append, skipFree, if_neg hverbose, if_neg hcomment, if_neg hspace, if_pos rfl]
    exact ih
  | case6 verbose inComment d cs hverbose hcomment hspace hhash =>
    rw [List.cons_append, skipFree, if_neg hverbose, if_neg hcomment, if_neg hspace, if_neg hhash]
    exact .inr ⟨List.cons_ne_nil _ _, rfl⟩

lemma skip_length_le (f : Flags) (cs : Text) : (f.skip cs).length ≤ cs.length :=
  skipFree_length_le f.verbose false cs

/-- What counts in a text counts with a parenthesis behind it. -/
lemma skip_cons (h : f.skip cs = c :: rest) :
    rest.length < cs.length ∧ f.skip (cs ++ [')']) = c :: (rest ++ [')']) := by
  have hlength := skip_length_le f cs
  rw [h, List.length_cons] at hlength
  rcases skipFree_append f.verbose false cs [')'] with ⟨hnil, -⟩ | ⟨-, happend⟩
  · exact absurd (h.symm.trans hnil) (List.cons_ne_nil _ _)
  · exact ⟨hlength, happend.trans (congrArg (· ++ [')']) h)⟩

/-- Where nothing counts any more, a parenthesis counts, unless it is part of a comment. -/
lemma skip_nil (h : f.skip cs = []) :
    f.skip (cs ++ [')']) = [')'] ∨ f.skip (cs ++ [')']) = [] := by
  rcases skipFree_append f.verbose false cs [')'] with ⟨-, inComment, htail⟩ | ⟨hne, -⟩
  · rw [Flags.skip, htail]
    cases f.verbose <;> cases inComment <;> decide
  · exact absurd h hne

/-! ## Readings that leave a parenthesis -/

section

variable {α β : Type}

/-- A reading `r` leaves at most `n` characters, and with a parenthesis behind the text it is `r'`:
the same is read, and the parenthesis is left. -/
def LeavesParen (n : Nat) (r r' : Except Flaw (α × Text)) : Prop :=
  ∀ x rest, r = .ok (x, rest) → rest.length ≤ n ∧ r' = .ok (x, rest ++ [')'])

namespace LeavesParen

variable {n m : Nat} {r r' : Except Flaw (α × Text)}

lemma ok {x : α} (h : rest.length ≤ n) :
    LeavesParen n (.ok (x, rest)) (.ok (x, rest ++ [')'])) := by
  rintro x rest ⟨⟩
  exact ⟨h, rfl⟩

lemma error {e : Flaw} : LeavesParen n (.error e) r' := by
  rintro x rest ⟨⟩

lemma mono (h : LeavesParen n r r') (hnm : n ≤ m) : LeavesParen m r r' :=
  fun x rest hr => ⟨(h x rest hr).1.trans hnm, (h x rest hr).2⟩

lemma bind {k k' : α × Text → Except Flaw (β × Text)} (h : LeavesParen m r r')
    (hk : ∀ x rest, rest.length ≤ m → LeavesParen n (k (x, rest)) (k' (x, rest ++ [')']))) :
    LeavesParen n (r >>= k) (r' >>= k') := by
  intro y rest hy
  obtain ⟨⟨x, left⟩, hx, hleft⟩ := exists_of_bind_ok hy
  obtain ⟨hlength, hr'⟩ := h x left hx
  rw [hr']
  exact hk x left hlength y rest hleft

/-- What is made of a reading depends on nothing behind it. -/
lemma value (x : Except Flaw α) (h : rest.length ≤ n) :
    LeavesParen n (do return (← x, rest)) (do return (← x, rest ++ [')'])) := by
  cases x with
  | error => exact .error
  | ok => exact .ok h

end LeavesParen

end

/-! ## Escapes -/

lemma takeCounted_leavesParen (f : Flags) (n : Nat) (cs : Text) :
    LeavesParen cs.length (takeCounted f n cs) (takeCounted f n (cs ++ [')'])) := by
  induction n generalizing cs with
  | zero => exact .ok le_rfl
  | succ n ih =>
    rw [takeCounted, takeCounted]
    cases hskip : f.skip cs with
    | nil => exact .error
    | cons c more =>
      obtain ⟨hlt, hcons⟩ := skip_cons hskip
      rw [hcons]
      exact (ih more).bind fun taken left hleft => .ok (hleft.trans hlt.le)

/-- More steps than needed do not matter. -/
lemma takeBraced_leavesParen (f : Flags) (flaw : Flaw) {n m : Nat} (hnm : n ≤ m) (cs : Text) :
    LeavesParen cs.length (takeBraced f flaw n cs) (takeBraced f flaw m (cs ++ [')'])) := by
  induction n generalizing cs m with
  | zero => exact .error
  | succ n ih =>
    obtain ⟨m, rfl⟩ := Nat.exists_eq_add_of_lt hnm
    rw [takeBraced, takeBraced]
    cases hskip : f.skip cs with
    | nil => exact .error
    | cons c more =>
      obtain ⟨hlt, hcons⟩ := skip_cons hskip
      rw [hcons]
      simp only
      split
      · exact .ok hlt.le
      · exact (ih (by omega) more).bind fun taken left hleft => .ok (hleft.trans hlt.le)

/-- Braces that are read to the end of the text. -/
lemma braces_leavesParen (f : Flags) (flaw : Flaw) (cs : Text) :
    LeavesParen cs.length (takeBraced f flaw (cs.length + 1) cs)
      (takeBraced f flaw ((cs ++ [')']).length + 1) (cs ++ [')'])) :=
  takeBraced_leavesParen f flaw (by simp) cs

lemma hexEscape_leavesParen (f : Flags) (width : Nat) (cs : Text) :
    LeavesParen cs.length (hexEscape f width cs) (hexEscape f width (cs ++ [')'])) := by
  unfold hexEscape
  cases hskip : f.skip cs with
  | nil =>
    cases width with
    | zero => exact .error
    | succ width =>
      simp only [takeCounted, hskip]
      exact .error
  | cons c more =>
    obtain ⟨hlt, hcons⟩ := skip_cons hskip
    rw [hcons]
    by_cases hbrace : c = '\x7b'
    · subst hbrace
      exact (braces_leavesParen f _ more).bind fun ds left hleft =>
        .value _ (hleft.trans hlt.le)
    · simp only [List.cons.injEq, hbrace, false_and, false_implies, implies_true]
      exact (takeCounted_leavesParen f width cs).bind fun ds left hleft => .value _ hleft

lemma propertyEscape_leavesParen (f : Flags) (negated : Bool) (cs : Text) :
    LeavesParen cs.length (propertyEscape f negated cs)
      (propertyEscape f negated (cs ++ [')'])) := by
  unfold propertyEscape
  cases hskip : f.skip cs with
  | nil => exact .error
  | cons c more =>
    obtain ⟨hlt, hcons⟩ := skip_cons hskip
    rw [hcons]
    by_cases hbrace : c = '\x7b'
    · subst hbrace
      exact (braces_leavesParen f _ more).bind fun body left hleft =>
        .value _ (hleft.trans hlt.le)
    · by_cases hslash : c = '\\'
      · subst hslash
        exact .error
      · simp only
        exact .value _ hlt.le

lemma wordBoundary_of_ne (hc : c ≠ '\x7b') (cs : Text) :
    wordBoundary f (c :: cs) = .ok (.look (.wordBoundary (wordSet f.unicode)), c :: cs) := by
  unfold wordBoundary
  split
  next heq => exact absurd (List.cons.inj heq).1 hc
  next => rfl

lemma wordBoundary_leavesParen (f : Flags) (cs : Text) :
    LeavesParen cs.length (wordBoundary f cs) (wordBoundary f (cs ++ [')'])) := by
  cases cs with
  | nil => exact .ok le_rfl
  | cons c inner =>
    by_cases hbrace : c = '\x7b'
    · subst hbrace
      unfold wordBoundary
      simp only [List.cons_append]
      cases hskip : f.skip inner with
      | nil => exact .error
      | cons d more =>
        obtain ⟨hlt, hcons⟩ := skip_cons hskip
        rw [hcons]
        simp only
        split
        · exact .ok le_rfl
        · refine (braces_leavesParen f _ inner).bind fun kind left hleft => ?_
          have hle : left.length ≤ ('\x7b' :: inner).length := hleft.trans (Nat.le_succ _)
          simp only
          repeat' split
          · exact .ok hle
          · exact .ok hle
          · exact .ok hle
          · exact .ok hle
          · exact .error
    · rw [List.cons_append, wordBoundary_of_ne hbrace, wordBoundary_of_ne hbrace]
      exact .ok le_rfl

lemma negatedClass_leavesParen (f : Flags) (s : CharSet) (cs : Text) :
    LeavesParen cs.length (negatedClass f s cs) (negatedClass f s (cs ++ [')'])) := by
  rw [negatedClass, negatedClass]
  split
  · exact .ok le_rfl
  · exact .error

lemma escape_leavesParen (f : Flags) (cs : Text) :
    LeavesParen cs.length (escape f cs) (escape f (cs ++ [')'])) := by
  cases cs with
  | nil => exact .error
  | cons c cs =>
    rw [List.cons_append]
    unfold escape
    simp only
    split
    case h_1 =>
      -- a first digit is there, so a brace in front of it does not depend on what is behind
      obtain hskip | ⟨first, more, hskip⟩ : f.skip cs = [] ∨ ∃ d more, f.skip cs = d :: more := by
        cases f.skip cs <;> simp
      · simp only [hexEscape, takeCounted, hskip]
        exact .error
      · have hhead : (f.skip (cs ++ [')'])).head? = (f.skip cs).head? := by
          rw [hskip, (skip_cons hskip).2]
          rfl
        rw [hhead]
        refine (hexEscape_leavesParen f 2 cs).bind fun d left hleft => ?_
        simp only
        split
        · exact .error
        · exact .ok (hleft.trans (Nat.le_succ _))
    -- the longer hexadecimal escapes, and properties
    case h_2 | h_3 =>
      exact (hexEscape_leavesParen f _ cs).bind fun d left hleft => .ok (hleft.trans (Nat.le_succ _))
    case h_4 | h_5 =>
      exact (propertyEscape_leavesParen f _ cs).bind fun s left hleft =>
        .ok (hleft.trans (Nat.le_succ _))
    -- negated classes, word boundaries, and characters that stand for themselves
    case h_9 | h_10 | h_11 => exact (negatedClass_leavesParen f _ cs).mono (Nat.le_succ _)
    case h_20 => exact (wordBoundary_leavesParen f cs).mono (Nat.le_succ _)
    case h_24 =>
      split
      · exact .ok (Nat.le_succ _)
      · exact .error
    all_goals exact .ok (Nat.le_succ _)

/-! ## Classes -/

/-- A character of a text with a parenthesis behind it that is no parenthesis is one of the text. -/
lemma exists_cons_of_append (hc : c ≠ ')') (h : cs ++ [')'] = c :: rest) :
    ∃ more, cs = c :: more ∧ rest = more ++ [')'] := by
  rcases List.append_eq_cons_iff.1 h with ⟨-, hone⟩ | hmore
  · exact absurd (List.cons.inj hone).1.symm hc
  · exact hmore

/-- A run that ends at a character ends there with more text behind it. -/
lemma takeWhile_append_of_stop {p : Char → Bool} (h : cs.drop (cs.takeWhile p).length = c :: rest)
    (tail : Text) :
    (cs ++ tail).takeWhile p = cs.takeWhile p ∧
      (cs ++ tail).drop (cs.takeWhile p).length = c :: (rest ++ tail) := by
  have hle : (cs.takeWhile p).length ≤ cs.length := (List.takeWhile_prefix p).length_le
  have hne : (cs.takeWhile p).length ≠ cs.length := by
    intro heq
    rw [heq, List.drop_length] at h
    cases h
  exact ⟨by rw [List.takeWhile_append, if_neg hne],
    by rw [List.drop_append_of_le_length hle, h, List.cons_append]⟩

lemma length_of_closedClass? {s : CharSet} (h : closedClass? cs = some (s, rest)) :
    rest.length ≤ cs.length := by
  unfold closedClass? at h
  simp only at h
  split at h
  next left hdrop =>
    obtain ⟨_, _, hleft⟩ := Option.map_eq_some_iff.1 h
    cases hleft
    have hlength := congrArg List.length hdrop
    rw [List.length_drop, List.length_cons, List.length_cons] at hlength
    omega
  next => cases h

/-- Behind the colon of a class name stands a bracket, so a parenthesis closes no class. -/
lemma closedClass?_append (cs : Text) :
    closedClass? (cs ++ [')']) =
      (closedClass? cs).map fun c : CharSet × Text => (c.1, c.2 ++ [')']) := by
  unfold closedClass?
  cases hdrop : cs.drop (cs.takeWhile (· ≠ ':')).length with
  | nil =>
    have hall : cs.takeWhile (· ≠ ':') = cs :=
      (List.takeWhile_prefix _).eq_of_length_le (List.drop_eq_nil_iff.1 hdrop)
    have htail : (cs ++ [')']).takeWhile (· ≠ ':') = cs ++ [')'] := by
      rw [List.takeWhile_append, if_pos (by rw [hall])]
      rfl
    simp only [htail, hdrop, List.drop_length, Option.map_none]
  | cons c more =>
    obtain ⟨htake, htail⟩ := takeWhile_append_of_stop hdrop [')']
    simp only [htake, htail, hdrop]
    split
    next rest heq =>
      obtain ⟨rfl, hmore⟩ := List.cons.inj heq
      obtain ⟨more, rfl, rfl⟩ := exists_cons_of_append (by decide) hmore
      simp only [Option.map_map]
      rfl
    next hnot =>
      split
      next rest heq =>
        cases heq
        exact absurd rfl (hnot _)
      next => rfl

lemma namedClassAt?_of_ne (h : ∀ body, cs ≠ '[' :: ':' :: body) : namedClassAt? cs = none := by
  unfold namedClassAt?
  split
  next body => exact absurd rfl (h _)
  next body _ => exact absurd rfl (h body)
  next => rfl

lemma namedClassAt?_of_head_ne (h : ∀ more, cs ≠ '^' :: more) :
    namedClassAt? ('[' :: ':' :: cs) = (closedClass? cs).map (false, ·) := by
  unfold namedClassAt?
  split
  next more heq =>
    cases heq
    exact absurd rfl (h more)
  next heq =>
    cases heq
    rfl
  next hnot => exact absurd rfl (hnot _)

lemma length_of_namedClassAt? {negated : Bool} {s : CharSet}
    (h : namedClassAt? cs = some (negated, s, rest)) : rest.length ≤ cs.length := by
  have hclosed {negated' : Bool} {body : Text}
      (h : (closedClass? body).map (negated', ·) = some (negated, s, rest)) :
      rest.length ≤ body.length := by
    obtain ⟨_, hbody, heq⟩ := Option.map_eq_some_iff.1 h
    cases heq
    exact length_of_closedClass? hbody
  unfold namedClassAt? at h
  split at h
  next body =>
    have hlength := hclosed h
    simp only [List.length_cons]
    omega
  next body _ =>
    have hlength := hclosed h
    simp only [List.length_cons]
    omega
  next => cases h

lemma namedClassAt?_append (cs : Text) :
    namedClassAt? (cs ++ [')']) =
      (namedClassAt? cs).map fun c : Bool × CharSet × Text => (c.1, c.2.1, c.2.2 ++ [')']) := by
  match cs with
  | [] => rfl
  | [c] =>
    rw [namedClassAt?_of_ne (by simp), namedClassAt?_of_ne (by simp)]
    rfl
  | c :: d :: body =>
    by_cases hopen : c = '[' ∧ d = ':'
    · obtain ⟨rfl, rfl⟩ := hopen
      by_cases hcaret : ∃ more, body = '^' :: more
      · obtain ⟨more, rfl⟩ := hcaret
        simp only [List.cons_append, namedClassAt?, closedClass?_append, Option.map_map]
        rfl
      · have hne : ∀ more, body ≠ '^' :: more := fun more hmore => hcaret ⟨more, hmore⟩
        have hne' : ∀ more, body ++ [')'] ≠ '^' :: more := fun more hmore => by
          obtain ⟨more, hbody, -⟩ := exists_cons_of_append (by decide) hmore
          exact hne more hbody
        rw [List.cons_append, List.cons_append, namedClassAt?_of_head_ne hne',
          namedClassAt?_of_head_ne hne, closedClass?_append, Option.map_map, Option.map_map]
        rfl
    · rw [namedClassAt?_of_ne (by simpa using hopen), namedClassAt?_of_ne (by simpa using hopen)]
      rfl

lemma anyItem_leavesParen (f : Flags) (cs : Text) :
    LeavesParen cs.length (anyItem f cs) (anyItem f (cs ++ [')'])) := by
  cases cs with
  | nil => exact .error
  | cons c cs =>
    rw [List.cons_append]
    by_cases hslash : c = '\\'
    · subst hslash
      exact (escape_leavesParen f cs).mono (Nat.le_succ _)
    · simp only [anyItem]
      exact .ok (Nat.le_succ _)

lemma classItem_leavesParen (f : Flags) (cs : Text) :
    LeavesParen cs.length (classItem f cs) (classItem f (cs ++ [')'])) := by
  refine (anyItem_leavesParen f cs).bind fun item left hleft => ?_
  cases item with
  | literal c =>
    simp only
    split
    · exact .ok hleft
    · exact .error
  | set s => exact .ok hleft
  | look l => exact .ok hleft

lemma classRange_leavesParen (f : Flags) (cs : Text) :
    LeavesParen cs.length (classRange f cs) (classRange f (cs ++ [')'])) := by
  refine (classItem_leavesParen f cs).bind fun low left hleft => ?_
  simp only
  cases hskip : f.skip left with
  | nil => exact .error
  | cons c more =>
    obtain ⟨hlt, hcons⟩ := skip_cons hskip
    rw [hcons]
    by_cases hhyphen : c = '-'
    · subst hhyphen
      simp only
      cases hnext : f.skip more with
      | nil => exact .error
      | cons d high =>
        obtain ⟨hlt', hcons'⟩ := skip_cons hnext
        rw [hcons']
        by_cases hclose : d = ']'
        · subst hclose
          exact .value _ hleft
        · by_cases hhyphen : d = '-'
          · subst hhyphen
            exact .value _ hleft
          · simp only [List.cons.injEq, hclose, hhyphen, false_and, false_implies, implies_true]
            refine (classItem_leavesParen f (d :: high)).bind fun item left' hleft' => ?_
            have hle : left'.length ≤ cs.length := by
              rw [List.length_cons] at hleft'
              omega
            exact .value _ hle
    · simp only [List.cons.injEq, hhyphen, false_and, false_implies, implies_true]
      exact .value _ hleft

lemma leadingHyphens_leavesParen {o o' : OpenClass} {n m : Nat} (hnm : n ≤ m) {hyphens : Bool}
    (h : leadingHyphens f o n cs = .ok (o', hyphens, rest)) :
    rest.length ≤ cs.length ∧
      leadingHyphens f o m (cs ++ [')']) = .ok (o', hyphens, rest ++ [')']) := by
  induction n generalizing cs o o' m hyphens rest with
  | zero => cases h
  | succ n ih =>
    obtain ⟨m, rfl⟩ := Nat.exists_eq_add_of_lt hnm
    rw [leadingHyphens] at h ⊢
    cases hskip : f.skip cs with
    | nil =>
      rw [hskip] at h
      cases h
    | cons c more =>
      rw [hskip] at h
      obtain ⟨hlt, hcons⟩ := skip_cons hskip
      rw [hcons]
      by_cases hhyphen : c = '-'
      · subst hhyphen
        obtain ⟨⟨o'', b, left⟩, hread, hleft⟩ := exists_of_bind_ok h
        cases hleft
        obtain ⟨hlength, hstep⟩ := ih (by omega : n ≤ n + m) hread
        refine ⟨hlength.trans hlt.le, ?_⟩
        simp only [hstep]
        rfl
      · simp only [List.cons.injEq, hhyphen, false_and, false_implies, implies_true] at h ⊢
        cases h
        exact ⟨hlt, rfl⟩

/-- A closing bracket that comes first is literal if anything counts behind it. -/
lemma leadingBracket_leavesParen (f : Flags) (o : OpenClass) (cs : Text) :
    LeavesParen cs.length (leadingBracket f o cs) (leadingBracket f o (cs ++ [')'])) := by
  unfold leadingBracket
  cases cs with
  | nil => exact .ok le_rfl
  | cons c cs =>
    by_cases hclose : c = ']'
    · subst hclose
      cases hskip : f.skip cs with
      | nil =>
        simp only [hskip]
        exact .error
      | cons d more =>
        simp only [List.cons_append, hskip, (skip_cons hskip).2]
        exact .ok (Nat.le_succ _)
    · simp only [List.cons_append, List.cons.injEq, hclose, false_and, false_implies, implies_true]
      exact .ok le_rfl

lemma openClass_leavesParen (f : Flags) (cs : Text) :
    LeavesParen cs.length (openClass f cs) (openClass f (cs ++ [')'])) := by
  unfold openClass
  cases hskip : f.skip cs with
  | nil => exact .error
  | cons c more =>
    obtain ⟨hlt, hcons⟩ := skip_cons hskip
    rw [hcons]
    intro o rest h
    obtain ⟨⟨o', hyphens, left⟩, hread, h⟩ := exists_of_bind_ok h
    have htail : (if c = '^' then more ++ [')'] else c :: (more ++ [')'])) =
        (if c = '^' then more else c :: more) ++ [')'] := by
      split <;> rfl
    have hlength : (if c = '^' then more else c :: more).length ≤ cs.length := by
      split
      · exact hlt.le
      · exact hlt
    obtain ⟨hleft, hread'⟩ := leadingHyphens_leavesParen
      (by simp : more.length + 2 ≤ (more ++ [')']).length + 2) hread
    replace hleft := hleft.trans hlength
    simp only [htail, hread']
    cases hyphens with
    | true => exact LeavesParen.ok hleft o rest h
    | false => exact (leadingBracket_leavesParen f o' left).mono hleft o rest h

lemma readClass_leavesParen (f : Flags) {n m : Nat} (hnm : n ≤ m) (o : OpenClass)
    (outer : List OpenClass) (cs : Text) :
    LeavesParen cs.length (readClass f n o outer cs) (readClass f m o outer (cs ++ [')'])) := by
  induction n generalizing m o outer cs with
  | zero => exact .error
  | succ n ih =>
    obtain ⟨m, rfl⟩ := Nat.exists_eq_add_of_lt hnm
    have ih (o : OpenClass) (outer : List OpenClass) {more : Text}
        (hlength : more.length ≤ cs.length) :
        LeavesParen cs.length (readClass f n o outer more)
          (readClass f (n + m) o outer (more ++ [')'])) :=
      (ih (Nat.le_add_right n m) o outer more).mono hlength
    rw [readClass, readClass]
    cases hskip : f.skip cs with
    | nil => exact .error
    | cons c more =>
      obtain ⟨hlt, hcons⟩ := skip_cons hskip
      rw [hcons]
      split
      next heq => cases heq
      next rest heq =>
        cases heq
        simp only
        rw [show '[' :: (more ++ [')']) = '[' :: more ++ [')'] from rfl, namedClassAt?_append]
        cases hnamed : namedClassAt? ('[' :: more) with
        | none =>
          exact ((openClass_leavesParen f more).mono hlt.le).bind fun inner left hleft =>
            ih inner (o :: outer) hleft
        | some named =>
          have hlength := length_of_namedClassAt? hnamed
          simp only [Option.map_some]
          split
          · exact .error
          · exact ih _ outer (hlength.trans hlt)
      next rest heq =>
        cases heq
        simp only
        split
        · exact .error
        · cases outer with
          | nil => exact .ok hlt.le
          | cons o' outer => exact ih _ outer hlt.le
      case h_4 | h_5 | h_6 =>
        rename_i heq
        cases heq
        exact ih _ outer ((Nat.le_succ _).trans hlt.le)
      case h_7 hbracket hclose hinter hdiff hsymmDiff =>
        -- an operator has two characters, and none has a parenthesis
        split
        case h_1 heq => cases heq
        case h_2 heq =>
          cases heq
          exact absurd rfl (hbracket more)
        case h_3 heq =>
          cases heq
          exact absurd rfl (hclose more)
        case h_4 heq =>
          obtain ⟨rfl, hmore⟩ := List.cons.inj heq
          obtain ⟨more, rfl, -⟩ := exists_cons_of_append (by decide) hmore
          exact absurd rfl (hinter more)
        case h_5 heq =>
          obtain ⟨rfl, hmore⟩ := List.cons.inj heq
          obtain ⟨more, rfl, -⟩ := exists_cons_of_append (by decide) hmore
          exact absurd rfl (hdiff more)
        case h_6 heq =>
          obtain ⟨rfl, hmore⟩ := List.cons.inj heq
          obtain ⟨more, rfl, -⟩ := exists_cons_of_append (by decide) hmore
          exact absurd rfl (hsymmDiff more)
        case h_7 =>
          exact (((classRange_leavesParen f (c :: more)).mono hlt).bind fun s left hleft =>
            ih _ outer hleft)

lemma bracketClass_leavesParen (f : Flags) (cs : Text) :
    LeavesParen cs.length (bracketClass f cs) (bracketClass f (cs ++ [')'])) :=
  (openClass_leavesParen f cs).bind fun o left hleft =>
    (readClass_leavesParen f (by simp) o [] left).mono hleft

/-! ## Counts -/

lemma dropWhile_isSpace_append (cs : Text) :
    (cs ++ [')']).dropWhile isSpace = cs.dropWhile isSpace ++ [')'] := by
  rw [List.dropWhile_append]
  split
  next hempty =>
    rw [List.isEmpty_iff.1 hempty]
    decide
  next => rfl

lemma digits_append (f : Flags) (cs : Text) :
    count?.digits f (cs ++ [')']) =
      ((count?.digits f cs).1, (count?.digits f cs).2 ++ [')']) := by
  induction cs with
  | nil =>
    have hparen : (')' : Char).isDigit = false ∧ isSpace ')' = false := by decide
    simp [count?.digits, hparen]
  | cons c cs ih =>
    rw [List.cons_append, count?.digits, count?.digits, ih]
    split
    · rfl
    · split <;> rfl

lemma digits_length_le (f : Flags) (cs : Text) : (count?.digits f cs).2.length ≤ cs.length := by
  induction cs with
  | nil => exact le_rfl
  | cons c cs ih =>
    rw [count?.digits]
    split
    · exact ih.trans (Nat.le_succ _)
    · split
      · exact ih.trans (Nat.le_succ _)
      · exact le_rfl

/-- A count with something behind it does not change with a parenthesis behind that. -/
lemma count?_append {n : Option Nat} (h : count? f cs = .ok (n, c :: rest)) :
    (c :: rest).length ≤ cs.length ∧
      count? f (cs ++ [')']) = .ok (n, c :: (rest ++ [')'])) := by
  unfold count? at h ⊢
  simp only [dropWhile_isSpace_append, digits_append] at h ⊢
  have hdigits := digits_length_le f (cs.dropWhile isSpace)
  have hspace := (List.dropWhile_suffix (p := isSpace) (l := cs)).length_le
  have hspace' :=
    (List.dropWhile_suffix (p := isSpace) (l := (count?.digits f (cs.dropWhile isSpace)).2)).length_le
  generalize count?.digits f (cs.dropWhile isSpace) = read at *
  have hskip : f.skip (read.2.dropWhile isSpace) = c :: rest := by
    split at h
    · exact (Prod.mk.inj (Except.ok.inj h)).2
    · split at h
      · exact (Prod.mk.inj (Except.ok.inj h)).2
      · cases h
  obtain ⟨hlt, hcons⟩ := skip_cons hskip
  rw [hskip] at h
  rw [hcons]
  refine ⟨by simp only [List.length_cons]; omega, ?_⟩
  split at h
  next hempty =>
    cases h
    rw [if_pos hempty]
  next hempty =>
    rw [if_neg hempty]
    split at h
    next hsmall =>
      cases h
      rw [if_pos hsmall]
    next => cases h

/-- A count goes before something. -/
lemma LeavesParen.count?_bind {α : Type} {n : Nat}
    {k k' : Option Nat × Text → Except Flaw (α × Text)}
    (hnil : ∀ low x, k (low, []) ≠ .ok x)
    (hcons : ∀ low c rest, (c :: rest).length ≤ cs.length →
      LeavesParen n (k (low, c :: rest)) (k' (low, c :: (rest ++ [')'])))) :
    LeavesParen n (count? f cs >>= k) (count? f (cs ++ [')']) >>= k') := by
  intro x rest h
  obtain ⟨⟨low, left⟩, hlow, h⟩ := exists_of_bind_ok h
  cases left with
  | nil => exact absurd h (hnil low _)
  | cons c left =>
    obtain ⟨hlength, hlow'⟩ := count?_append hlow
    rw [hlow']
    exact hcons low c left hlength x rest h

lemma closeCounts_leavesParen (range : Option (Nat × Option Nat)) {n : Nat}
    (hn : (c :: rest).length ≤ n) :
    LeavesParen n (closeCounts range (c :: rest)) (closeCounts range (c :: (rest ++ [')']))) := by
  obtain _ | ⟨low, high⟩ := range
  · exact .error
  · unfold closeCounts
    by_cases hbrace : c = '\x7d'
    · subst hbrace
      simp only
      split
      · exact .error
      · exact .ok ((Nat.le_succ _).trans hn)
    · simp only [List.cons.injEq, hbrace, false_and, false_implies, implies_true]
      exact .error

lemma closeCounts_nil_ne (range : Option (Nat × Option Nat))
    (x : (Nat × Option Nat) × Text) : closeCounts range [] ≠ .ok x := by
  cases range <;> exact nofun

lemma counts_leavesParen (f : Flags) (cs : Text) :
    LeavesParen cs.length (counts f cs) (counts f (cs ++ [')'])) := by
  unfold counts
  cases hskip : f.skip cs with
  | nil => exact .error
  | cons c more =>
    obtain ⟨hlt, hcons⟩ := skip_cons hskip
    rw [hcons]
    refine LeavesParen.count?_bind (fun low x => closeCounts_nil_ne _ x) fun low d rest hrest => ?_
    by_cases hcomma : d = ','
    · subst hcomma
      simp only
      cases hnext : f.skip rest with
      | nil => cases low <;> exact .error
      | cons e left =>
        obtain ⟨hlt', hcons'⟩ := skip_cons hnext
        have hleft : (e :: left).length ≤ cs.length := by
          simp only [List.length_cons] at *
          omega
        rw [hcons']
        by_cases hbrace : e = '\x7d'
        · subst hbrace
          exact closeCounts_leavesParen _ hleft
        · simp only [List.cons.injEq, hbrace, false_and, false_implies, implies_true]
          exact LeavesParen.count?_bind (fun high x => closeCounts_nil_ne _ x)
            fun high d' rest' hrest' => closeCounts_leavesParen _ (hrest'.trans hleft)
    · simp only [List.cons.injEq, hcomma, false_and, false_implies, implies_true]
      exact closeCounts_leavesParen _ (hrest.trans hlt)

/-! ## Groups -/

lemma groupName_leavesParen (d : Draft) (cs : Text) :
    LeavesParen cs.length (groupName d cs) (groupName d (cs ++ [')'])) := by
  unfold groupName
  cases hdrop : cs.drop (cs.takeWhile (· ≠ '>')).length with
  | nil =>
    simp only [hdrop]
    split
    next heq => cases heq
    next => exact .error
  | cons c more =>
    obtain ⟨htake, htail⟩ := takeWhile_append_of_stop hdrop [')']
    have hlength := congrArg List.length hdrop
    rw [List.length_drop, List.length_cons] at hlength
    simp only [hdrop, htake, htail]
    cases cs.takeWhile (· ≠ '>') with
    | nil => exact .error
    | cons first name =>
      by_cases hclose : c = '>'
      · subst hclose
        simp only
        split
        · refine .ok ?_
          omega
        · exact .error
      · simp only [List.cons.injEq, hclose, false_and, false_implies, implies_true]
        exact .error

end Docmark.Regex
