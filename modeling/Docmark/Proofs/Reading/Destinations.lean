import Mathlib
import Docmark.Proofs.Container.Alone
import Docmark.Proofs.Text.Bytes
import Docmark.Proofs.Text.Delimited

/-!
# Destinations are read back

A destination is written in angle brackets with a title in quotes behind it, or bare.  In angle
brackets it ends at the first bracket, and the title at the first quote, so only these two (and line
feeds in the destination) have to be kept out of them.  A bare destination ends at white space or at
the first parenthesis that it does not open itself, so its parentheses have to be balanced.

## Main results

* `bareHrefLength_of_closes` — where a bare destination ends.
* `destinations_read_back` — what is written as a destination is read as that destination, and
  nothing behind it is taken.
-/

namespace Docmark

/-- The target of a link, in angle brackets and with a title. -/
def angledTarget (href title : Text) : Text :=
  '(' :: '<' :: (href ++ '>' :: ' ' :: '"' :: (title ++ ['"', ')']))

/-- The target of a link, bare. -/
def bareTarget (href : Text) : Text := '(' :: (href ++ [')'])

/-- `target` is read as the destination `d` wherever it stands: a cursor at it is moved behind it,
by its bytes and no more. -/
def ReadsBackAs (target : Text) (d : Destination) : Prop :=
  ∀ (cur : Cursor) (tail : Text), cur.rest = target ++ tail → ∃ m, destination? cur.rest = some m ∧
    m.value = d ∧ cur.drop m.length =
      ⟨tail, cur.consumed + byteLength target, cur.point.advance target⟩

/-- A cursor that moves over a text stands behind it. -/
lemma Cursor.drop_of_rest_eq {cur : Cursor} {taken tail : Text} (h : cur.rest = taken ++ tail) :
    cur.drop taken.length =
      ⟨tail, cur.consumed + byteLength taken, cur.point.advance taken⟩ := by
  rw [Cursor.drop, h, List.take_left, List.drop_left]

lemma readsBackAs_of_forall {target : Text} {d : Destination}
    (h : ∀ tail, destination? (target ++ tail) = some ⟨target.length, d⟩) :
    ReadsBackAs target d :=
  fun _ tail hrest => ⟨⟨target.length, d⟩, hrest ▸ h tail, rfl, Cursor.drop_of_rest_eq hrest⟩

/-- White space is trimmed up to the first character that is none. -/
lemma trimStart_cons_of_not_isSpace {c : Char} (h : isSpace c = false) (cs : Text) :
    trimStart (c :: cs) = c :: cs :=
  List.dropWhile_cons_of_neg (by simp [h])

/-! ## The two forms -/

lemma linkHref?_angled {href : Text} (hbracket : '>' ∉ href) (hfeed : '\n' ∉ href) (rest : Text) :
    linkHref? ('<' :: (href ++ '>' :: rest)) = some (href, rest) := by
  simp only [linkHref?, takeWhile_up_to (ne_and_ne_of_not_mem hbracket hfeed)
    (by decide : ('>' ≠ '>' && '>' ≠ '\n') = false), List.drop_left]

lemma linkTitle?_quoted {title : Text} (hquote : '"' ∉ title) (rest : Text) :
    linkTitle? ('"' :: (title ++ '"' :: ')' :: rest)) = some (some title, ')' :: rest) := by
  have hrun : ∀ c ∈ title, decide (c ≠ '"') = true := fun c hc =>
    decide_eq_true fun h => hquote (h ▸ hc)
  have hcloser : titleCloser? '"' = some '"' := by decide
  simp only [linkTitle?, hcloser,
    takeWhile_up_to hrun (by decide : decide ('"' ≠ '"') = false), List.drop_left,
    trimStart_cons_of_not_isSpace (by decide : isSpace ')' = false)]

/-- **Where a bare destination ends.**  It is read up to the parenthesis that closes none of its
own. -/
lemma bareHrefLength_of_closes {depth : Nat} {href : Text} (h : Closes '(' ')' depth href)
    (hspace : ∀ c ∈ href, isSpace c = false) (rest : Text) :
    bareHrefLength depth (href ++ ')' :: rest) = href.length := by
  induction href generalizing depth with
  | nil =>
    obtain rfl := h.depth_eq
    rfl
  | cons c href ih =>
    obtain ⟨hc, hspace'⟩ := List.forall_mem_cons.1 hspace
    rw [List.cons_append, bareHrefLength.eq_def, List.length_cons]
    dsimp only
    by_cases hopening : c = '('
    · subst hopening
      rw [if_pos rfl, ih (h.of_opening (by decide)) hspace']
    · rw [if_neg hopening]
      by_cases hclosing : c = ')'
      · subst hclosing
        obtain ⟨d, rfl, hrest⟩ := h.exists_of_closing (by decide)
        rw [if_pos rfl]
        exact congrArg (· + 1) (ih hrest hspace')
      · rw [if_neg hclosing, if_neg (by simp [hc]), ih (h.of_other hopening hclosing) hspace']

lemma linkHref?_bare {href : Text} (h : Balanced '(' ')' href)
    (hspace : ∀ c ∈ href, isSpace c = false) (hbracket : href.head? ≠ some '<') (rest : Text) :
    linkHref? (href ++ ')' :: rest) = some (href, ')' :: rest) := by
  have hlength := bareHrefLength_of_closes h hspace rest
  unfold linkHref?
  split
  next after hafter =>
    cases href with
    | nil => cases hafter
    | cons c href =>
      cases hafter
      exact absurd rfl hbracket
  next => rw [hlength, List.take_left, List.drop_left]

/-! ## Whole targets -/

lemma destination?_angledTarget {href title : Text} (hbracket : '>' ∉ href) (hfeed : '\n' ∉ href)
    (hquote : '"' ∉ title) (tail : Text) :
    destination? (angledTarget href title ++ tail) =
      some ⟨(angledTarget href title).length, ⟨href, some title⟩⟩ := by
  have htarget : angledTarget href title ++ tail =
      '(' :: '<' :: (href ++ '>' :: ' ' :: '"' :: (title ++ '"' :: ')' :: tail)) := by
    simp [angledTarget]
  have hblank : trimStart (' ' :: '"' :: (title ++ '"' :: ')' :: tail)) =
      '"' :: (title ++ '"' :: ')' :: tail) := rfl
  have hlength : (angledTarget href title ++ tail).length - tail.length =
      (angledTarget href title).length := by
    rw [List.length_append, Nat.add_sub_cancel]
  rw [← hlength, htarget]
  simp only [destination?, trimStart_cons_of_not_isSpace (by decide : isSpace '<' = false),
    linkHref?_angled hbracket hfeed, hblank, linkTitle?_quoted hquote]

lemma destination?_bareTarget {href : Text} (h : Balanced '(' ')' href)
    (hspace : ∀ c ∈ href, isSpace c = false) (hbracket : href.head? ≠ some '<') (tail : Text) :
    destination? (bareTarget href ++ tail) = some ⟨(bareTarget href).length, ⟨href, none⟩⟩ := by
  have htarget : bareTarget href ++ tail = '(' :: (href ++ ')' :: tail) := by simp [bareTarget]
  have hstart : trimStart (href ++ ')' :: tail) = href ++ ')' :: tail := by
    cases href with
    | nil => exact trimStart_cons_of_not_isSpace (by decide) tail
    | cons c href => exact trimStart_cons_of_not_isSpace (hspace c List.mem_cons_self) _
  have hend : linkTitle? (')' :: tail) = some (none, ')' :: tail) := rfl
  have hlength : (bareTarget href ++ tail).length - tail.length = (bareTarget href).length := by
    rw [List.length_append, Nat.add_sub_cancel]
  rw [← hlength, htarget]
  simp only [destination?, hstart, linkHref?_bare h hspace hbracket,
    trimStart_cons_of_not_isSpace (by decide : isSpace ')' = false), hend]

/-- **Destinations are read back.**  A destination without a closing angle bracket and line feeds is
read back from angle brackets, with a title without quotes behind it; one without white space, with
balanced parentheses and not starting with an angle bracket is read back bare, without a title.
Whatever follows the closing parenthesis, the target is taken to that parenthesis and no further. -/
theorem destinations_read_back :
    (∀ href title : Text, '>' ∉ href → '\n' ∉ href → '"' ∉ title →
      ReadsBackAs (angledTarget href title) ⟨href, some title⟩) ∧
    ∀ href : Text, (∀ c ∈ href, isSpace c = false) → href.head? ≠ some '<' →
      Balanced '(' ')' href → ReadsBackAs (bareTarget href) ⟨href, none⟩ :=
  ⟨fun _ _ hbracket hfeed hquote =>
      readsBackAs_of_forall (destination?_angledTarget hbracket hfeed hquote),
    fun _ hspace hbracket h => readsBackAs_of_forall (destination?_bareTarget h hspace hbracket)⟩

/-- A destination with white space and an opening bracket, and one with parentheses and a quote. -/
theorem destinations_read_back_quotes :
    ('>' ∉ "é <(b".toList ∧ '\n' ∉ "é <(b".toList ∧ '"' ∉ "a)\n'c".toList ∧
      ReadsBackAs "(<é <(b> \"a)\n'c\")".toList ⟨"é <(b".toList, some "a)\n'c".toList⟩) ∧
    (∀ c ∈ "\"a(b)()c".toList, isSpace c = false) ∧ "\"a(b)()c".toList.head? ≠ some '<' ∧
      Balanced '(' ')' "\"a(b)()c".toList ∧
      ReadsBackAs "(\"a(b)()c)".toList ⟨"\"a(b)()c".toList, none⟩ := by
  have hangled : '>' ∉ "é <(b".toList ∧ '\n' ∉ "é <(b".toList ∧ '"' ∉ "a)\n'c".toList := by decide
  have hall : "\"a(b)()c".toList.all (!isSpace ·) = true := by decide
  have hspace : ∀ c ∈ "\"a(b)()c".toList, isSpace c = false := fun c hc => by
    simpa using List.all_eq_true.1 hall c hc
  have hbare : "\"a(b)()c".toList.head? ≠ some '<' ∧ Balanced '(' ')' "\"a(b)()c".toList := by
    decide
  exact ⟨⟨hangled.1, hangled.2.1, hangled.2.2,
      destinations_read_back.1 _ _ hangled.1 hangled.2.1 hangled.2.2⟩,
    hspace, hbare.1, hbare.2, destinations_read_back.2 _ hspace hbare.1 hbare.2⟩

end Docmark
