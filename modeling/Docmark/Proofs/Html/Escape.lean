import Mathlib
import Docmark.Html.Escape

/-!
# Escaped text

What it means that a text is written in escaped form, said without the function that escapes: none
of the four characters that end a text or a quoted value occurs, every ampersand starts one of the
five entities, and putting the characters back in the place of the entities gives the text.
-/

namespace Docmark

/-- The entities that are written for the characters with a meaning in HTML. -/
def entities : List Text :=
  ["&amp;".toList, "&lt;".toList, "&gt;".toList, "&quot;".toList, "&#39;".toList]

/-- Puts the five characters back in the place of their entities. -/
def unescape : Text → Text
  | [] => []
  | '&' :: 'a' :: 'm' :: 'p' :: ';' :: cs => '&' :: unescape cs
  | '&' :: 'l' :: 't' :: ';' :: cs => '<' :: unescape cs
  | '&' :: 'g' :: 't' :: ';' :: cs => '>' :: unescape cs
  | '&' :: 'q' :: 'u' :: 'o' :: 't' :: ';' :: cs => '"' :: unescape cs
  | '&' :: '#' :: '3' :: '9' :: ';' :: cs => '\'' :: unescape cs
  | c :: cs => c :: unescape cs

/-- `written` is an escaped form of `t`. -/
structure Escapes (t written : Text) : Prop where
  /-- Nothing in it opens or closes a tag or a quoted value. -/
  inert : ∀ c ∈ written, c ∉ ['<', '>', '"', '\'']
  /-- An ampersand stands at the start of an entity and nowhere else. -/
  entity : ∀ before after, written = before ++ '&' :: after →
    ∃ e ∈ entities, e <+: '&' :: after
  unescape_eq : unescape written = t

/-! ## One character -/

/-- A character is written as an entity, or has no meaning in HTML and is written as it is. -/
lemma escapeChar_cases (c : Char) :
    escapeChar c ∈ entities ∨ escapeChar c = [c] ∧ c ∉ ['&', '<', '>', '"', '\''] := by
  simp only [escapeChar]
  split_ifs with h₁ h₂ h₃ h₄ h₅
  · exact .inl (by decide)
  · exact .inl (by decide)
  · exact .inl (by decide)
  · exact .inl (by decide)
  · exact .inl (by decide)
  · exact .inr ⟨rfl, by simp [h₁, h₂, h₃, h₄, h₅]⟩

/-- An entity has its ampersand at the start, and no other character with a meaning in HTML. -/
lemma entities_spec {e : Text} (he : e ∈ entities) :
    ∃ name, e = '&' :: name ∧ ∀ c ∈ name, c ∉ ['&', '<', '>', '"', '\''] := by
  have hall : ∀ e ∈ entities, e.head? = some '&' ∧
      ∀ c ∈ e.tail, c ∉ ['&', '<', '>', '"', '\''] := by simp [entities]
  obtain ⟨hhead, htail⟩ := hall e he
  exact ⟨e.tail, (List.cons_head?_tail hhead).symm, htail⟩

lemma unescape_cons_of_ne {c : Char} {cs : Text} (h : c ≠ '&') :
    unescape (c :: cs) = c :: unescape cs := by
  rw [unescape.eq_7]
  all_goals
    intro cs' hc
    exact absurd hc h

/-- What stands for a character is read back as that character. -/
lemma unescape_escapeChar (c : Char) (cs : Text) :
    unescape (escapeChar c ++ cs) = c :: unescape cs := by
  simp only [escapeChar]
  split
  next h => rw [h]; rfl
  next hamp =>
    split
    next h => rw [h]; rfl
    next =>
      split
      next h => rw [h]; rfl
      next =>
        split
        next h => rw [h]; rfl
        next =>
          split
          next h => rw [h]; rfl
          next => exact unescape_cons_of_ne hamp

/-! ## Texts -/

@[simp] lemma escapeHtml_nil : escapeHtml [] = [] := rfl

@[simp] lemma escapeHtml_cons (c : Char) (cs : Text) :
    escapeHtml (c :: cs) = escapeChar c ++ escapeHtml cs := rfl

lemma escapeHtml_inert (t : Text) : ∀ c ∈ escapeHtml t, c ∉ ['<', '>', '"', '\''] := by
  intro c hc
  obtain ⟨d, -, hd⟩ := List.mem_flatMap.1 hc
  rcases escapeChar_cases d with he | ⟨he, hplain⟩
  · obtain ⟨name, hname, hinert⟩ := entities_spec he
    rw [hname] at hd
    rcases List.mem_cons.1 hd with rfl | hd
    · decide
    · exact fun hmem => hinert c hd (List.mem_cons_of_mem _ hmem)
  · rw [he, List.mem_singleton] at hd
    rw [hd]
    exact fun hmem => hplain (List.mem_cons_of_mem _ hmem)

lemma escapeHtml_entity {t before after : Text} (h : escapeHtml t = before ++ '&' :: after) :
    ∃ e ∈ entities, e <+: '&' :: after := by
  induction t generalizing before with
  | nil => simp at h
  | cons c cs ih =>
    rw [escapeHtml_cons] at h
    rcases List.append_eq_append_iff.1 h with ⟨bs, rfl, hrest⟩ | ⟨bs, hc, hrest⟩
    · -- the ampersand lies behind what is written for this character
      exact ih hrest
    · cases bs with
      | nil => exact @ih [] hrest.symm
      | cons b bs =>
        obtain ⟨rfl, rfl⟩ := List.cons.inj hrest
        rcases escapeChar_cases c with he | ⟨he, hplain⟩
        · -- an entity has no other ampersand than its first character
          obtain ⟨name, hname, hinert⟩ := entities_spec he
          rw [hname] at hc he
          cases before with
          | nil =>
            obtain ⟨-, rfl⟩ := List.cons.inj hc
            exact ⟨_, he, List.prefix_append ('&' :: name) _⟩
          | cons d before =>
            obtain ⟨-, rfl⟩ := List.cons.inj hc
            exact absurd List.mem_cons_self (hinert '&' (by simp))
        · have hmem : '&' ∈ escapeChar c := by simp [hc]
          rw [he, List.mem_singleton] at hmem
          exact absurd (hmem ▸ List.mem_cons_self) hplain

/-- What is written for a text is an escaped form of it. -/
theorem escapeHtml_escapes (t : Text) : Escapes t (escapeHtml t) where
  inert := escapeHtml_inert t
  entity _ _ h := escapeHtml_entity h
  unescape_eq := by
    induction t with
    | nil => rfl
    | cons c cs ih => rw [escapeHtml_cons, unescape_escapeChar, ih]

end Docmark
