import Mathlib
import Docmark.Html.Node
import Docmark.Proofs.Html.WellFormed

/-!
# Written attributes

The attributes of a node are written as attributes of well-formed markup.  Names that come from a
document are checked where they are read: a callout's free text yields only attributes whose names
are made of name characters and whose values are pieces of the text.

## Main results

* `attributesIn_spec` — what a free text yields as attributes.
* `Attribute.shows_of_names` — attributes with values from a document, as they are written.
-/

namespace Docmark

/-! ## Names -/

/-- The names of all attributes that are written, but for those that come from a document. -/
def attributeNames : List String :=
  ["id", "class", "href", "title", "src", "alt", "style", "start", "type", "disabled", "checked",
    "frameborder", "allowfullscreen", "data-throw-if-not-resolved", "data-raw-source"]

lemma isAttributeName_of_mem {name : String} (h : name ∈ attributeNames) :
    IsAttributeName name.toList := by
  have hall : ∀ name ∈ attributeNames, IsAttributeName name.toList := by
    simp [attributeNames, IsAttributeName]
  exact hall name h

/-! ## Attributes in free text -/

lemma isAttributeNameChar_iff {c : Char} :
    isAttributeNameChar c ↔ c.isAlphanum ∨ c ∈ ['-', '_', ':', '.'] := by
  simp [isAttributeNameChar, or_assoc]

lemma startsAttribute.isAttributeNameChar {c : Char} (h : startsAttribute c) :
    isAttributeNameChar c := by
  simp only [startsAttribute, Bool.or_eq_true] at h
  rw [isAttributeNameChar_iff]
  rcases h with h | h
  · exact .inl (by simp [Char.isAlphanum, h])
  · exact .inr (by simp_all)

/-- A name starts with a character that names start with, and goes on as long as it may. -/
lemma isAttributeName_of_rest {cs : Text} (h : cs.dropWhile (fun c => !startsAttribute c) ≠ []) :
    IsAttributeName ((cs.dropWhile fun c => !startsAttribute c).take 1 ++
      ((cs.dropWhile fun c => !startsAttribute c).drop 1).takeWhile isAttributeNameChar) := by
  have hhead := List.head_dropWhile_not (fun c => !startsAttribute c) h
  obtain ⟨c, rest, hrest⟩ := List.exists_cons_of_ne_nil h
  simp only [hrest, List.head_cons, Bool.not_eq_false'] at hhead
  rw [hrest]
  refine ⟨by simp, ?_⟩
  intro d hd
  rw [← isAttributeNameChar_iff]
  rcases List.mem_append.1 hd with hd | hd
  · obtain rfl : d = c := by simpa using hd
    exact startsAttribute.isAttributeNameChar (by simpa using hhead)
  · exact List.mem_takeWhile_imp hd

/-- A value and what follows it are pieces of the text that they are read from. -/
lemma attributeText_infix (cs : Text) :
    (attributeText cs).1 <:+: cs ∧ (attributeText cs).2 <:+ cs := by
  simp only [attributeText]
  split
  next => exact ⟨List.infix_rfl, List.suffix_rfl⟩
  next c rest =>
    split
    next =>
      have hvalue := (List.takeWhile_prefix (fun d => decide (d ≠ c)) (l := rest)).isInfix
      exact ⟨hvalue.trans (List.suffix_cons c rest).isInfix,
        (List.drop_suffix _ rest).trans (List.suffix_cons c rest)⟩
    next => exact ⟨(List.takeWhile_prefix _).isInfix, List.drop_suffix _ _⟩

/-- **Attributes in free text.**  Whatever the text, each attribute found in it has a name made of
name characters, and a value, if any, that is a piece of the text. -/
theorem attributesIn_spec (cs : Text) :
    ∀ a ∈ attributesIn cs, IsAttributeName a.name ∧ ∀ v, a.value = some v → v <:+: cs := by
  fun_induction attributesIn cs with
  | case1 cs rest h => simp
  | case2 cs rest h name after hrest ih =>
    have hafter : after <:+ cs :=
      (List.suffix_cons '=' after).trans
        (hrest ▸ (List.drop_suffix _ rest).trans (List.dropWhile_suffix _))
    obtain ⟨hvalue, htail⟩ := attributeText_infix after
    intro a ha
    rcases List.mem_cons.1 ha with rfl | ha
    · refine ⟨isAttributeName_of_rest h, ?_⟩
      rintro v ⟨⟩
      exact hvalue.trans hafter.isInfix
    · obtain ⟨hname, hv⟩ := ih a ha
      exact ⟨hname, fun v hav => (hv v hav).trans (htail.trans hafter).isInfix⟩
  | case3 cs rest h name hrest ih =>
    intro a ha
    rcases List.mem_cons.1 ha with rfl | ha
    · exact ⟨isAttributeName_of_rest h, by simp⟩
    · obtain ⟨hname, hv⟩ := ih a ha
      have htail : rest.drop name.length <:+ cs :=
        (List.drop_suffix _ rest).trans (List.dropWhile_suffix _)
      exact ⟨hname, fun v hav => (hv v hav).trans htail.isInfix⟩

/-! ## Values -/

/-- Letters, digits, hyphens and colons are written as they are. -/
lemma escapeHtml_fixed {v : Text} (hv : IsFixedValue v) : escapeHtml v = v := by
  induction v with
  | nil => rfl
  | cons c cs ih =>
    have hc : c ∉ ['&', '<', '>', '"', '\''] := by
      intro hmem
      have hfixed := hv c List.mem_cons_self
      simp only [List.mem_cons, List.not_mem_nil, or_false] at hmem
      rcases hmem with rfl | rfl | rfl | rfl | rfl
      all_goals exact absurd hfixed (by decide)
    rw [escapeHtml_cons, ih fun d hd => hv d (List.mem_cons_of_mem _ hd)]
    simp only [List.mem_cons, List.not_mem_nil, or_false, not_or] at hc
    simp [escapeChar, hc]

/-- A value that does not come from a document. -/
lemma WellFormedValue.of_fixed {v : Text} (hv : IsFixedValue v) :
    WellFormedValue [] (escapeHtml v) := by
  rw [escapeHtml_fixed hv]
  exact .fixed hv

/-- A text from a document behind a fixed start. -/
lemma WellFormedValue.of_append {v : Text} (hv : IsFixedValue v) (t : Text) :
    WellFormedValue [t] (escapeHtml (v ++ t)) := by
  have happend : escapeHtml (v ++ t) = escapeHtml v ++ escapeHtml t := List.flatMap_append
  rw [happend, escapeHtml_fixed hv]
  exact .escaped hv (escapeHtml_escapes t)

/-- A text from a document. -/
lemma WellFormedValue.of_text (t : Text) : WellFormedValue [t] (escapeHtml t) :=
  of_append (v := []) (by simp [IsFixedValue]) t

/-! ## Lists of attributes -/

namespace Attribute

/-- Attributes that are written as those of well-formed markup, with the given texts in them. -/
def Shows (ps : List Text) (as : List Attribute) : Prop :=
  WellFormedAttributes ps (as.flatMap Attribute.write)

variable {ps qs : List Text} {as : List Attribute}

lemma Shows.nil : Shows [] [] := WellFormedAttributes.nil

/-- One more attribute with a value in front of others. -/
lemma Shows.cons {name : String} {v : Text} (hname : name ∈ attributeNames)
    (hv : WellFormedValue ps (escapeHtml v)) (has : Shows qs as) :
    Shows (ps ++ qs) (.of name v :: as) := by
  simpa [Shows, Attribute.write, Attribute.of] using
    WellFormedAttributes.quoted (isAttributeName_of_mem hname) hv has

lemma Shows.cons_fixed {name : String} {v : Text} (hname : name ∈ attributeNames)
    (hv : IsFixedValue v) (has : Shows qs as) : Shows qs (.of name v :: as) :=
  Shows.cons hname (.of_fixed hv) has

lemma Shows.cons_text {name : String} {t : Text} (hname : name ∈ attributeNames)
    (has : Shows qs as) : Shows (t :: qs) (.of name t :: as) :=
  Shows.cons hname (.of_text t) has

/-- Attributes whose values all come from a document. -/
lemma shows_of_names (h : ∀ a ∈ as, IsAttributeName a.name) :
    Shows (as.filterMap (·.value)) as := by
  induction as with
  | nil => exact Shows.nil
  | cons a as ih =>
    have hname := h a List.mem_cons_self
    have has := ih fun b hb => h b (List.mem_cons_of_mem _ hb)
    obtain ⟨name, value⟩ := a
    cases value with
    | none => simpa [Shows, Attribute.write] using WellFormedAttributes.bare hname has
    | some v =>
      simpa [Shows, Attribute.write] using WellFormedAttributes.quoted hname (.of_text v) has

end Attribute

end Docmark
