import Mathlib
import Docmark.Proofs.Html.Escape

/-!
# Well-formed markup

The grammar of the HTML that is written, on texts and without the trees it is written from: elements
of a fixed list of names, each with its end tag and properly nested, attributes with quoted values
or none, and between them escaped text and white space.

The grammar also tells which pieces of text have been put into the markup: `WellFormed ps out` says
that the texts `ps` stand in `out`, in this order and each of them escaped, and that everything else
in it is fixed by the grammar.

## Main results

* `WellFormed.startsTag` — every `<` in well-formed markup starts a start tag or an end tag of the
  list.
-/

namespace Docmark

/-! ## Names -/

/-- The elements that are written with an end tag, headings aside. -/
def elementNames : List String :=
  ["p", "pre", "code", "blockquote", "ol", "ul", "li", "table", "thead", "tbody", "tr", "th", "td",
    "div", "iframe", "a", "strong", "em", "del", "xref"]

/-- The elements that are written without an end tag. -/
def voidNames : List String := ["hr", "br", "img", "input"]

/-- An element with an end tag; there are headings of every level. -/
def IsElementName (name : String) : Prop := name ∈ elementNames ∨ ∃ level : Nat, name = s!"h{level}"

/-- An attribute name: ASCII letters and digits, hyphens, underscores, colons and dots. -/
def IsAttributeName (name : Text) : Prop :=
  name ≠ [] ∧ ∀ c ∈ name, c.isAlphanum ∨ c ∈ ['-', '_', ':', '.']

/-- A value, or the start of one, that does not come from a document. -/
def IsFixedValue (v : Text) : Prop := ∀ c ∈ v, c.isAlphanum ∨ c ∈ ['-', ':']

/-! ## The grammar -/

/-- An attribute value, fixed or with a text escaped behind a fixed start. -/
inductive WellFormedValue : List Text → Text → Prop where
  | fixed {v : Text} (hv : IsFixedValue v) : WellFormedValue [] v
  | escaped {v t written : Text} (hv : IsFixedValue v) (ht : Escapes t written) :
    WellFormedValue [t] (v ++ written)

/-- The attributes of a start tag, each with a blank in front of it. -/
inductive WellFormedAttributes : List Text → Text → Prop where
  | nil : WellFormedAttributes [] []
  | bare {ps : List Text} {name rest : Text} (hname : IsAttributeName name)
    (hrest : WellFormedAttributes ps rest) : WellFormedAttributes ps (' ' :: name ++ rest)
  | quoted {ps qs : List Text} {name v rest : Text} (hname : IsAttributeName name)
    (hv : WellFormedValue ps v) (hrest : WellFormedAttributes qs rest) :
    WellFormedAttributes (ps ++ qs) (' ' :: name ++ '=' :: '"' :: v ++ '"' :: rest)

/-- Markup in which the given texts stand escaped. -/
inductive WellFormed : List Text → Text → Prop where
  | nil : WellFormed [] []
  | append {ps qs : List Text} {a b : Text} (ha : WellFormed ps a) (hb : WellFormed qs b) :
    WellFormed (ps ++ qs) (a ++ b)
  | space {c : Char} (hc : c ∈ ['\n', ' ']) : WellFormed [] [c]
  | text {t written : Text} (ht : Escapes t written) : WellFormed [t] written
  | void {ps : List Text} {name : String} {attributes : Text} (hname : name ∈ voidNames)
    (hattributes : WellFormedAttributes ps attributes) :
    WellFormed ps ('<' :: name.toList ++ attributes ++ ['>'])
  | element {ps qs : List Text} {name : String} {attributes inner : Text}
    (hname : IsElementName name) (hattributes : WellFormedAttributes ps attributes)
    (hinner : WellFormed qs inner) :
    WellFormed (ps ++ qs) ('<' :: name.toList ++ attributes ++ '>' :: inner ++
      '<' :: '/' :: name.toList ++ ['>'])

/-! ## Where tags start -/

/-- What stands behind a `<` that starts a tag of the list: a name and the blank or the bracket that
ends it, or for an end tag a slash, a name and the bracket. -/
def StartsTag (after : Text) : Prop :=
  ∃ name, (name ∈ voidNames ∨ IsElementName name) ∧
    (name.toList ++ [' '] <+: after ∨ name.toList ++ ['>'] <+: after ∨
      '/' :: name.toList ++ ['>'] <+: after)

/-- Every `<` of a text starts a tag of the list. -/
def TagsOnly (out : Text) : Prop :=
  ∀ before after, out = before ++ '<' :: after → StartsTag after

lemma StartsTag.append {after : Text} (h : StartsTag after) (rest : Text) :
    StartsTag (after ++ rest) := by
  obtain ⟨name, hname, h⟩ := h
  refine ⟨name, hname, ?_⟩
  have hmono {a : Text} (ha : a <+: after) : a <+: after ++ rest :=
    ha.trans (List.prefix_append after rest)
  exact h.imp hmono (Or.imp hmono hmono)

lemma TagsOnly.append {a b : Text} (ha : TagsOnly a) (hb : TagsOnly b) : TagsOnly (a ++ b) := by
  intro before after h
  rcases List.append_eq_append_iff.1 h with ⟨bs, rfl, hrest⟩ | ⟨bs, rfl, hrest⟩
  · exact hb bs after hrest
  · cases bs with
    | nil => exact hb [] after hrest.symm
    | cons c bs =>
      obtain ⟨rfl, rfl⟩ := List.cons.inj hrest
      exact (ha before bs rfl).append b

lemma tagsOnly_of_not_mem {a : Text} (h : '<' ∉ a) : TagsOnly a := by
  rintro before after rfl
  simp at h

lemma TagsOnly.cons {rest : Text} (hstart : StartsTag rest) (hrest : TagsOnly rest) :
    TagsOnly ('<' :: rest) := by
  intro before after h
  cases before with
  | nil =>
    obtain ⟨-, rfl⟩ := List.cons.inj h
    exact hstart
  | cons c before =>
    obtain ⟨-, rfl⟩ := List.cons.inj h
    exact hrest before after rfl

/-! ## Names and attributes hold no bracket -/

/-- A decimal number is written in letters and digits. -/
lemma isAlphanum_of_mem_toString {n : Nat} {c : Char} (h : c ∈ (toString n).toList) :
    c.isAlphanum := by
  rw [Nat.toString_eq_ofList_toDigits, String.toList_ofList] at h
  have hdigit := Nat.isDigit_of_mem_toDigits (by decide) (by decide) h
  simp [Char.isAlphanum, hdigit]

lemma IsElementName.not_mem {name : String} (h : IsElementName name) : '<' ∉ name.toList := by
  rcases h with h | ⟨level, rfl⟩
  · have hall : ∀ name ∈ elementNames, '<' ∉ name.toList := by simp [elementNames]
    exact hall name h
  · intro hmem
    have htoList : (s!"h{level}").toList = 'h' :: (toString level).toList := by
      rw [String.toList_append]
      rfl
    rw [htoList] at hmem
    rcases List.mem_cons.1 hmem with hmem | hmem
    · exact absurd hmem (by decide)
    · exact absurd (isAlphanum_of_mem_toString hmem) (by decide)

lemma not_mem_of_mem_voidNames {name : String} (h : name ∈ voidNames) : '<' ∉ name.toList := by
  have hall : ∀ name ∈ voidNames, '<' ∉ name.toList := by simp [voidNames]
  exact hall name h

lemma WellFormedValue.not_mem {ps : List Text} {v : Text} (h : WellFormedValue ps v) :
    '<' ∉ v := by
  have hfixed {v : Text} (hv : IsFixedValue v) : '<' ∉ v := fun hmem =>
    absurd (hv '<' hmem) (by decide)
  cases h with
  | fixed hv => exact hfixed hv
  | escaped hv ht =>
    intro hmem
    rcases List.mem_append.1 hmem with hmem | hmem
    · exact hfixed hv hmem
    · exact ht.inert '<' hmem List.mem_cons_self

lemma WellFormedAttributes.not_mem {ps : List Text} {as : Text} (h : WellFormedAttributes ps as) :
    '<' ∉ as := by
  have hname {name : Text} (hname : IsAttributeName name) : '<' ∉ name := fun hmem =>
    absurd (hname.2 '<' hmem) (by decide)
  induction h with
  | nil => simp
  | bare hn _ ih => simp [hname hn, ih]
  | quoted hn hv _ ih => simp [hname hn, hv.not_mem, ih]

/-- Attributes start with a blank, if there are any. -/
lemma WellFormedAttributes.head {ps : List Text} {as : Text} (h : WellFormedAttributes ps as) :
    as = [] ∨ ∃ rest, as = ' ' :: rest := by
  cases h with
  | nil => exact .inl rfl
  | bare => exact .inr ⟨_, rfl⟩
  | quoted => exact .inr ⟨_, rfl⟩

/-- A start tag of the list, behind its first bracket. -/
lemma WellFormedAttributes.startsTag {ps : List Text} {name : String} {as : Text}
    (h : WellFormedAttributes ps as) (hname : name ∈ voidNames ∨ IsElementName name)
    (rest : Text) : StartsTag (name.toList ++ as ++ '>' :: rest) := by
  refine ⟨name, hname, ?_⟩
  rcases h.head with rfl | ⟨as, rfl⟩
  · exact .inr (.inl ⟨rest, by simp⟩)
  · exact .inl ⟨as ++ '>' :: rest, by simp⟩

/-- **Tags only.**  Every `<` in well-formed markup starts a tag of the list. -/
theorem WellFormed.tagsOnly {ps : List Text} {out : Text} (h : WellFormed ps out) :
    TagsOnly out := by
  induction h with
  | nil => exact tagsOnly_of_not_mem (by simp)
  | append _ _ iha ihb => exact iha.append ihb
  | space hc =>
    refine tagsOnly_of_not_mem fun hmem => ?_
    rw [← List.mem_singleton.1 hmem] at hc
    exact absurd hc (by decide)
  | text ht => exact tagsOnly_of_not_mem fun hmem => ht.inert '<' hmem List.mem_cons_self
  | void hname hattributes =>
    refine TagsOnly.cons (hattributes.startsTag (.inl hname) []) (tagsOnly_of_not_mem ?_)
    simp [not_mem_of_mem_voidNames hname, hattributes.not_mem]
  | @element ps qs name attributes inner hname hattributes _ ih =>
    have hclose : TagsOnly ('<' :: ('/' :: name.toList ++ ['>'])) := by
      refine TagsOnly.cons ⟨name, .inr hname, .inr (.inr List.prefix_rfl)⟩
        (tagsOnly_of_not_mem ?_)
      simp [hname.not_mem]
    have hopen : TagsOnly (name.toList ++ attributes ++ ['>']) := by
      refine tagsOnly_of_not_mem ?_
      simp [hname.not_mem, hattributes.not_mem]
    have hstart := hattributes.startsTag (.inr hname)
      (inner ++ '<' :: ('/' :: name.toList ++ ['>']))
    have hall : TagsOnly ('<' :: (name.toList ++ attributes ++ ['>'] ++ inner ++
        '<' :: ('/' :: name.toList ++ ['>']))) :=
      TagsOnly.cons (by simpa using hstart) ((hopen.append ih).append hclose)
    simpa using hall

end Docmark
