import Mathlib.Data.List.Nodup
import Scim.Proofs.Schema.Validity

/-!
# Names in a valid schema

The attributes of a schema that has passed its checks have different names, also up to case, so that
a name finds one attribute and every attribute is found by its name. The same holds of the
sub-attributes of each of them, none of which is complex itself.
-/

namespace Scim

/-- Where keys are different, a key finds the element that has it. -/
theorem find?_key_iff {α β : Type} [BEq β] [LawfulBEq β] {key : α → β} {elements : List α}
    (apart : elements.Pairwise fun first second => key first ≠ key second) {sought : β} {element : α} :
    elements.find? (fun other => key other == sought) = some element ↔
      element ∈ elements ∧ key element = sought := by
  constructor
  · intro found
    exact ⟨List.mem_of_find?_eq_some found, by simpa using List.find?_some found⟩
  · rintro ⟨member, rfl⟩
    cases found : elements.find? (fun other => key other == key element) with
    | none =>
      have different := List.find?_eq_none.mp found element member
      simp at different
    | some other =>
      have same : key other = key element := by simpa using List.find?_some found
      rw [List.inj_on_of_nodup_map (List.pairwise_map.mpr apart) (List.mem_of_find?_eq_some found) member
        same]

namespace Attribute

variable {attributes : List Attribute} {definition : Attribute} {name : String}

/-- What is found by a name is in the list and has that name. -/
theorem find?_eq_some (found : find? attributes name = some definition) :
    definition ∈ attributes ∧ Text.fold definition.name = Text.fold name := by
  have same : Text.sameName definition.name name = true := by simpa using List.find?_some found
  exact ⟨List.mem_of_find?_eq_some found, Text.sameName_iff.mp same⟩

/-- Names that are the same up to case find the same attribute. -/
theorem find?_congr {other : String} (same : Text.fold name = Text.fold other) :
    find? attributes name = find? attributes other := by
  unfold find? Text.sameName
  rw [same]

/-- What has been found is found by its declared name. -/
theorem find?_again (found : find? attributes name = some definition) :
    find? attributes definition.name = some definition :=
  (find?_congr (find?_eq_some found).2).trans found

/-- Where names are different, a name finds the attribute that has it. -/
theorem find?_eq_some_iff
    (apart : attributes.Pairwise fun first second => Text.fold first.name ≠ Text.fold second.name) :
    find? attributes name = some definition ↔
      definition ∈ attributes ∧ Text.fold definition.name = Text.fold name :=
  find?_key_iff apart

end Attribute

namespace Schema

variable {schema : Schema} {definition : Attribute}

theorem names_of_validate (valid : schema.validate = .ok ()) :
    schema.attributes.Pairwise fun first second => Text.fold first.name ≠ Text.fold second.name :=
  ((validate_eq_ok_iff.mp valid).lists _ .whole).apart

/-- Attributes with one name are one attribute. -/
theorem eq_of_fold_name_eq (valid : schema.validate = .ok ()) {first second : Attribute}
    (member : first ∈ schema.attributes) (memberSecond : second ∈ schema.attributes)
    (same : Text.fold first.name = Text.fold second.name) : first = second :=
  List.inj_on_of_nodup_map (List.pairwise_map.mpr (names_of_validate valid)) member memberSecond same

/-- An attribute is what its name finds. -/
theorem find?_name (valid : schema.validate = .ok ()) (declared : definition ∈ schema.attributes) :
    schema.find? definition.name = some definition :=
  (Attribute.find?_eq_some_iff (names_of_validate valid)).mpr ⟨declared, rfl⟩

/-! ### Sub-attributes -/

theorem subNames_of_validate (valid : schema.validate = .ok ())
    (declared : definition ∈ schema.attributes) :
    definition.subAttributes.Pairwise fun first second => Text.fold first.name ≠ Text.fold second.name :=
  ((validate_eq_ok_iff.mp valid).lists _ (.part .whole declared)).apart

/-- Only a complex attribute has sub-attributes. -/
theorem isComplex_of_mem_subAttributes (valid : schema.validate = .ok ()) {sub : Attribute}
    (declared : definition ∈ schema.attributes) (member : sub ∈ definition.subAttributes) :
    definition.isComplex = true := by
  have complex := (validate_eq_ok_iff.mp valid).complex definition declared
  simp [Attribute.isComplex, complex.mp (List.ne_nil_of_mem member)]

/-- A sub-attribute is what its name finds among the sub-attributes. -/
theorem sub?_name (valid : schema.validate = .ok ()) {sub : Attribute}
    (declared : definition ∈ schema.attributes) (member : sub ∈ definition.subAttributes) :
    definition.sub? sub.name = some sub :=
  (Attribute.find?_eq_some_iff (subNames_of_validate valid declared)).mpr ⟨member, rfl⟩

/-- Complex attributes are not nested. -/
theorem sub_isComplex (valid : schema.validate = .ok ()) {sub : Attribute}
    (declared : definition ∈ schema.attributes) (member : sub ∈ definition.subAttributes) :
    sub.isComplex = false := by
  have flat := (validate_eq_ok_iff.mp valid).flat _ .whole definition declared sub member
  simp [Attribute.isComplex, flat.1]

/-! ### Validation -/

/-- **Exactness of validation**: a schema is accepted if and only if its URN is not blank, its lists are
sound on every level, complex attributes and no others have sub-attributes, and these have none of their
own. In a schema that is accepted, every attribute and every sub-attribute is what all spellings of its
name find. -/
theorem validate_iff_isSound (schema : Schema) :
    (schema.validate = .ok () ↔ schema.IsSound) ∧
    (schema.validate = .ok () → ∀ definition ∈ schema.attributes,
      (∀ name, Text.fold name = Text.fold definition.name → schema.find? name = some definition) ∧
      ∀ sub ∈ definition.subAttributes, ∀ name, Text.fold name = Text.fold sub.name →
        definition.sub? name = some sub) := by
  refine ⟨validate_eq_ok_iff, fun valid definition declared => ⟨fun name same => ?_, ?_⟩⟩
  · exact (Attribute.find?_congr same).trans (find?_name valid declared)
  · intro sub member name same
    exact (Attribute.find?_congr same).trans (sub?_name valid declared member)

theorem validate_iff_isSound_badge :
    let colour : Attribute := { name := "colour", canonicalValues := ["red", "blue"] }
    let badge : Attribute := { name := "badge", type := .complex, subAttributes := [colour] }
    let schema : Schema := { id := "urn:acme:2.0:Card", attributes := [badge, { name := "badge-2" }] }
    schema.validate = .ok () ∧ schema.find? "BADGE" = some badge ∧ badge.sub? "Colour" = some colour := by
  intro colour badge schema
  have valid : schema.validate = .ok () := by decide +kernel
  obtain ⟨found, below⟩ := (validate_iff_isSound schema).2 valid badge (by simp [schema])
  exact ⟨valid, found "BADGE" (by decide), below colour (by simp [badge]) "Colour" (by decide)⟩

end Schema

end Scim
