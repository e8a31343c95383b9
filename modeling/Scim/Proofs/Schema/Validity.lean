import Scim.Proofs.Except
import Scim.Schema.Basic

/-!
# Which schemas are valid

Each check of a schema succeeds on exactly those attributes that have the property it is about. Taken
together, a schema passes if and only if its lists are sound on every level, although the check never
looks further down than two levels: below the second it finds nothing to look at.
-/

namespace Scim

/-- What is asked of the attributes of a list, wherever the list stands. -/
structure Attribute.AreSound (attributes : List Attribute) : Prop where
  named : ∀ definition ∈ attributes, definition.name ≠ ""
  apart : attributes.Pairwise fun first second => Text.fold first.name ≠ Text.fold second.name
  textual : ∀ definition ∈ attributes, definition.canonicalValues ≠ [] →
    definition.type = .string ∨ definition.type = .reference

theorem Attribute.areSound_nil : AreSound [] := ⟨nofun, .nil, nofun⟩

theorem Attribute.areSound_cons_iff {first : Attribute} {rest : List Attribute} :
    AreSound (first :: rest) ↔
      first.name ≠ "" ∧
        (first.canonicalValues ≠ [] → first.type = .string ∨ first.type = .reference) ∧
        (∀ other ∈ rest, Text.fold other.name ≠ Text.fold first.name) ∧ AreSound rest := by
  constructor
  · rintro ⟨named, apart, textual⟩
    obtain ⟨different, apart⟩ := List.pairwise_cons.mp apart
    rw [List.forall_mem_cons] at named textual
    exact ⟨named.1, textual.1, fun other member => (different other member).symm, named.2, apart,
      textual.2⟩
  · rintro ⟨hasName, hasText, different, others⟩
    refine ⟨List.forall_mem_cons.mpr ⟨hasName, others.named⟩, ?_,
      List.forall_mem_cons.mpr ⟨hasText, others.textual⟩⟩
    exact List.pairwise_cons.mpr ⟨fun other member => (different other member).symm, others.apart⟩

namespace Schema

open Attribute

/-- The lists of attributes in a schema: its own, and those of the attributes on every level. -/
inductive HasList (schema : Schema) : List Attribute → Prop
  | whole : HasList schema schema.attributes
  | part {attributes : List Attribute} {definition : Attribute} :
    HasList schema attributes → definition ∈ attributes → HasList schema definition.subAttributes

/-- What is asked of a schema. -/
structure IsSound (schema : Schema) : Prop where
  id : Text.isBlankText schema.id = false
  lists : ∀ attributes, schema.HasList attributes → AreSound attributes
  complex : ∀ definition ∈ schema.attributes,
    definition.subAttributes ≠ [] ↔ definition.type = .complex
  flat : ∀ attributes, schema.HasList attributes → ∀ definition ∈ attributes,
    ∀ sub ∈ definition.subAttributes, sub.type ≠ .complex ∧ sub.subAttributes = []

/-! ### Single checks -/

section Checks

variable {report : Attribute → AttributeFault → SchemaError}
  {checkComplex : Attribute → Except SchemaError Unit} {seen : List (List Char)}
  {attributes : List Attribute} {definition : Attribute}

theorem checkParts_eq_ok_iff :
    checkParts report checkComplex definition = .ok () ↔
      (definition.subAttributes ≠ [] ↔ definition.type = .complex) ∧
        (definition.type = .complex → checkComplex definition = .ok ()) := by
  unfold checkParts isComplex
  by_cases complex : definition.type = .complex <;> by_cases noSubs : definition.subAttributes = [] <;>
    simp [complex, noSubs]

theorem checkCanonicalValues_eq_ok_iff :
    checkCanonicalValues report definition = .ok () ↔
      (definition.canonicalValues ≠ [] → definition.type = .string ∨ definition.type = .reference) := by
  unfold checkCanonicalValues
  by_cases noValues : definition.canonicalValues = [] <;> simp [noValues, ← not_or]

theorem checkAttribute_eq_ok_iff :
    checkAttribute report checkComplex seen definition = .ok () ↔
      definition.name ≠ "" ∧ Text.fold definition.name ∉ seen ∧
        checkParts report checkComplex definition = .ok () ∧
        checkCanonicalValues report definition = .ok () := by
  unfold checkAttribute
  by_cases unnamed : definition.name = ""
  · simp [unnamed]
  · by_cases known : Text.fold definition.name ∈ seen
    · simp [unnamed, known]
    · simp [unnamed, known, check_bind_eq_ok_iff]

/-- A list passes if it is sound, none of its names was seen before and every attribute has the parts
that it should have. -/
theorem checkAttributes_eq_ok_iff :
    checkAttributes report checkComplex seen attributes = .ok () ↔
      (∀ definition ∈ attributes, Text.fold definition.name ∉ seen) ∧ AreSound attributes ∧
        ∀ definition ∈ attributes, checkParts report checkComplex definition = .ok () := by
  -- Each name that is accepted joins the names that the rest is checked against.
  induction attributes generalizing seen with
  | nil => simp [checkAttributes, areSound_nil]
  | cons first rest ih =>
    rw [checkAttributes, check_bind_eq_ok_iff, checkAttribute_eq_ok_iff, checkCanonicalValues_eq_ok_iff,
      ih, areSound_cons_iff]
    simp only [List.forall_mem_cons]
    simp only [List.mem_cons, not_or]
    constructor
    · rintro ⟨⟨named, fresh, parts, textual⟩, others, sound, rest⟩
      exact ⟨⟨fresh, fun other member => (others other member).2⟩,
        ⟨named, textual, fun other member => (others other member).1, sound⟩, parts, rest⟩
    · rintro ⟨⟨fresh, others⟩, ⟨named, textual, different, sound⟩, parts, rest⟩
      exact ⟨⟨named, fresh, parts, textual⟩,
        fun other member => ⟨different other member, others other member⟩, sound, rest⟩

theorem checkSubAttributes_eq_ok_iff {id : String} {parent : Attribute} :
    checkSubAttributes id parent = .ok () ↔
      AreSound parent.subAttributes ∧
        ∀ sub ∈ parent.subAttributes, sub.type ≠ .complex ∧ sub.subAttributes = [] := by
  rw [checkSubAttributes, checkAttributes_eq_ok_iff]
  simp only [checkParts_eq_ok_iff, List.not_mem_nil, not_false_eq_true, implies_true, true_and,
    reduceCtorEq, imp_false]
  apply and_congr_right
  intro _
  refine forall₂_congr fun sub _ => ?_
  constructor
  · rintro ⟨parts, simple⟩
    exact ⟨simple, Classical.byContradiction fun hasSubs => simple (parts.mp hasSubs)⟩
  · rintro ⟨simple, noSubs⟩
    exact ⟨⟨fun hasSubs => absurd noSubs hasSubs, fun complex => absurd complex simple⟩, simple⟩

end Checks

/-! ### Whole schemas -/

variable {schema : Schema}

/-- Where sub-attributes have none of their own, there is nothing below them. -/
theorem HasList.cases_of_flat
    (flat : ∀ definition ∈ schema.attributes, ∀ sub ∈ definition.subAttributes, sub.subAttributes = [])
    {attributes : List Attribute} (has : schema.HasList attributes) :
    attributes = schema.attributes ∨
      (∃ definition ∈ schema.attributes, attributes = definition.subAttributes) ∨ attributes = [] := by
  induction has with
  | whole => exact .inl rfl
  | part has member ih =>
    rcases ih with rfl | ⟨parent, declared, rfl⟩ | rfl
    · exact .inr (.inl ⟨_, member, rfl⟩)
    · exact .inr (.inr (flat parent declared _ member))
    · cases member

theorem validate_eq_ok_iff : schema.validate = .ok () ↔ schema.IsSound := by
  have checked : schema.validate = .ok () ↔ Text.isBlankText schema.id = false ∧
      AreSound schema.attributes ∧ ∀ definition ∈ schema.attributes,
        (definition.subAttributes ≠ [] ↔ definition.type = .complex) ∧
          (definition.type = .complex → AreSound definition.subAttributes ∧
            ∀ sub ∈ definition.subAttributes, sub.type ≠ .complex ∧ sub.subAttributes = []) := by
    unfold validate
    by_cases blank : Text.isBlankText schema.id = true
    · simp [blank]
    · simp [blank, checkAttributes_eq_ok_iff, checkParts_eq_ok_iff, checkSubAttributes_eq_ok_iff]
  rw [checked]
  constructor
  · rintro ⟨notBlank, sound, each⟩
    have flat : ∀ definition ∈ schema.attributes, ∀ sub ∈ definition.subAttributes,
        sub.type ≠ .complex ∧ sub.subAttributes = [] := by
      intro definition declared sub member
      obtain ⟨parts, below⟩ := each definition declared
      exact (below (parts.mp (List.ne_nil_of_mem member))).2 sub member
    have known {attributes : List Attribute} (has : schema.HasList attributes) :=
      has.cases_of_flat fun definition declared sub member => (flat definition declared sub member).2
    -- Each list on any level is one of the lists that were checked, or empty.
    refine ⟨notBlank, fun attributes has => ?_, fun definition declared => (each definition declared).1,
      fun attributes has definition member => ?_⟩
    · rcases known has with rfl | ⟨definition, declared, rfl⟩ | rfl
      · exact sound
      · by_cases noSubs : definition.subAttributes = []
        · rw [noSubs]
          exact areSound_nil
        · obtain ⟨parts, below⟩ := each definition declared
          exact (below (parts.mp noSubs)).1
      · exact areSound_nil
    · rcases known has with rfl | ⟨parent, declared, rfl⟩ | rfl
      · exact flat definition member
      · rw [(flat parent declared definition member).2]
        exact nofun
      · cases member
  · intro sound
    refine ⟨sound.id, sound.lists _ .whole, fun definition declared => ?_⟩
    exact ⟨sound.complex definition declared, fun _ =>
      ⟨sound.lists _ (.part .whole declared), sound.flat _ .whole definition declared⟩⟩

end Schema

end Scim
