import Scim.Patch.Apply
import Scim.Proofs.Except

/-!
# Values that a definition accepts

Whether a value has the type of its attribute does not depend on the path under which a fault would be
reported. An array is accepted item by item and an object entry by entry, so that values can be taken
apart and put together again.
-/

namespace Scim

namespace Attribute

variable {path : String} {asMany : Bool} {definition : Attribute} {value : Json}

/-! ### Checking -/

theorem check_scalar_eq_ok_iff (scalar : value.isScalar = true) :
    definition.check path asMany value = .ok () ↔ definition.accepts value = true := by
  cases value with
  | array items => cases scalar
  | object entries => cases scalar
  | _ => simp [check]

/-- Scalars are accepted by simple attributes only. -/
theorem isComplex_eq_false_of_accepts (accepted : definition.accepts value = true) :
    definition.isComplex = false := by
  unfold isComplex
  cases type : definition.type with
  | complex => simp [accepts, type] at accepted
  | _ => rfl

theorem check_array_eq_ok_iff {items : List Json} :
    definition.check path asMany (.array items) = .ok () ↔
      asMany = true ∧ definition.multiValued = true ∧ checkItems path definition items = .ok () := by
  rw [check]
  cases asMany <;> cases definition.multiValued <;> simp

theorem check_object_eq_ok_iff {entries : Object} :
    definition.check path asMany (.object entries) = .ok () ↔
      definition.isComplex = true ∧ checkEntries path definition entries = .ok () := by
  rw [check]
  cases definition.isComplex <;> simp

theorem checkItems_eq_ok_iff {items : List Json} :
    checkItems path definition items = .ok () ↔
      ∀ item ∈ items, definition.check path false item = .ok () := by
  induction items with
  | nil => simp [checkItems]
  | cons item rest ih => rw [checkItems, check_bind_eq_ok_iff, ih, List.forall_mem_cons]

/-- Every entry of a complex value names a sub-attribute, and gives `null` or what that accepts. -/
theorem checkEntries_eq_ok_iff {entries : Object} :
    checkEntries path definition entries = .ok () ↔
      ∀ entry ∈ entries, ∃ sub, definition.sub? entry.1 = some sub ∧
        (entry.2.isNull = false → sub.check path true entry.2 = .ok ()) := by
  induction entries with
  | nil => simp [checkEntries]
  | cons entry rest ih =>
    obtain ⟨key, value⟩ := entry
    rw [checkEntries, List.forall_mem_cons, ← ih]
    cases named : definition.sub? key with
    | none => simp [throw, throwThe, MonadExceptOf.throw, bind, Except.bind]
    | some sub =>
      cases null : value.isNull <;> simp [check_bind_eq_ok_iff]

/-! ### Accepted values -/

/-- A value that the attribute accepts; with `asMany`, an array stands for the values of a
multi-valued attribute. -/
def Accepts (definition : Attribute) (asMany : Bool) (value : Json) : Prop :=
  definition.check "" asMany value = .ok ()

/-- A single value of the attribute. -/
abbrev IsValue (definition : Attribute) (value : Json) : Prop := definition.Accepts false value

/-- An entry of a complex value: it names a sub-attribute, and gives `null` or what that accepts. -/
def AcceptsEntry (definition : Attribute) (entry : String × Json) : Prop :=
  ∃ sub, definition.sub? entry.1 = some sub ∧ (entry.2.isNull = false → sub.Accepts true entry.2)

theorem isValue_object_iff {entries : Object} :
    definition.IsValue (.object entries) ↔
      definition.isComplex = true ∧ ∀ entry ∈ entries, definition.AcceptsEntry entry := by
  unfold IsValue Accepts
  rw [check_object_eq_ok_iff, checkEntries_eq_ok_iff]
  rfl

mutual

/-- A value is accepted under any path if it is accepted under one. -/
theorem accepts_of_check {path : String} {asMany : Bool} {definition : Attribute} :
    ∀ value, definition.check path asMany value = .ok () → definition.Accepts asMany value
  | .array items, checked => by
    obtain ⟨isMany, many, each⟩ := check_array_eq_ok_iff.mp checked
    exact check_array_eq_ok_iff.mpr ⟨isMany, many, checkItems_of_checkItems items each⟩
  | .object entries, checked => by
    obtain ⟨complex, each⟩ := check_object_eq_ok_iff.mp checked
    exact check_object_eq_ok_iff.mpr ⟨complex, checkEntries_of_checkEntries entries each⟩
  | .null, checked => (check_scalar_eq_ok_iff rfl).mpr ((check_scalar_eq_ok_iff rfl).mp checked)
  | .bool _, checked => (check_scalar_eq_ok_iff rfl).mpr ((check_scalar_eq_ok_iff rfl).mp checked)
  | .number _, checked => (check_scalar_eq_ok_iff rfl).mpr ((check_scalar_eq_ok_iff rfl).mp checked)
  | .string _, checked => (check_scalar_eq_ok_iff rfl).mpr ((check_scalar_eq_ok_iff rfl).mp checked)

theorem checkItems_of_checkItems {path : String} {definition : Attribute} :
    ∀ items, checkItems path definition items = .ok () → checkItems "" definition items = .ok ()
  | [], checked => checked
  | item :: rest, checked => by
    rw [checkItems, check_bind_eq_ok_iff] at checked ⊢
    exact ⟨accepts_of_check item checked.1, checkItems_of_checkItems rest checked.2⟩

theorem checkEntries_of_checkEntries {path : String} {definition : Attribute} :
    ∀ entries, checkEntries path definition entries = .ok () →
      checkEntries "" definition entries = .ok ()
  | [], checked => checked
  | (key, value) :: rest, checked => by
    rw [checkEntries_eq_ok_iff, List.forall_mem_cons, ← checkEntries_eq_ok_iff] at checked ⊢
    obtain ⟨⟨sub, named, head⟩, tail⟩ := checked
    refine ⟨⟨sub, named, fun notNull => ?_⟩, checkEntries_of_checkEntries rest tail⟩
    exact accepts_of_check value (head notNull)

end

end Attribute

end Scim
