import Scim.Filter.Comparison
import Scim.Patch.ValueCheck
import Scim.Proofs.Filter.Writing
import Scim.Proofs.Number.Double

/-!
# Comparing a value with itself

A value that an attribute accepts is equal to itself under that attribute, whatever its type: texts up
to case or not, numbers by their order, date-times as instants.
-/

namespace Scim

theorem Text.order_self (text : List Char) : order text text = .eq := by
  unfold order
  rw [if_neg (List.lt_irrefl text), if_pos rfl]

namespace Number

/-- Every number that documents can hold has a binary64 number nearest to it. -/
theorem exists_toDouble?_eq_some {a : Number} (representable : a.IsRepresentable) :
    ∃ x, a.toDouble? = some x := by
  cases a with
  | integer n =>
    obtain ⟨least, below⟩ := representable
    have fits : n.natAbs < twoTo 64 := by
      have lower : (twoTo 63 : Int) < twoTo 64 := by decide
      omega
    exact Double.exists_ofInt?_eq_some fits (by decide)
  | float x => exact ⟨x, rfl⟩

/-- Equal numbers are equal in order as well. -/
theorem order?_of_same {a b : Number} (representable : b.IsRepresentable) (same : a.same b = true) :
    a.order? b = some .eq := by
  cases a with
  | integer n =>
    cases b with
    | integer m =>
      obtain rfl : n = m := by simpa [Number.same] using same
      -- Outside the signed 64-bit range the two are rounded, and to the same number.
      obtain ⟨x, rounded⟩ := exists_toDouble?_eq_some representable
      unfold order?
      cases exact : toInt64? (.integer n) with
      | some k => simp
      | none => simp [rounded, Double.order]
    | float y => cases same
  | float x =>
    cases b with
    | integer m => cases same
    | float y =>
      have equal : x.order y = .eq := Double.same_iff_order_eq.mp same
      simp [order?, toInt64?, toDouble?, equal]

end Number

namespace Json

variable {stored : Json}

theorem eq_of_same_string {text : String} (same : stored.same (.string text) = true) :
    stored = .string text := by
  cases stored <;> simp_all [Json.same]

theorem eq_of_same_bool {value : Bool} (same : stored.same (.bool value) = true) :
    stored = .bool value := by
  cases stored <;> simp_all [Json.same]

theorem exists_of_same_number {b : Number} (same : stored.same (.number b) = true) :
    ∃ a, stored = .number a ∧ a.same b = true := by
  cases stored <;> simp_all [Json.same]

end Json

namespace Operator

variable {definition : Attribute} {value stored : Json}

theorem holdsForText?_eq_self (caseExact : Bool) (text : String) :
    holdsForText? .eq caseExact text text = some true := by
  simp [holdsForText?, Text.order_self, holdsFor?]

/-- **A stored value that equals an accepted one is found by it.** -/
theorem holdsForValue?_of_same (accepted : definition.accepts value = true)
    (scalar : Filter.IsScalar value) (same : stored.same value = true) :
    holdsForValue? .eq definition stored value = some true := by
  -- The type of the attribute decides how values are compared, and which values there can be.
  cases value with
  | null => cases type : definition.type <;> simp [Attribute.accepts, type] at accepted
  | bool b =>
    obtain rfl := Json.eq_of_same_bool same
    cases type : definition.type <;>
      simp [Attribute.accepts, holdsForValue?, holdsForEquality?, Json.bool?, type] at accepted ⊢
  | number b =>
    obtain ⟨a, rfl, sameNumber⟩ := Json.exists_of_same_number same
    have equal := Number.order?_of_same scalar sameNumber
    cases type : definition.type <;>
      simp [Attribute.accepts, holdsForValue?, holdsFor?, equal, type] at accepted ⊢
  | string text =>
    obtain rfl := Json.eq_of_same_string same
    cases type : definition.type with
    | string | reference => simp [holdsForValue?, Json.string?, holdsForText?_eq_self, type]
    | binary => simp [holdsForValue?, Json.string?, holdsForEquality?, type]
    | dateTime =>
      -- One text is one instant.
      have readable : (Instant.read? text).isSome = true := by
        simpa [Attribute.accepts, type] using accepted
      obtain ⟨instant, read⟩ := Option.isSome_iff_exists.mp readable
      simp [holdsForValue?, Json.string?, holdsFor?, Instant.order, read, type]
    | _ => simp [Attribute.accepts, type] at accepted
  | array items => cases scalar
  | object entries => cases scalar

end Operator

end Scim
