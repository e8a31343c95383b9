import Scim.Filter.Matching

/-!
# The values that a term collects

A term asks the single values that are stored under an attribute, or those of a sub-attribute in all
elements. For presence this is all that a path stands for, and for a comparison it is if the attribute is
not complex.
-/

namespace Scim

namespace Json

/-- The values that a filter collects from a stored value: the single values in it, or those of a
sub-attribute. -/
def valuesOf (stored : Option Json) : Option Attribute → List Json
  | none => flatten stored
  | some sub => subValues stored sub.name

theorem valuesOf_none (sub : Option Attribute) : valuesOf none sub = [] := by
  cases sub <;> rfl

theorem flatten_of_scalar {value : Json} (scalar : value.isScalar = true)
    (present : value.isPresent = true) : flatten (some value) = [value] := by
  cases value with
  | null => cases present
  | array items => cases scalar
  | object entries => cases scalar
  | _ => rfl

end Json

/-- A comparison is decided by the collected values and by the definition that they fall under. -/
theorem Filter.isMatch_compare {view : View} {reference : Reference} {resolved : Resolved}
    {object : Object} {operator : Operator} {literal : Json}
    (bound : view.resolveAttribute? reference = some resolved)
    (simple : resolved.target.isComplex = false) :
    (Filter.compare reference operator literal).isMatch view (.object object) =
      operator.holdsForValues resolved.target
        (Json.valuesOf (resolved.value? object) resolved.sub) literal := by
  -- An attribute that is not complex does not stand for its `value`.
  have lookup : (Scope.resource object view).lookup? reference true =
      some (resolved.target, Json.valuesOf (resolved.value? object) resolved.sub) := by
    unfold Resolved.target at simple ⊢
    cases inner : resolved.sub with
    | none =>
      rw [inner] at simple
      simp [Scope.lookup?, bound, inner, Json.valuesOf] at simple ⊢
      simp [simple]
    | some sub => simp [Scope.lookup?, bound, inner, Json.valuesOf]
  rw [isMatch, holds, lookup]

/-- An attribute is present if one of the collected values holds something. -/
theorem Filter.isMatch_present {view : View} {reference : Reference} {resolved : Resolved}
    {object : Object} (bound : view.resolveAttribute? reference = some resolved) :
    (Filter.present reference).isMatch view (.object object) =
      (Json.valuesOf (resolved.value? object) resolved.sub).any Json.isPresent := by
  cases inner : resolved.sub <;> simp [isMatch, holds, Scope.lookup?, bound, inner, Json.valuesOf]

end Scim
