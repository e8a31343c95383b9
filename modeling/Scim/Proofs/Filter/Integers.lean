import Scim.Proofs.Filter.Equality
import Scim.Proofs.Filter.Lookup
import Scim.Proofs.Number.Order

/-!
# Comparing integers

Two integers of the signed 64-bit range are compared as they are. The unsigned range goes further, and
as soon as one of the two lies beyond the signed one, both are rounded to binary64 first. Rounding
keeps the order, so a comparison goes wrong in one way only: two different integers that have one
nearest number count as equal. All integers that this can happen to lie close to `2 ^ 63` or above.
-/

namespace Scim

namespace Number

variable {n m : Int}

/-- Two different integers that are taken for equal: they are rounded to be compared, and to the same
number. -/
def Collide (n m : Int) : Prop :=
  n ≠ m ∧ ((integer n).toInt64? = none ∨ (integer m).toInt64? = none) ∧
    Double.ofInt? n = Double.ofInt? m

instance (n m : Int) : Decidable (Collide n m) :=
  inferInstanceAs (Decidable (n ≠ m ∧ _ ∧ Double.ofInt? n = Double.ofInt? m))

theorem toInt64?_eq_some {k : Int} (exact : (integer n).toInt64? = some k) : k = n := by
  simp only [toInt64?] at exact
  split at exact
  · exact (Option.some.inj exact).symm
  · cases exact

/-- What lies beyond the signed range lies above it. -/
theorem le_of_toInt64?_eq_none (fits : (integer n).IsRepresentable)
    (beyond : (integer n).toInt64? = none) : (twoTo 63 : Int) ≤ n := by
  simp only [toInt64?] at beyond
  split at beyond
  · cases beyond
  next notSigned =>
    have least := fits.1
    omega

/-- **The order of two integers is exact, unless they collide**; then they are equal. -/
theorem order?_integer (fits : (integer n).IsRepresentable) (fitsRight : (integer m).IsRepresentable) :
    (integer n).order? (integer m) = some (if Collide n m then .eq else compare n m) := by
  obtain ⟨x, rounded⟩ := exists_toDouble?_eq_some fits
  obtain ⟨y, roundedRight⟩ := exists_toDouble?_eq_some fitsRight
  have places : x.order y = if Double.ofInt? n = Double.ofInt? m then .eq else compare n m :=
    Double.order_of_ofInt? rounded roundedRight
  by_cases signed : (integer n).toInt64? = none ∨ (integer m).toInt64? = none
  · -- Both are rounded. Equal integers have one nearest number as well.
    have inDouble : (integer n).order? (integer m) = some (x.order y) := by
      unfold order?
      rcases signed with beyond | beyond
      · rw [beyond, rounded, roundedRight]
        rfl
      · rw [beyond, rounded, roundedRight]
        cases (integer n).toInt64? <;> rfl
    rw [inDouble, places]
    by_cases equal : n = m
    · subst equal
      rw [if_pos rfl, if_neg (fun collide => collide.1 rfl), Std.ReflOrd.compare_self]
    · simp only [Collide, equal, signed, ne_eq, not_false_eq_true, true_and]
  · obtain ⟨exact, exactRight⟩ := not_or.mp signed
    obtain ⟨k, found⟩ := Option.ne_none_iff_exists'.mp exact
    obtain ⟨l, foundRight⟩ := Option.ne_none_iff_exists'.mp exactRight
    have notCollide : ¬Collide n m := fun collide => signed collide.2.1
    rw [order?, found, foundRight, toInt64?_eq_some found, toInt64?_eq_some foundRight,
      if_neg notCollide]

/-- Collisions are symmetric. -/
theorem Collide.symm (collide : Collide n m) : Collide m n :=
  ⟨collide.1.symm, collide.2.1.symm, collide.2.2.symm⟩

/-- What collides lies at most 512 below the end of the signed range: further down there is a number
of the format in between. -/
theorem Collide.le (collide : Collide n m) (fits : (integer n).IsRepresentable)
    (fitsRight : (integer m).IsRepresentable) : (twoTo 63 : Int) - 512 ≤ n := by
  by_contra below
  obtain ⟨_, signed, same⟩ := collide
  -- An integer that lies below is in the signed range, so the other one is not.
  have isSigned : (integer n).toInt64? ≠ none := fun beyond => by
    have above := le_of_toInt64?_eq_none fits beyond
    omega
  have above := le_of_toInt64?_eq_none fitsRight (signed.resolve_left isSigned)
  obtain ⟨x, rounded⟩ := exists_toDouble?_eq_some fits
  have roundedRight : Double.ofInt? m = some x := same.symm.trans rounded
  obtain ⟨low, isLow⟩ : ∃ low, Double.ofInt? ((twoTo 63 : Int) - 513) = some low :=
    Double.exists_ofInt?_eq_some (k := 64) (by decide) (by decide)
  obtain ⟨high, isHigh⟩ : ∃ high, Double.ofInt? (twoTo 63) = some high :=
    Double.exists_ofInt?_eq_some (k := 64) (by decide) (by decide)
  have fromBelow : x.rank ≤ low.rank := Double.rank_mono (by omega) rounded isLow
  have fromAbove : high.rank ≤ x.rank := Double.rank_mono above isHigh roundedRight
  have apart : low.rank < high.rank := by
    rw [Double.rank_of_ofInt? isLow, Double.rank_of_ofInt? isHigh]
    decide +kernel
  omega

end Number

namespace Operator

/-- What an operator says about two integers; the substring operators say nothing about them. -/
def Relates : Operator → Int → Int → Prop
  | .eq, n, m => n = m
  | .ne, n, m => n ≠ m
  | .gt, n, m => n > m
  | .ge, n, m => n ≥ m
  | .lt, n, m => n < m
  | .le, n, m => n ≤ m
  | .co, _, _ | .sw, _, _ | .ew, _, _ => False

theorem holdsFor?_compare_iff {operator : Operator} {n m : Int} :
    operator.holdsFor? (compare n m) = some true ↔ operator.Relates n m := by
  rcases Int.lt_trichotomy n m with less | equal | greater
  · rw [Int.compare_eq_lt.mpr less]
    cases operator <;> simp [holdsFor?, Relates] <;> omega
  · subst equal
    rw [Std.ReflOrd.compare_self]
    cases operator <;> simp [holdsFor?, Relates]
  · rw [Int.compare_eq_gt.mpr greater]
    cases operator <;> simp [holdsFor?, Relates] <;> omega

end Operator

/-- **A filter compares integers exactly, unless they collide.** For an attribute or sub-attribute of
type integer that holds the integer `n`, a comparison with the integer `m` matches if and only if the
operator says so of `n` and `m`. Two different integers collide if they have one nearest binary64
number and not both lie in the signed 64-bit range; the comparison then answers as for equal ones.
Neither of them lies more than 512 below `2 ^ 63`. -/
theorem isMatch_compare_integer (view : View) (path : Reference) (resolved : Resolved)
    (object : Object) (operator : Operator) (n m : Int)
    (bound : view.resolveAttribute? path = some resolved)
    (isInteger : resolved.target.type = .integer)
    (stored : Json.valuesOf (resolved.value? object) resolved.sub = [.number (.integer n)])
    (fits : Number.IsRepresentable (.integer n)) (fitsLiteral : Number.IsRepresentable (.integer m)) :
    let matching := (Filter.compare path operator (.number (.integer m))).isMatch view (.object object)
    (¬Number.Collide n m → (matching = true ↔ operator.Relates n m)) ∧
      (Number.Collide n m → (matching = true ↔ operator.Relates m m) ∧
        (twoTo 63 : Int) - 512 ≤ n ∧ (twoTo 63 : Int) - 512 ≤ m) := by
  intro matching
  have simple : resolved.target.isComplex = false := by
    rw [Attribute.isComplex, isInteger]
    rfl
  have compared : matching = true ↔
      operator.holdsFor? (if Number.Collide n m then .eq else compare n m) = some true := by
    have one : matching = (operator.holdsForValue? resolved.target (.number (.integer n))
        (.number (.integer m))).getD false := by
      simp only [matching, Filter.isMatch_compare bound simple, stored, Operator.holdsForValues,
        List.any_cons, List.any_nil, Bool.or_false]
    rw [one]
    simp only [Operator.holdsForValue?, isInteger, Number.order?_integer fits fitsLiteral,
      Option.bind_some]
    cases operator.holdsFor? (if Number.Collide n m then .eq else compare n m) <;> simp
  constructor
  · intro apart
    rw [compared, if_neg apart, Operator.holdsFor?_compare_iff]
  · intro collide
    refine ⟨?_, collide.le fits fitsLiteral, collide.symm.le fitsLiteral fits⟩
    -- The answer is that for two equal integers.
    rw [compared, if_pos collide, ← Operator.holdsFor?_compare_iff, Std.ReflOrd.compare_self]

/-- Beyond the signed range, integers that are far enough apart are compared as they are. -/
theorem isMatch_compare_integer_apart :
    let view := View.ofSchemas { id := "urn:a", attributes := [.simple "count" .integer] } []
    let resource : Object := [("count", .number (.integer 9223372036854775808))]
    ¬Number.Collide 9223372036854775808 9223372036854776833 ∧
      (Filter.compare ⟨none, "COUNT", none⟩ .lt (.number (.integer 9223372036854776833))).isMatch view
        (.object resource) = true := by
  intro view resource
  have apart : ¬Number.Collide 9223372036854775808 9223372036854776833 := by decide +kernel
  have fits : Number.IsRepresentable (.integer 9223372036854775808) := by
    simp only [Number.IsRepresentable]
    decide
  have fitsLiteral : Number.IsRepresentable (.integer 9223372036854776833) := by
    simp only [Number.IsRepresentable]
    decide
  have exact := (isMatch_compare_integer view ⟨none, "COUNT", none⟩
    ⟨view.baseMember, .simple "count" .integer, none⟩ resource .lt _ _ rfl rfl rfl fits fitsLiteral).1
    apart
  have less : (9223372036854775808 : Int) < 9223372036854776833 := by decide
  exact ⟨apart, exact.mpr less⟩

/-- Two neighbours above the signed range count as equal, so that none of them is less. -/
theorem isMatch_compare_integer_neighbours :
    let view := View.ofSchemas { id := "urn:a", attributes := [.simple "count" .integer] } []
    let resource : Json := .object [("count", .number (.integer 9223372036854775808))]
    let matching (operator : Operator) : Bool :=
      (Filter.compare ⟨none, "count", none⟩ operator (.number (.integer 9223372036854775809))).isMatch
        view resource
    (9223372036854775808 : Int) ≠ 9223372036854775809 ∧ matching .eq = true ∧ matching .lt = false := by
  decide +kernel

end Scim
