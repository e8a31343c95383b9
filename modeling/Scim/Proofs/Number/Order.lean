import Mathlib.Data.Nat.Log
import Scim.Proofs.Number.Double

/-!
# Rounding keeps the order

Of two fractions the greater one has no smaller nearest magnitude. Integers that are compared in
binary64 therefore never change places: the most that can happen is that two different ones become
equal, and then they are rounded to the same number.
-/

namespace Scim.Double

/-! ### Rounding fractions -/

theorem le_roundFraction (numerator denominator : Nat) :
    numerator / denominator ≤ roundFraction numerator denominator := by
  unfold roundFraction
  simp only []
  split
  · exact Nat.le_refl _
  · split
    · exact Nat.le_succ _
    · exact Nat.le_add_right _ _

theorem roundFraction_mono {n m : Nat} (le : n ≤ m) (denominator : Nat) :
    roundFraction n denominator ≤ roundFraction m denominator := by
  have quotients : n / denominator ≤ m / denominator := Nat.div_le_div_right le
  rcases Nat.lt_or_eq_of_le quotients with less | equal
  · calc roundFraction n denominator
        ≤ n / denominator + 1 := roundFraction_le n denominator
      _ ≤ m / denominator := less
      _ ≤ roundFraction m denominator := le_roundFraction m denominator
  · -- With one quotient it is the remainders that decide.
    have remainders : n % denominator ≤ m % denominator := by
      have left := Nat.div_add_mod n denominator
      have right := Nat.div_add_mod m denominator
      rw [equal] at left
      omega
    have reached := le_roundFraction m denominator
    unfold roundFraction at reached ⊢
    simp only [equal] at reached ⊢
    split
    next below => exact reached
    next notBelow =>
      have notBelowRight : ¬2 * (m % denominator) < denominator := by omega
      rw [if_neg notBelowRight]
      split
      next above =>
        have aboveRight : denominator < 2 * (m % denominator) := by omega
        exact Nat.le_of_eq (if_pos aboveRight).symm
      next half =>
        split
        · exact Nat.add_le_add_left (Nat.le_of_lt_succ (Nat.mod_lt _ Nat.zero_lt_two)) _
        · exact Nat.le_refl _

/-- What is left to be rounded has 53 bits, unless the number is too small for that. -/
theorem le_div_exponent {scaled : Nat} (large : 0 < scaled.log2 - 52) :
    twoTo 52 ≤ scaled / twoTo (scaled.log2 - 52) := by
  have nonzero : scaled ≠ 0 := by
    rintro rfl
    exact absurd large (by decide)
  rw [Nat.le_div_iff_mul_le (twoTo_pos _), ← twoTo_add]
  calc twoTo (52 + (scaled.log2 - 52))
      = twoTo scaled.log2 := by congr 1; omega
    _ ≤ scaled := Nat.log2_self_le nonzero

/-- **Rounding keeps the order**: a greater fraction has no smaller magnitude. -/
theorem nearest_mono {n m : Nat} (le : n ≤ m) (denominator : Nat) :
    nearest n denominator ≤ nearest m denominator := by
  have scaled : n * twoTo 1074 ≤ m * twoTo 1074 := Nat.mul_le_mul_right _ le
  unfold nearest
  simp only []
  generalize n * twoTo 1074 = small at scaled ⊢
  generalize m * twoTo 1074 = great at scaled ⊢
  have exponents : (small / denominator).log2 - 52 ≤ (great / denominator).log2 - 52 := by
    rw [Nat.log2_eq_log_two, Nat.log2_eq_log_two]
    exact Nat.sub_le_sub_right (Nat.log_mono_right (Nat.div_le_div_right scaled)) 52
  rcases Nat.lt_or_eq_of_le exponents with less | equal
  · -- The greater one starts at the power of two that the smaller one can be rounded up to at most.
    have atMost : roundFraction small (denominator * twoTo ((small / denominator).log2 - 52)) ≤
        2 * twoTo 52 := by
      have rounded := roundFraction_le small (denominator * twoTo ((small / denominator).log2 - 52))
      have count := div_exponent_lt (small / denominator)
      rw [Nat.div_div_eq_div_mul, twoTo_succ, Nat.mul_comm _ 2] at count
      omega
    have atLeast : twoTo 52 ≤
        roundFraction great (denominator * twoTo ((great / denominator).log2 - 52)) := by
      have count := le_div_exponent (Nat.lt_of_le_of_lt (Nat.zero_le _) less)
      rw [Nat.div_div_eq_div_mul] at count
      exact Nat.le_trans count (le_roundFraction _ _)
    calc _ ≤ ((small / denominator).log2 - 52) * twoTo 52 + 2 * twoTo 52 :=
          Nat.add_le_add_left atMost _
      _ = ((small / denominator).log2 - 52 + 1) * twoTo 52 + twoTo 52 := by
          rw [Nat.add_mul, Nat.two_mul, Nat.one_mul, Nat.add_assoc]
      _ ≤ _ := Nat.add_le_add (Nat.mul_le_mul_right _ less) atLeast
  · rw [equal]
    exact Nat.add_le_add_left (roundFraction_mono scaled _) _

/-! ### Rounding integers -/

variable {n m : Int} {x y : Double}

/-- The place of the number nearest to an integer is that of the nearest magnitude, with the sign of
the integer. -/
theorem rank_of_ofInt? (rounded : ofInt? n = some x) :
    x.rank = if n < 0 then -(nearest n.natAbs 1 : Int) else nearest n.natAbs 1 := by
  unfold ofInt? ofFraction? at rounded
  split at rounded
  · cases rounded
    simp [rank]
  · cases rounded

theorem nearest_pos {k : Nat} (positive : 0 < k) : 0 < nearest k 1 :=
  Nat.lt_of_lt_of_le (by decide +kernel) (nearest_mono positive 1)

theorem rank_mono (le : n ≤ m) (left : ofInt? n = some x) (right : ofInt? m = some y) :
    x.rank ≤ y.rank := by
  rw [rank_of_ofInt? left, rank_of_ofInt? right]
  -- Negative numbers run backwards.
  by_cases negative : m < 0
  · have magnitudes := nearest_mono (show m.natAbs ≤ n.natAbs by omega) 1
    rw [if_pos (by omega), if_pos negative]
    omega
  · by_cases negativeLeft : n < 0
    · rw [if_pos negativeLeft, if_neg negative]
      omega
    · have magnitudes := nearest_mono (show n.natAbs ≤ m.natAbs by omega) 1
      rw [if_neg negativeLeft, if_neg negative]
      omega

/-- Integers whose nearest numbers have one place have one nearest number: their signs agree, as no
integer but zero is rounded to zero. -/
theorem ofInt?_eq_of_rank_eq (left : ofInt? n = some x) (right : ofInt? m = some y)
    (same : x.rank = y.rank) : ofInt? n = ofInt? m := by
  rw [rank_of_ofInt? left, rank_of_ofInt? right] at same
  have signs : n < 0 ↔ m < 0 := by
    by_cases negative : n < 0 <;> by_cases negativeRight : m < 0
    · exact iff_of_true negative negativeRight
    · have positive := nearest_pos (show 0 < n.natAbs by omega)
      rw [if_pos negative, if_neg negativeRight] at same
      omega
    · have positive := nearest_pos (show 0 < m.natAbs by omega)
      rw [if_neg negative, if_pos negativeRight] at same
      omega
    · exact iff_of_false negative negativeRight
  have magnitudes : nearest n.natAbs 1 = nearest m.natAbs 1 := by
    simp only [signs] at same
    split at same <;> omega
  unfold ofInt? ofFraction?
  simp only [signs, magnitudes]

/-- **Integers are compared by their nearest numbers as they are themselves**, except that those with
one nearest number are equal. -/
theorem order_of_ofInt? (left : ofInt? n = some x) (right : ofInt? m = some y) :
    x.order y = if ofInt? n = ofInt? m then .eq else compare n m := by
  split
  next same =>
    rw [left, right] at same
    cases same
    exact Std.ReflOrd.compare_self
  next different =>
    have apart : x.rank ≠ y.rank := fun same => different (ofInt?_eq_of_rank_eq left right same)
    -- The order of the places is that of the integers, which are different as well.
    rcases Int.lt_trichotomy n m with less | equal | greater
    · have places := rank_mono (Int.le_of_lt less) left right
      rw [order, Int.compare_eq_lt.mpr less, Int.compare_eq_lt]
      omega
    · exact absurd (congrArg ofInt? equal) different
    · have places := rank_mono (Int.le_of_lt greater) right left
      rw [order, Int.compare_eq_gt.mpr greater, Int.compare_eq_gt]
      omega

end Scim.Double
