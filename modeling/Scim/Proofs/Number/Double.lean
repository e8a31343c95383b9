import Scim.Number.Double

/-!
# The range of rounding

Every natural number below `2 ^ 1023` has a nearest number in binary64, and with it every integer that
documents can hold.
-/

namespace Scim

theorem twoTo_add (m n : Nat) : twoTo (m + n) = twoTo m * twoTo n := Nat.pow_add 2 m n

namespace Double

theorem roundFraction_le (numerator denominator : Nat) :
    roundFraction numerator denominator ≤ numerator / denominator + 1 := by
  have parity : numerator / denominator % 2 ≤ 1 := Nat.le_of_lt_succ (Nat.mod_lt _ Nat.zero_lt_two)
  unfold roundFraction
  simp only []
  split
  · exact Nat.le_succ _
  · split
    · exact Nat.le_refl _
    · exact Nat.add_le_add_left parity _

/-- What is left to be rounded, once the exponent is taken off, has at most 53 bits. -/
theorem div_exponent_lt (scaled : Nat) : scaled / twoTo (scaled.log2 - 52) < twoTo 53 := by
  have exponents : scaled.log2 + 1 ≤ scaled.log2 - 52 + 53 := by omega
  have below : scaled < twoTo (scaled.log2 - 52) * twoTo 53 :=
    calc scaled < twoTo (scaled.log2 + 1) := Nat.lt_log2_self
      _ ≤ twoTo (scaled.log2 - 52 + 53) := Nat.pow_le_pow_right Nat.zero_lt_two exponents
      _ = twoTo (scaled.log2 - 52) * twoTo 53 := twoTo_add _ 53
  exact Nat.div_lt_of_lt_mul below

theorem nearest_lt_bound {n k : Nat} (fits : n < twoTo k) (small : k ≤ 1023) : nearest n 1 < bound := by
  unfold nearest
  simp only [Nat.div_one, Nat.one_mul]
  generalize isScaled : n * twoTo 1074 = scaled
  -- The exponent is that of the scaled number, and the rounded count is at most the next power.
  have exponent : scaled.log2 - 52 ≤ k + 1021 := by
    by_cases zero : scaled = 0
    · rw [zero]
      exact Nat.zero_le _
    · have below : scaled < twoTo (k + 1074) := by
        rw [← isScaled, twoTo_add]
        exact Nat.mul_lt_mul_of_pos_right fits (twoTo_pos 1074)
      have := (Nat.log2_lt zero).mpr below
      omega
  have count : roundFraction scaled (twoTo (scaled.log2 - 52)) ≤ 2 * twoTo 52 := by
    have rounded := roundFraction_le scaled (twoTo (scaled.log2 - 52))
    have atMost := div_exponent_lt scaled
    rw [twoTo_succ, Nat.mul_comm] at atMost
    exact Nat.le_trans rounded atMost
  calc (scaled.log2 - 52) * twoTo 52 + roundFraction scaled (twoTo (scaled.log2 - 52))
      ≤ (k + 1021) * twoTo 52 + 2 * twoTo 52 :=
        Nat.add_le_add (Nat.mul_le_mul_right _ exponent) count
    _ = (k + 1023) * twoTo 52 := by rw [← Nat.add_mul]
    _ < bound := Nat.mul_lt_mul_of_pos_right (by omega) (twoTo_pos 52)

theorem exists_ofInt?_eq_some {n : Int} {k : Nat} (fits : n.natAbs < twoTo k) (small : k ≤ 1023) :
    ∃ x, ofInt? n = some x := by
  have finite := nearest_lt_bound fits small
  exact ⟨_, dif_pos finite⟩

end Double

end Scim
