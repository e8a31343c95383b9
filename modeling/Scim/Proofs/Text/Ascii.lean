import Scim.Text.Ascii

/-!
# Small letters

A character is its own small form, or it is a capital and its small form is a letter that stays as it
is. So a name that is folded twice is folded once, and digits and marks are small forms of nothing but
themselves.
-/

namespace Scim.Text

theorem isDigit_of_isAlpha {c : Char} (letter : c.isAlpha = true) : c.isDigit = false := by
  change (decide (c.val ≥ ('A').val ∧ c.val ≤ ('Z').val) ||
    c.val ≥ ('a').val && c.val ≤ ('z').val) = true at letter
  change (c.val ≥ ('0').val && c.val ≤ ('9').val) = false
  simp only [Bool.or_eq_true, Bool.and_eq_true, Bool.and_eq_false_iff, decide_eq_true_eq,
    decide_eq_false_iff_not, ge_iff_le, UInt32.le_iff_toNat_le] at letter ⊢
  have capital : ('A').val.toNat = 65 := rfl
  have small : ('a').val.toNat = 97 := rfl
  have nine : ('9').val.toNat = 57 := rfl
  omega

/-- A character that has another small form is a letter, and so is that, which is its own small form. -/
theorem toLower_cases (c : Char) :
    c.toLower = c ∨
      c.isAlpha = true ∧ c.toLower.isAlpha = true ∧ c.toLower.toLower = c.toLower := by
  by_cases upper : c.val ≥ ('A').val ∧ c.val ≤ ('Z').val
  · have least : 65 ≤ c.val.toNat := UInt32.le_iff_toNat_le.mp upper.1
    have greatest : c.val.toNat ≤ 90 := UInt32.le_iff_toNat_le.mp upper.2
    -- A capital and its small letter are 32 apart, more than there are letters, so they never overlap.
    have moved : c.toLower.val.toNat = c.val.toNat + 32 := by
      have sum : c.toLower.val = c.val + 32 := congrArg Char.val (dif_pos upper)
      have fits : c.val.toNat + 32 < 2 ^ 32 := by omega
      rw [sum]
      exact (UInt32.toNat_add c.val 32).trans (Nat.mod_eq_of_lt fits)
    have capital : c.isUpper = true := decide_eq_true upper
    have small : c.toLower.isLower = true := by
      change (c.toLower.val ≥ ('a').val && c.toLower.val ≤ ('z').val) = true
      simp only [Bool.and_eq_true, decide_eq_true_eq, ge_iff_le, UInt32.le_iff_toNat_le]
      have first : ('a').val.toNat = 97 := rfl
      have last : ('z').val.toNat = 122 := rfl
      omega
    have notCapital : ¬ (c.toLower.val ≥ ('A').val ∧ c.toLower.val ≤ ('Z').val) := by
      rintro ⟨_, bound⟩
      have bound : c.toLower.val.toNat ≤ 90 := UInt32.le_iff_toNat_le.mp bound
      omega
    exact .inr ⟨Bool.or_eq_true_iff.mpr (.inl capital), Bool.or_eq_true_iff.mpr (.inr small),
      dif_neg notCapital⟩
  · exact .inl (dif_neg upper)

theorem isDigit_toLower (c : Char) : c.toLower.isDigit = c.isDigit := by
  rcases toLower_cases c with same | ⟨letter, small, _⟩
  · rw [same]
  · rw [isDigit_of_isAlpha letter, isDigit_of_isAlpha small]

theorem toLower_of_isDigit {c : Char} (digit : c.isDigit = true) : c.toLower = c := by
  rcases toLower_cases c with same | ⟨letter, _⟩
  · exact same
  · rw [isDigit_of_isAlpha letter] at digit
    cases digit

/-- What is no letter is the small form of itself only. -/
theorem toLower_eq_iff {mark : Char} (noLetter : mark.isAlpha = false) (c : Char) :
    c.toLower = mark ↔ c = mark := by
  rcases toLower_cases c with same | ⟨letter, small, _⟩
  · rw [same]
  · constructor
    · rintro rfl
      rw [small] at noLetter
      cases noLetter
    · rintro rfl
      rw [letter] at noLetter
      cases noLetter

/-! ### Names in small letters -/

@[simp] theorem fold_lowerAscii (name : String) : fold (lowerAscii name) = fold name := by
  rw [lowerAscii, fold, String.toList_ofList, fold, List.map_map]
  refine List.map_congr_left fun c _ => ?_
  rcases toLower_cases c with same | ⟨_, _, stays⟩
  · exact congrArg Char.toLower same
  · exact stays

theorem lowerAscii_eq_iff {name other : String} :
    lowerAscii name = lowerAscii other ↔ fold name = fold other := by
  constructor
  · intro same
    rw [← fold_lowerAscii name, same, fold_lowerAscii]
  · intro same
    rw [lowerAscii, lowerAscii, same]

@[simp] theorem lowerAscii_lowerAscii (name : String) :
    lowerAscii (lowerAscii name) = lowerAscii name :=
  lowerAscii_eq_iff.mpr (fold_lowerAscii name)

end Scim.Text
