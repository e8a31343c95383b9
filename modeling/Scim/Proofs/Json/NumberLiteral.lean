import Scim.Json.NumberLiteral

/-!
# The characters of number literals

A reader of numbers takes characters from the front of a text. What it takes consists of digits,
signs, points and exponent marks, whatever its value, so a text that spells a number can be told
from any other word.
-/

namespace Scim.Json

/-- Whether a character can stand in a number literal. -/
def isNumberChar (c : Char) : Bool := c.isDigit || ['-', '+', '.', 'e', 'E'].contains c

/-- A scanner takes number characters from the front of a text and leaves the rest. -/
def TakesNumberChars (text rest : List Char) : Prop :=
  ∃ front, text = front ++ rest ∧ ∀ c ∈ front, isNumberChar c = true

namespace TakesNumberChars

theorem refl (text : List Char) : TakesNumberChars text text := ⟨[], rfl, by simp⟩

theorem trans {text middle rest : List Char} (first : TakesNumberChars text middle)
    (second : TakesNumberChars middle rest) : TakesNumberChars text rest := by
  obtain ⟨front, rfl, frontChars⟩ := first
  obtain ⟨back, rfl, backChars⟩ := second
  refine ⟨front ++ back, by simp, fun c member => ?_⟩
  rcases List.mem_append.mp member with inFront | inBack
  · exact frontChars c inFront
  · exact backChars c inBack

theorem cons {c : Char} {text rest : List Char} (is : isNumberChar c = true)
    (taken : TakesNumberChars text rest) : TakesNumberChars (c :: text) rest :=
  trans ⟨[c], rfl, by simpa using is⟩ taken

end TakesNumberChars

theorem spanDigits_takes {text rest : List Char} {digits : List Nat}
    (split : spanDigits text = (digits, rest)) : TakesNumberChars text rest := by
  obtain ⟨_, rfl⟩ := Prod.mk.inj split
  refine ⟨text.takeWhile Char.isDigit, List.takeWhile_append_dropWhile.symm, fun c member => ?_⟩
  have digit : c.isDigit = true := List.all_eq_true.mp List.all_takeWhile c member
  simp [isNumberChar, digit]

namespace NumberLiteral

theorem scanFraction_takes {text rest : List Char} {digits : List Nat}
    (scanned : scanFraction text = some (digits, rest)) : TakesNumberChars text rest := by
  unfold scanFraction at scanned
  split at scanned
  next following =>
    split at scanned
    · cases scanned
    next split =>
      cases scanned
      exact .cons (by decide) (spanDigits_takes split)
  · cases scanned
    exact .refl _

theorem scanExponentDigits_takes {sign : Int} {text rest : List Char} {exponent : Option Int}
    (scanned : scanExponentDigits sign text = some (exponent, rest)) : TakesNumberChars text rest := by
  unfold scanExponentDigits at scanned
  split at scanned
  · cases scanned
  next split =>
    cases scanned
    exact spanDigits_takes split

theorem scanExponent_takes {text rest : List Char} {exponent : Option Int}
    (scanned : scanExponent text = some (exponent, rest)) : TakesNumberChars text rest := by
  unfold scanExponent at scanned
  split at scanned
  next c following =>
    split at scanned
    next mark =>
      refine .cons (by rcases mark with rfl | rfl <;> decide) ?_
      split at scanned
      · exact .cons (by decide) (scanExponentDigits_takes scanned)
      · exact .cons (by decide) (scanExponentDigits_takes scanned)
      · exact scanExponentDigits_takes scanned
    · cases scanned
      exact .refl _
  · cases scanned
    exact .refl _

theorem scanUnsigned_takes {negative : Bool} {text rest : List Char} {literal : NumberLiteral}
    (scanned : scanUnsigned negative text = some (literal, rest)) : TakesNumberChars text rest := by
  unfold scanUnsigned at scanned
  split at scanned
  · cases scanned
  · cases scanned
  next split =>
    simp only [Option.bind_eq_bind, Option.bind_eq_some_iff, Prod.exists] at scanned
    obtain ⟨_, _, fraction, _, _, exponent, same⟩ := scanned
    cases same
    have behindPoint := (scanFraction_takes fraction).trans (scanExponent_takes exponent)
    exact (spanDigits_takes split).trans behindPoint

theorem scan_takes {text rest : List Char} {literal : NumberLiteral}
    (scanned : scan text = some (literal, rest)) : TakesNumberChars text rest := by
  unfold scan at scanned
  split at scanned
  · exact .cons (by decide) (scanUnsigned_takes scanned)
  · exact scanUnsigned_takes scanned

end NumberLiteral

/-- A text that spells a number is made of number characters. -/
theorem isNumberChar_of_readNumber? {text : List Char} {value : Number}
    (read : readNumber? text = some value) : ∀ c ∈ text, isNumberChar c = true := by
  unfold readNumber? at read
  split at read
  next literal scanned =>
    obtain ⟨front, rfl, chars⟩ := NumberLiteral.scan_takes scanned
    simpa using chars
  · cases read

/-- A number is spelt by at least one character. -/
theorem ne_nil_of_readNumber? {text : List Char} {value : Number}
    (read : readNumber? text = some value) : text ≠ [] := by
  rintro rfl
  cases read

end Scim.Json
