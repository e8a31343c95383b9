import Scim.Json.Basic

/-!
# Number literals

The grammar is strict: no leading zeros, no sign but a minus, and a digit on both sides of the
point. A literal without fraction and exponent is an integer if it fits the signed or the unsigned
64-bit range; every other literal, and `-0`, is a floating point number.

The value of a floating point literal is computed and not looked up: the leading digits that fit 64
bits form a significand, the digits left over only shift the exponent, and the significand is then
multiplied or divided by a power of ten in binary64. Each of these steps rounds, so a long literal
can differ in its last bit from the number nearest to it.
-/

namespace Scim.Json

structure NumberLiteral where
  negative : Bool
  /-- The digits before the point, never empty. -/
  whole : List Nat
  /-- The digits behind the point; none if there is no point. -/
  fraction : List Nat
  exponent : Option Int
  deriving DecidableEq

def digitValue (c : Char) : Nat := c.toNat - '0'.toNat

def spanDigits (text : List Char) : List Nat × List Char :=
  ((text.takeWhile Char.isDigit).map digitValue, text.dropWhile Char.isDigit)

def ofDigits (digits : List Nat) : Nat := digits.foldl (fun n d => n * 10 + d) 0

namespace NumberLiteral

/-- The part of a literal from the point on: its fraction digits. -/
def scanFraction : List Char → Option (List Nat × List Char)
  | '.' :: text =>
    match spanDigits text with
    | ([], _) => none
    | (digits, rest) => some (digits, rest)
  | text => some ([], text)

def scanExponentDigits (sign : Int) (text : List Char) : Option (Option Int × List Char) :=
  match spanDigits text with
  | ([], _) => none
  | (digits, rest) => some (some (sign * ofDigits digits), rest)

def scanExponent : List Char → Option (Option Int × List Char)
  | c :: text =>
    if c = 'e' ∨ c = 'E' then
      match text with
      | '+' :: rest => scanExponentDigits 1 rest
      | '-' :: rest => scanExponentDigits (-1) rest
      | rest => scanExponentDigits 1 rest
    else some (none, c :: text)
  | [] => some (none, [])

def scanUnsigned (negative : Bool) (text : List Char) : Option (NumberLiteral × List Char) :=
  match spanDigits text with
  | ([], _) => none
  | (0 :: _ :: _, _) => none
  | (whole, rest) => do
    let (fraction, rest) ← scanFraction rest
    let (exponent, rest) ← scanExponent rest
    return (⟨negative, whole, fraction, exponent⟩, rest)

/-- The literal that a text starts with, and the rest. -/
def scan : List Char → Option (NumberLiteral × List Char)
  | '-' :: text => scanUnsigned true text
  | text => scanUnsigned false text

/-- Extends a significand by digits as long as it stays below `2 ^ 64`; also returns the digits left
over. -/
def accumulate (significand : Nat) : List Nat → Nat × List Nat
  | [] => (significand, [])
  | d :: rest =>
    if significand * 10 + d < twoTo 64 then accumulate (significand * 10 + d) rest
    else (significand, d :: rest)

end NumberLiteral

/-- Moves the decimal point of a number by `places`, in binary64. Numbers that become too large have
no value; numbers that become too small are zero. A power of ten below `10 ^ -308` takes two
divisions. -/
def shiftDecimal? (x : Double) (places : Int) : Option Double := do
  if 0 ≤ places then
    if places ≤ 308 then x.mul? (← Double.ofNat? (tenTo places.toNat))
    else if x.magnitude = 0 then return x
    else none
  else
    let down := places.natAbs
    if down ≤ 308 then x.div? (← Double.ofNat? (tenTo down))
    else if down ≤ 616 then
      let partway ← x.div? (← Double.ofNat? (tenTo 308))
      partway.div? (← Double.ofNat? (tenTo (down - 308)))
    else return Double.zero

/-- The floating point number of a significand with its decimal point moved. -/
def floatOf? (negative : Bool) (significand : Nat) (places : Int) : Option Number := do
  let x ← shiftDecimal? (← Double.ofNat? significand) places
  return .float (if negative then x.negate else x)

/-- The value of a literal; literals beyond the largest floating point number have none. -/
def NumberLiteral.value? (literal : NumberLiteral) : Option Number :=
  let (significand, left) := accumulate 0 literal.whole
  if literal.fraction.isEmpty && literal.exponent.isNone && left.isEmpty then
    if !literal.negative then some (.integer significand)
    else if significand = 0 ∨ twoTo 63 < significand then floatOf? true significand 0
    else some (.integer (-significand))
  else
    let (significand, dropped) := accumulate significand literal.fraction
    let places : Int := left.length - (literal.fraction.length - dropped.length : Nat)
    floatOf? literal.negative significand (places + literal.exponent.getD 0)

def readNumber? (text : List Char) : Option Number :=
  match NumberLiteral.scan text with
  | some (literal, []) => literal.value?
  | _ => none

end Scim.Json
