import Scim.Number.Double

/-!
# Decimal text of binary numbers

A number is written with the fewest digits that read back as the same number, and among those with
the digits nearest to it. Both halves are computed as they are said: on the grid of decimals with a
given number of digits only the two neighbours of the number can be nearest, seventeen digits always
suffice, and a candidate reads back if rounding it gives the number again.

Scaled by `10 ^ 340` every number is at least `10 ^ 16`, so grids of up to seventeen digits consist
of integers.
-/

namespace Scim.Double

/-- A decimal `digits · 10 ^ (place - 340)`. -/
structure Decimal where
  digits : Nat
  place : Nat
  deriving DecidableEq

def decimalLength (n : Nat) : Nat := (Nat.toDigits 10 n).length

/-- Whether a decimal rounds to the number. -/
def readsBack (x : Double) (decimal : Decimal) : Bool :=
  nearest (decimal.digits * tenTo decimal.place) (tenTo 340) == x.magnitude

/-- The decimal nearest to the number among those of a given number of digits that read back as it.
-/
def ofLength? (x : Double) (length : Nat) : Option Decimal :=
  let scaled := x.units * tenTo 340
  let place := decimalLength (scaled / twoTo 1074) - length
  let step := twoTo 1074 * tenTo place
  -- The two neighbours of the number; if both read back as it, the nearer one is taken.
  let below : Decimal := ⟨scaled / step, place⟩
  let above : Decimal := ⟨scaled / step + 1, place⟩
  match readsBack x below, readsBack x above with
  | true, true => some (if roundFraction scaled step = below.digits then below else above)
  | true, false => some below
  | false, true => some above
  | false, false => none

def shortest? (x : Double) : Option Decimal :=
  (List.range 17).findSome? fun n => ofLength? x (n + 1)

/-- Digits without the zeros at their end. -/
def significantDigits (n : Nat) : List Char :=
  ((Nat.toDigits 10 n).reverse.dropWhile (· == '0')).reverse

/-- Writes digits with a point after the first of them moved by `exponent` places: positional from
`10 ^ -5` up to `10 ^ 16`, with at least one digit on both sides of the point, and with an explicit
exponent outside that range. -/
def layout (digits : List Char) (exponent : Int) : List Char :=
  if exponent < -5 ∨ 15 < exponent then
    let mantissa := match digits with
      | lead :: [] => [lead]
      | lead :: rest => lead :: '.' :: rest
      | [] => []
    let sign := if exponent < 0 then '-' else '+'
    mantissa ++ 'e' :: sign :: Nat.toDigits 10 exponent.natAbs
  else if exponent < 0 then
    '0' :: '.' :: List.replicate (exponent.natAbs - 1) '0' ++ digits
  else
    let whole := exponent.natAbs + 1
    let fraction := digits.drop whole
    digits.take whole ++ List.replicate (whole - digits.length) '0' ++
      '.' :: (if fraction.isEmpty then ['0'] else fraction)

def text (x : Double) : String :=
  let sign := if x.negative then ['-'] else []
  if x.magnitude = 0 then String.ofList (sign ++ ['0', '.', '0'])
  else match shortest? x with
    | some decimal =>
      let exponent := (decimalLength decimal.digits + decimal.place : Int) - 341
      String.ofList (sign ++ layout (significantDigits decimal.digits) exponent)
    | none => ""

end Scim.Double
