import Scim.Number.Power

/-!
# Binary floating point numbers

Numbers with a fraction or an exponent are held in binary64: a sign and a magnitude, where the
magnitude is the number that the 63 lower bits of the format spell. Magnitudes are ordered as their
bits are, so comparison is comparison of integers, and the two zeros compare equal. Infinities and
the values that are no numbers have no place in a JSON document and are left out of the type.

Every operation goes through one function, `nearest`, which finds the magnitude closest to an exact
fraction; halfway cases go to the even neighbour.
-/

namespace Scim

/-- The first magnitude that is not finite. -/
def Double.bound : Nat := 2047 * twoTo 52

/-- A finite binary64 number. -/
structure Double where
  negative : Bool
  magnitude : Nat
  finite : magnitude < Double.bound
  deriving DecidableEq

namespace Double

theorem bound_pos : 0 < bound := by decide

def zero : Double := ⟨false, 0, bound_pos⟩

def negate (x : Double) : Double := { x with negative := !x.negative }

/-- The place of a number in the numerical order: negative numbers run backwards, and both zeros are
0. -/
def rank (x : Double) : Int := if x.negative then -(x.magnitude : Int) else x.magnitude

def same (x y : Double) : Bool := x.rank == y.rank

def order (x y : Double) : Ordering := compare x.rank y.rank

theorem same_iff_order_eq {x y : Double} : x.same y = true ↔ x.order y = .eq := by
  simp [same, order]

/-! ### Rounding -/

/-- The integer nearest to a fraction; a half goes to the even neighbour. -/
def roundFraction (numerator denominator : Nat) : Nat :=
  let quotient := numerator / denominator
  let twice := 2 * (numerator % denominator)
  if twice < denominator then quotient
  else if denominator < twice then quotient + 1
  else quotient + quotient % 2

/-- The magnitude nearest to a fraction. Magnitudes from `bound` on stand for fractions that are too large
for the format.

In units of the least positive number, `2 ^ -1074`, a magnitude of exponent `e` counts steps of `2 ^ e`,
and `e` is the least exponent that leaves fewer than 54 bits to count with. Adding the exponent field
to the rounded count gives the bits, also where rounding carries into the next exponent. -/
def nearest (numerator denominator : Nat) : Nat :=
  let scaled := numerator * twoTo 1074
  let e := (scaled / denominator).log2 - 52
  e * twoTo 52 + roundFraction scaled (denominator * twoTo e)

def ofFraction? (negative : Bool) (numerator denominator : Nat) : Option Double :=
  if finite : nearest numerator denominator < bound then
    some ⟨negative, nearest numerator denominator, finite⟩
  else none

/-- The absolute value of a number, in units of the least positive number. -/
def units (x : Double) : Nat :=
  if x.magnitude < twoTo 52 then x.magnitude
  else (twoTo 52 + x.magnitude % twoTo 52) * twoTo (x.magnitude / twoTo 52 - 1)

/-! ### Arithmetic -/

def ofNat? (n : Nat) : Option Double := ofFraction? false n 1

def ofInt? (n : Int) : Option Double := ofFraction? (n < 0) n.natAbs 1

def mul? (x y : Double) : Option Double :=
  ofFraction? (x.negative != y.negative) (x.units * y.units) (twoTo 1074 * twoTo 1074)

/-- The quotient of two numbers, of which the second is not zero. -/
def div? (x y : Double) : Option Double :=
  ofFraction? (x.negative != y.negative) x.units y.units

end Double

end Scim
