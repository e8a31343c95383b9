/-!
# Powers of two and ten

Binary numbers are measured in powers of two, decimals in powers of ten. Both kinds of power are
natural numbers here; a negative exponent is a division by one of them.
-/

namespace Scim

def twoTo (exponent : Nat) : Nat := Nat.pow 2 exponent

def tenTo (exponent : Nat) : Nat := Nat.pow 10 exponent

theorem twoTo_succ (exponent : Nat) : twoTo (exponent + 1) = twoTo exponent * 2 := rfl

theorem twoTo_pos (exponent : Nat) : 0 < twoTo exponent := Nat.two_pow_pos exponent

end Scim
