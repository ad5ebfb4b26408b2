/-!
# Binary fractions

The exact value `m * 2 ^ q` of a finite double as a fraction of natural numbers.
-/

namespace FleetSizing.Decimal

def numerator (m : Nat) (q : Int) : Nat := m * Nat.pow 2 q.toNat

def denominator (q : Int) : Nat := Nat.pow 2 (-q).toNat

theorem denominator_pos (q : Int) : 0 < denominator q := Nat.pow_pos Nat.two_pos

end FleetSizing.Decimal
