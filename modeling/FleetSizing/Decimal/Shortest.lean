import FleetSizing.Decimal.Binary
/-!
# Shortest decimals

The shortest decimal that reads back as a given double.  A positive double is
an exact number `m * 2 ^ q`; on the grid of multiples of `10 ^ k` only its two
neighbours can be nearest to it.  The coarsest grid with a neighbour that reads
back wins, and of two such neighbours the nearer one.
-/

namespace FleetSizing

structure Decimal where
  digits : Nat
  exponent : Int
deriving DecidableEq, Repr

namespace Decimal

/-- Moves up to `fuel` zeros at the end of the digits into the exponent. -/
def stripZeros : (fuel : Nat) → Nat → Int → Decimal
  | 0, n, e => ⟨n, e⟩
  | fuel + 1, n, e => if n % 10 = 0 then stripZeros fuel (n / 10) (e + 1) else ⟨n, e⟩

/-- The same number without zeros at the end of its digits. -/
def normalize (d : Decimal) : Decimal :=
  if d.digits = 0 then ⟨0, 0⟩ else stripZeros d.digits.log2 d.digits d.exponent

/-- The double nearest to a decimal, a tie going to the even significand.  It is taken
from the normal form, so that zeros at the end of the digits make no difference. -/
def toFloat (d : Decimal) : Float :=
  let d := d.normalize
  Float.ofScientific d.digits (d.exponent < 0) d.exponent.natAbs

/-- Numerator and denominator of `m * 2 ^ q / 10 ^ k`. -/
def quotient (m : Nat) (q k : Int) : Nat × Nat :=
  (numerator m q * Nat.pow 10 (-k).toNat, denominator q * Nat.pow 10 k.toNat)

/-- The two multiples of `10 ^ k` around `m * 2 ^ q`, the nearer one first. -/
def neighbours (m : Nat) (q k : Int) : List Decimal :=
  let (num, den) := quotient m q k
  let low := num / den
  if 2 * (num % den) < den then [⟨low, k⟩, ⟨low + 1, k⟩] else [⟨low + 1, k⟩, ⟨low, k⟩]

/-- All the digits of `m * 2 ^ q`. -/
def exactly (m : Nat) (q : Int) : Decimal :=
  if q < 0 then ⟨m * Nat.pow 5 q.natAbs, q⟩ else ⟨numerator m q, 0⟩

/-- The first neighbour of `x = m * 2 ^ q` that reads back, on up to `grids` grids
from `10 ^ k` downwards. -/
def search (x : Float) (m : Nat) (q : Int) : (grids : Nat) → (k : Int) → Option Decimal
  | 0, _ => none
  | grids + 1, k =>
    match (neighbours m q k).find? fun d => d.toFloat = x with
    | some d => some d
    | none => search x m q grids (k - 1)

/-- An exponent at least one above that of the leading decimal digit of `m * 2 ^ q`. -/
def leading (m : Nat) (q : Int) : Int :=
  ((m.log2 : Int) + q) * 30103 / 100000 + 2

/-- The shortest decimal that reads back as `x = m * 2 ^ q`. -/
def shortest (x : Float) (m : Nat) (q : Int) : Decimal :=
  (search x m q 20 (leading m q)).getD (exactly m q)

end Decimal

end FleetSizing
