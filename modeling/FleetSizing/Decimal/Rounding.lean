import FleetSizing.Decimal.Binary
import FleetSizing.Text.Numeral
/-!
# Rounding to whole numbers

Exact integer rounding of the numbers `m * 2 ^ q` that doubles stand for: to a
fixed number of decimal places, and upwards to a natural number.
-/

namespace FleetSizing.Decimal

/-- The natural number nearest to `num / den`, a tie going to the even one. -/
def roundHalfEven (num den : Nat) : Nat :=
  let low := num / den
  let twice := 2 * (num % den)
  if twice < den then low
  else if den < twice then low + 1
  else low + low % 2

/-- The multiple of `10 ^ (-places)` nearest to `m * 2 ^ q`, counted in units of it. -/
def roundPlaces (places m : Nat) (q : Int) : Nat :=
  roundHalfEven (numerator m q * Nat.pow 10 places) (denominator q)

/-- The least natural number not below `m * 2 ^ q`. -/
def ceil (m : Nat) (q : Int) : Nat :=
  (numerator m q + (denominator q - 1)) / denominator q

/-- The ceiling of a double as a natural number up to `limit`: nothing that is not
positive counts, and everything beyond the limit counts as the limit. -/
def ceilUpTo (limit : Nat) (x : Float) : Nat :=
  match x.toModel.unpack with
  | .notANumber => 0
  | .infinity .positive => limit
  | .infinity .negative => 0
  | .zero _ => 0
  | .finite .negative .. => 0
  | .finite .positive m q _ => min (ceil m q) limit

/-- A key that orders doubles totally: negative before positive, `-0` before `0`. -/
def totalKey (x : Float) : Int :=
  let bits := x.toBits.toNat
  if bits < Text.halfWord64 then bits else (Text.halfWord64 : Int) - 1 - bits

end FleetSizing.Decimal
