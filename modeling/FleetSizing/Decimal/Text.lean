import FleetSizing.Decimal.Shortest
import FleetSizing.Decimal.Rounding
import FleetSizing.Text.Numeral
/-!
# Doubles as text

Doubles are written positionally, never with an exponent: either with the fewest
digits that read back, or with a fixed number of decimal places.
-/

namespace FleetSizing.Decimal

open Text

/-- The number `digits * 10 ^ exponent` without an exponent; one without a fractional part
ends in `suffix`. -/
def positional (suffix : List Char) (d : Decimal) : List Char :=
  let ds := Text.digits d.digits
  if 0 ≤ d.exponent then ds ++ zeros d.exponent.toNat ++ suffix
  else
    let places := d.exponent.natAbs
    let padded := zeroPad (places + 1) ds
    padded.take (padded.length - places) ++ '.' :: padded.drop (padded.length - places)

/-- How the doubles that have no decimal digits are spelled, and what follows a number
without a fractional part. -/
structure Spelling where
  nan : List Char
  infinity : List Char
  integral : List Char

def sign : Float.Model.UnpackedFloat.Sign → List Char
  | .positive => []
  | .negative => ['-']

/-- The shortest text of a double that reads back. -/
def write (spelling : Spelling) (x : Float) : List Char :=
  match x.toModel.unpack with
  | .notANumber => spelling.nan
  | .infinity s => sign s ++ spelling.infinity
  | .zero s => sign s ++ '0' :: spelling.integral
  | .finite s m q _ => sign s ++ positional spelling.integral (shortest x.abs m q)

/-- The text of a double with a fixed number of places, at least one: the exact value
rounded, a tie going to the even digit. -/
def writeFixed (places : Nat) (x : Float) : List Char :=
  match x.toModel.unpack with
  | .notANumber => ['N', 'a', 'N']
  | .infinity s => sign s ++ ['i', 'n', 'f']
  | .zero s => sign s ++ positional [] ⟨0, -places⟩
  | .finite s m q _ => sign s ++ positional [] ⟨roundPlaces places m q, -places⟩

/-- The spelling of doubles in messages: `0.2`, `1`, `-0`, `NaN`, `inf`. -/
def inMessages : Spelling := ⟨['N', 'a', 'N'], ['i', 'n', 'f'], []⟩

def text (x : Float) : String := String.ofList (write inMessages x)

end FleetSizing.Decimal
