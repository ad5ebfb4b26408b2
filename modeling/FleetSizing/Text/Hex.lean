/-!
# Hexadecimal digits

Characters written by the hexadecimal digits of their code point.
-/

namespace FleetSizing.Text

def hexValue (c : Char) : Option Nat :=
  if '0' ≤ c ∧ c ≤ '9' then some (c.toNat - '0'.toNat)
  else if 'a' ≤ c ∧ c ≤ 'f' then some (c.toNat - 'a'.toNat + 10)
  else if 'A' ≤ c ∧ c ≤ 'F' then some (c.toNat - 'A'.toNat + 10)
  else none

def ofHexDigits (cs : List Char) : Option Nat :=
  cs.foldlM (fun n c => (hexValue c).map (16 * n + ·)) 0

/-- The character with a given code point, unless that is a surrogate or too large. -/
def ofCodePoint (n : Nat) : Option Char :=
  if n.isValidChar then some (Char.ofNat n) else none

/-- The last `width` hexadecimal digits of a number, in capitals or not. -/
def hexDigits (capital : Bool) : (width : Nat) → Nat → List Char
  | 0, _ => []
  | width + 1, n =>
    let d := Nat.digitChar (n % 16)
    hexDigits capital width (n / 16) ++ [if capital then d.toUpper else d]

end FleetSizing.Text
