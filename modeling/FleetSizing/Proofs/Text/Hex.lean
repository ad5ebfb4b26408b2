import FleetSizing.Text.Hex
import Mathlib.Tactic.IntervalCases
/-!
# Hexadecimal digits that read back

The digits of a number in base sixteen, in capitals or not, are read as this number as far as
their width reaches.
-/

namespace FleetSizing.Text

theorem hexValue_digit (capital : Bool) {n : Nat} (hn : n < 16) :
    hexValue (if capital then (Nat.digitChar n).toUpper else Nat.digitChar n) = some n := by
  cases capital <;> interval_cases n <;> decide

theorem ofHexDigits_concat (cs : List Char) (c : Char) :
    ofHexDigits (cs ++ [c]) = (ofHexDigits cs).bind fun n => (hexValue c).map (16 * n + ·) := by
  unfold ofHexDigits
  rw [List.foldlM_append]
  cases cs.foldlM (fun n c => (hexValue c).map (16 * n + ·)) 0 with
  | none => rfl
  | some n => simp

theorem ofHexDigits_hexDigits (capital : Bool) (width n : Nat) :
    ofHexDigits (hexDigits capital width n) = some (n % 16 ^ width) := by
  induction width generalizing n with
  | zero =>
      rw [Nat.pow_zero, Nat.mod_one]
      rfl
  | succ width ih =>
      unfold hexDigits
      rw [ofHexDigits_concat, ih, Option.bind_some,
        hexValue_digit capital (Nat.mod_lt n (by decide)), Option.map_some, Nat.pow_succ',
        Nat.mod_mul, Nat.add_comm]

theorem length_hexDigits (capital : Bool) (width n : Nat) :
    (hexDigits capital width n).length = width := by
  induction width generalizing n with
  | zero => rfl
  | succ width ih => simp [hexDigits, ih]

theorem ofCodePoint_toNat (c : Char) : ofCodePoint c.toNat = some c := by
  rw [ofCodePoint, if_pos (show c.toNat.isValidChar from c.valid), Char.ofNat_toNat]

theorem ofCodePoint_hexDigits (capital : Bool) {c : Char} {width : Nat} (h : c.toNat < 16 ^ width) :
    (ofHexDigits (hexDigits capital width c.toNat)).bind ofCodePoint = some c := by
  rw [ofHexDigits_hexDigits, Nat.mod_eq_of_lt h, Option.bind_some, ofCodePoint_toNat]

end FleetSizing.Text
