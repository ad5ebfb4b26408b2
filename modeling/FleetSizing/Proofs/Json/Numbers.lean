import FleetSizing.Json.Reader
import FleetSizing.Json.Writer
import FleetSizing.Proofs.Durations
import FleetSizing.Proofs.Toml.Numbers
/-!
# Numbers in JSON

Whole numbers and finite doubles are read as what they were written for, whatever follows
them that is no part of a number.
-/

namespace FleetSizing.Json

open Float.Model Float.Model.UnpackedFloat Text Binary64
open Toml (IsDigits IsNumeral isNegative)

def goesOn (c : Char) : Bool := c.isDigit || c == '.' || c == 'e' || c == 'E'

/-- The text begins with nothing that a number before it could go on with. -/
def EndsNumber (rest : List Char) : Prop := ∀ c ∈ rest.head?, goesOn c = false

variable {ds frac rest : List Char}

theorem endsNumber_nil : EndsNumber [] := nofun

theorem EndsNumber.isDigit (h : EndsNumber rest) : ∀ c ∈ rest.head?, c.isDigit = false := by
  intro c hc
  have hcharacter := h c hc
  simp only [goesOn, Bool.or_eq_false_iff] at hcharacter
  exact hcharacter.1.1.1

theorem EndsNumber.head_ne (h : EndsNumber rest) {c : Char} (hc : goesOn c = true)
    (r : List Char) : rest ≠ c :: r := by
  rintro rfl
  rw [h c rfl] at hc
  cases hc

theorem digitRun_eq (h : IsDigits ds) (hrest : ∀ c ∈ rest.head?, c.isDigit = false) :
    digitRun (ds ++ rest) = some (ds, rest) := by
  unfold digitRun
  rw [takeWhile_append_eq h.isDigit hrest, dropWhile_append_eq h.isDigit hrest]
  exact if_neg h.ne_nil

theorem integral_eq (h : IsNumeral ds) (hrest : ∀ c ∈ rest.head?, c.isDigit = false) :
    integral (ds ++ rest) = some (ds, rest) := by
  have hzero : ¬(ds.head? = some '0' ∧ ds ≠ ['0']) := fun hneedless =>
    hneedless.2 (h.head hneedless.1)
  unfold integral
  rw [digitRun_eq h.toIsDigits hrest]
  exact if_neg hzero

theorem fraction_point (h : IsDigits frac) (hrest : ∀ c ∈ rest.head?, c.isDigit = false) :
    fraction ('.' :: (frac ++ rest)) = some (frac, rest) :=
  digitRun_eq h hrest

theorem fraction_eq (h : EndsNumber rest) : fraction rest = some ([], rest) :=
  fraction.eq_2 rest (h.head_ne rfl)

theorem exponent_eq (h : EndsNumber rest) : exponent rest = some (none, rest) := by
  cases rest with
  | nil => rfl
  | cons c r =>
      have hmark : ¬(c = 'e' ∨ c = 'E') := by
        rintro (rfl | rfl)
        · exact h.head_ne rfl r rfl
        · exact h.head_ne rfl r rfl
      exact if_neg hmark

theorem exists_cons_of_isDigits (h : IsDigits ds) : ∃ c r, ds = c :: r ∧ c.isDigit = true := by
  cases ds with
  | nil => exact absurd rfl h.ne_nil
  | cons c r => exact ⟨c, r, rfl, h.isDigit c (List.mem_cons_self ..)⟩

theorem number_sign (s : Sign) {cs : List Char} (h : cs.head? ≠ some '-') :
    number (Decimal.sign s ++ cs) = do
      let (ds, r) ← integral cs
      let (frac, r) ← fraction r
      let (exp, r) ← exponent r
      let v ← if frac = [] ∧ exp = none then whole (isNegative s) (ofDigits ds)
        else finite (isNegative s) ⟨ofDigits (ds ++ frac), exp.getD 0 - frac.length⟩
      return (v, r) := by
  cases s with
  | negative => rfl
  | positive =>
      have hminus : ∀ r, cs ≠ '-' :: r := by
        rintro r rfl
        exact h rfl
      unfold number
      rw [show Decimal.sign .positive ++ cs = cs from rfl]
      split
      next negative r heq =>
        split at heq
        next r' => exact absurd rfl (hminus r')
        next =>
          obtain ⟨rfl, rfl⟩ := Prod.mk.inj heq
          rfl

theorem number_whole (s : Sign) {n : Nat} {v : Json} (hrest : EndsNumber rest)
    (hv : whole (isNegative s) n = some v) :
    number (Decimal.sign s ++ (digits n ++ rest)) = some (v, rest) := by
  have hnumeral := Toml.isNumeral_digits n
  rw [number_sign, integral_eq hnumeral hrest.isDigit]
  · simp only [Option.bind_eq_bind, Option.bind_some, fraction_eq hrest, exponent_eq hrest,
      and_self, if_true, ofDigits_digits, hv]
    rfl
  · rw [List.head?_append_of_ne_nil _ hnumeral.ne_nil]
    exact hnumeral.head_ne rfl

theorem number_point (s : Sign) {v : Json} (hds : IsNumeral ds) (hfrac : IsDigits frac)
    (hrest : EndsNumber rest)
    (hv : finite (isNegative s) ⟨ofDigits (ds ++ frac), 0 - (frac.length : Int)⟩ = some v) :
    number (Decimal.sign s ++ (ds ++ '.' :: (frac ++ rest))) = some (v, rest) := by
  have hpoint : ∀ c ∈ ('.' :: (frac ++ rest)).head?, c.isDigit = false := by
    intro c hc
    obtain rfl : '.' = c := Option.some.inj hc
    rfl
  rw [number_sign, integral_eq hds hpoint]
  · simp only [Option.bind_eq_bind, Option.bind_some, fraction_point hfrac hrest.isDigit,
      exponent_eq hrest, hfrac.ne_nil, false_and, if_false, Option.getD_none, hv]
    rfl
  · rw [List.head?_append_of_ne_nil _ hds.ne_nil]
    exact hds.head_ne rfl

/-- Whole numbers that a word of 64 bits holds, with a sign or without. -/
def InWord (i : Int) : Prop := -(halfWord64 : Int) ≤ i ∧ i < word64

theorem number_writeInt {i : Int} (hi : InWord i) (hrest : EndsNumber rest) :
    number (writeInt i ++ rest) = some (.integer i, rest) := by
  obtain ⟨hlow, hhigh⟩ := hi
  cases i with
  | ofNat n =>
      apply number_whole .positive hrest
      exact if_pos (Int.ofNat_lt.1 hhigh)
  | negSucc n =>
      apply number_whole .negative hrest
      have hn : 0 < n + 1 ∧ n + 1 ≤ halfWord64 := by omega
      show (if 0 < n + 1 ∧ n + 1 ≤ halfWord64 then _ else _) = _
      rw [if_pos hn]
      rfl

theorem finite_eq {s : Sign} {d : Decimal} {x : Float} (hfinite : d.toFloat.isFinite = true)
    (hx : Toml.applySign (isNegative s) d.toFloat = x) :
    finite (isNegative s) d = some (.float x) := by
  rw [← hx]
  exact if_pos hfinite

theorem number_writeFloat {x : Float} (hfinite : x.isFinite = true) (hrest : EndsNumber rest) :
    number (writeFloat x ++ rest) = some (.float x, rest) := by
  unfold writeFloat Decimal.write
  rw [if_pos hfinite]
  change x.toModel.unpack.isFinite = true at hfinite
  cases hx : x.toModel.unpack with
  | notANumber =>
      rw [hx] at hfinite
      cases hfinite
  | infinity s =>
      rw [hx] at hfinite
      cases hfinite
  | zero s =>
      have hzero : Toml.applySign (isNegative s) (Decimal.toFloat ⟨0, -1⟩) = x := by
        apply Toml.applySign_eq
        rw [hx]
        cases s <;> rfl
      have hread := number_point s (Toml.isNumeral_digits 0) (Toml.isDigits_digits 0) hrest
        (finite_eq (d := ⟨0, -1⟩) rfl hzero)
      rw [← hread, List.append_assoc]
      rfl
  | finite s m q hm =>
      have hshortest := Decimal.toFloat_shortest (Toml.unpack_abs hx)
      have hpos := Decimal.digits_pos_of_toFloat (Toml.unpack_abs hx) hshortest
      obtain ⟨ds, frac, htext, hparts⟩ := Toml.exists_positional (Or.inl hpos)
      have hread : Decimal.toFloat ⟨ofDigits (ds ++ frac), 0 - (frac.length : Int)⟩ = x.abs := by
        rw [Decimal.toFloat_congr hparts.value, hshortest]
      have hsign : Toml.applySign (isNegative s)
          (Decimal.toFloat ⟨ofDigits (ds ++ frac), 0 - (frac.length : Int)⟩) = x := by
        rw [hread]
        apply Toml.applySign_eq
        rw [hx, Toml.unpack_abs hx]
        cases s <;> rfl
      have habs : x.abs.isFinite = true := by
        change x.abs.toModel.unpack.isFinite = true
        rw [Toml.unpack_abs hx]
        rfl
      have hnumber := number_point s hparts.isNumeral hparts.isDigits hrest
        (finite_eq (hread ▸ habs) hsign)
      rw [← hnumber]
      dsimp only [spelling]
      rw [htext, List.append_assoc, List.append_assoc]
      rfl

end FleetSizing.Json
