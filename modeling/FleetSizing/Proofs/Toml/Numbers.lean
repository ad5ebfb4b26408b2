import FleetSizing.Config.Toml
import FleetSizing.Proofs.Decimal.ReadingBack
/-!
# Numbers in TOML

A double is written with a decimal point or as one of the words for infinities and `NaN`,
and a natural number by its digits.  Both are read as what they were written for, and as
nothing else.
-/

namespace FleetSizing.Toml

open Float.Model Float.Model.UnpackedFloat Text Binary64

structure IsDigits (cs : List Char) : Prop where
  ne_nil : cs ≠ []
  isDigit : ∀ c ∈ cs, c.isDigit = true

/-- Digits without needless zeros in front. -/
structure IsNumeral (cs : List Char) : Prop extends IsDigits cs where
  head : cs.head? = some '0' → cs = ['0']

theorem isDigits_digits (n : Nat) : IsDigits (digits n) :=
  ⟨digits_ne_nil n, fun _ => isDigit_of_mem_digits⟩

theorem head_digits_ne_zero {n : Nat} (hn : 0 < n) : (digits n).head? ≠ some '0' := by
  unfold digits
  induction n using Nat.strong_induction_on with
  | _ n ih =>
      by_cases h : n < 10
      · rw [Nat.toDigits_of_lt_base h]
        interval_cases n <;> decide
      · rw [Nat.toDigits_of_base_le (by decide) (by omega), List.head?_append_of_ne_nil _
          Nat.toDigits_ne_nil]
        exact ih (n / 10) (by omega) (by omega)

theorem isNumeral_digits (n : Nat) : IsNumeral (digits n) := by
  refine ⟨isDigits_digits n, fun hhead => ?_⟩
  by_cases hn : n = 0
  · rw [hn]
    decide
  · exact absurd hhead (head_digits_ne_zero (Nat.pos_of_ne_zero hn))

theorem IsDigits.append {cs : List Char} (h : IsDigits cs) {ds : List Char}
    (hds : ∀ c ∈ ds, c.isDigit = true) : IsDigits (cs ++ ds) := by
  constructor
  · simp [h.ne_nil]
  · intro c hc
    rcases List.mem_append.1 hc with hc | hc
    · exact h.isDigit c hc
    · exact hds c hc

theorem isDigit_of_mem_zeros {k : Nat} {c : Char} (h : c ∈ zeros k) : c.isDigit = true := by
  rw [List.eq_of_mem_replicate h]
  decide

theorem ofDigits_append (cs ds : List Char) :
    ofDigits (cs ++ ds) = ofDigits cs * 10 ^ ds.length + ofDigits ds := by
  unfold ofDigits
  rw [Nat.ofDigitChars_append, Nat.ofDigitChars_eq_ofDigitChars_zero, Nat.mul_comm]

theorem ofDigits_zeros (k : Nat) : ofDigits (zeros k) = 0 := by
  unfold ofDigits zeros
  rw [Nat.ofDigitChars_replicate_zero, Nat.mul_zero]

theorem ungroup_eq {cs : List Char} (h : IsDigits cs) : ungroup Char.isDigit cs = some cs := by
  obtain ⟨hne, hdigit⟩ := h
  induction cs with
  | nil => exact absurd rfl hne
  | cons c cs ih =>
      obtain ⟨hc, hcs⟩ := List.forall_mem_cons.1 hdigit
      cases cs with
      | nil => simp [ungroup, hc]
      | cons d cs =>
          have hd : d ≠ '_' := by
            rintro rfl
            exact absurd (hcs '_' (List.mem_cons_self ..)) (by decide)
          rw [ungroup.eq_4 _ _ _ (by simp) (by simpa using hd), if_pos hc,
            ih (by simp) hcs]
          rfl

theorem decimalDigits_eq {cs : List Char} (h : IsNumeral cs) : decimalDigits cs = some cs := by
  unfold decimalDigits
  rw [ungroup_eq h.toIsDigits]
  by_cases hhead : cs.head? = some '0'
  · simp [h.head hhead]
  · simp [hhead]

theorem fraction?_eq {frac : List Char} (h : IsDigits frac) :
    fraction? ('.' :: frac) = some (frac, 0) := by
  have hmark : ∀ c ∈ frac, (!(c == 'e' || c == 'E')) = true := by
    intro c hc
    have hdigit := h.isDigit c hc
    by_contra hcontra
    simp only [Bool.not_eq_true', Bool.not_eq_false, Bool.or_eq_true, beq_iff_eq] at hcontra
    rcases hcontra with rfl | rfl
    · exact absurd hdigit (by decide)
    · exact absurd hdigit (by decide)
  have htake := List.takeWhile_eq_self_iff.2 hmark
  have hdrop := List.dropWhile_eq_nil_iff.2 hmark
  simp only [fraction?, htake, hdrop, ungroup_eq h]
  rfl

theorem magnitude?_eq {whole frac : List Char} (hwhole : IsNumeral whole) (hfrac : IsDigits frac) :
    magnitude? (whole ++ '.' :: frac) =
      some ⟨ofDigits (whole ++ frac), 0 - (frac.length : Int)⟩ := by
  have hintegral : ∀ c ∈ whole, (c.isDigit || c == '_') = true := by
    intro c hc
    rw [hwhole.isDigit c hc, Bool.true_or]
  unfold magnitude?
  dsimp only
  rw [List.takeWhile_append_of_pos hintegral, List.dropWhile_append_of_pos hintegral]
  have htake : List.takeWhile (fun c : Char => c.isDigit || c == '_') ('.' :: frac) = [] := rfl
  have hdrop : List.dropWhile (fun c : Char => c.isDigit || c == '_') ('.' :: frac) =
      '.' :: frac := rfl
  rw [htake, hdrop, List.append_nil, decimalDigits_eq hwhole, fraction?_eq hfrac]
  rfl

/-- A numeral and the digits of a fraction that stand for a decimal. -/
structure StandFor (whole frac : List Char) (d : Decimal) : Prop where
  isNumeral : IsNumeral whole
  isDigits : IsDigits frac
  value : Decimal.value ⟨ofDigits (whole ++ frac), 0 - (frac.length : Int)⟩ = d.value

theorem standFor_zeros {d : Decimal} (hd : 0 < d.digits ∨ d.exponent = 0)
    (hexponent : 0 ≤ d.exponent) :
    StandFor (digits d.digits ++ zeros d.exponent.toNat) ['0'] d := by
  have hdigits := isNumeral_digits d.digits
  constructor
  · constructor
    · exact hdigits.append fun c => isDigit_of_mem_zeros
    · intro hhead
      rw [List.head?_append_of_ne_nil _ hdigits.ne_nil] at hhead
      rcases hd with hd | hd
      · exact absurd hhead (head_digits_ne_zero hd)
      · rw [hd, hdigits.head hhead]
        rfl
  · exact isDigits_digits 0
  · have hnumber : ofDigits (digits d.digits ++ zeros d.exponent.toNat ++ ['0']) =
        d.digits * 10 ^ (d.exponent.toNat + 1) := by
      have hzero : ofDigits ['0'] = 0 := ofDigits_digits 0
      rw [ofDigits_append, ofDigits_append, ofDigits_digits, ofDigits_zeros, hzero]
      simp [zeros, pow_succ, Nat.mul_assoc]
    have heq : (0 - (['0'].length : Int)) + (d.exponent.toNat + 1 : Nat) = d.exponent := by
      rw [List.length_singleton]
      omega
    rw [hnumber, Decimal.value_mul_pow, heq]

theorem isDigits_zeroPad (width n : Nat) : IsDigits (zeroPad width (digits n)) := by
  constructor
  · simp [zeroPad, digits_ne_nil]
  · intro c hc
    rcases List.mem_append.1 hc with hc | hc
    · exact isDigit_of_mem_zeros hc
    · exact isDigit_of_mem_digits hc

theorem length_zeroPad (width : Nat) (cs : List Char) :
    (zeroPad width cs).length = max width cs.length := by
  rw [zeroPad, List.length_append, zeros, List.length_replicate]
  omega

theorem isNumeral_take_zeroPad {n : Nat} (hn : 0 < n) (places : Nat) :
    IsNumeral ((zeroPad (places + 1) (digits n)).take
      ((zeroPad (places + 1) (digits n)).length - places)) := by
  have hdigits := isDigits_zeroPad (places + 1) n
  have hlength := length_zeroPad (places + 1) (digits n)
  constructor
  · constructor
    · apply List.ne_nil_of_length_pos
      rw [List.length_take]
      omega
    · exact fun c hc => hdigits.isDigit c (List.mem_of_mem_take hc)
  · intro hhead
    rw [List.head?_take, if_neg (by omega)] at hhead
    by_cases hfits : places + 1 ≤ (digits n).length
    · have hpadding : zeroPad (places + 1) (digits n) = digits n := by
        rw [zeroPad, Nat.sub_eq_zero_of_le hfits]
        rfl
      rw [hpadding] at hhead
      exact absurd hhead (head_digits_ne_zero hn)
    · have hone : (zeroPad (places + 1) (digits n)).length - places = 1 := by omega
      rw [hone]
      cases hcs : zeroPad (places + 1) (digits n) with
      | nil => exact absurd hcs hdigits.ne_nil
      | cons c cs =>
          rw [hcs, List.head?_cons] at hhead
          rw [Option.some_inj.1 hhead]
          rfl

theorem standFor_zeroPad {d : Decimal} (hd : 0 < d.digits) (hexponent : d.exponent < 0) :
    let padded := zeroPad (d.exponent.natAbs + 1) (digits d.digits)
    StandFor (padded.take (padded.length - d.exponent.natAbs))
      (padded.drop (padded.length - d.exponent.natAbs)) d := by
  intro padded
  have hdigits : IsDigits padded := isDigits_zeroPad _ _
  have hlength : padded.length = max (d.exponent.natAbs + 1) (digits d.digits).length :=
    length_zeroPad _ _
  have hdrop : (padded.drop (padded.length - d.exponent.natAbs)).length = d.exponent.natAbs := by
    rw [List.length_drop]
    omega
  constructor
  · exact isNumeral_take_zeroPad hd _
  · constructor
    · apply List.ne_nil_of_length_pos
      omega
    · exact fun c hc => hdigits.isDigit c (List.mem_of_mem_drop hc)
  · have hnumber : ofDigits padded = d.digits := by
      rw [show padded = zeros _ ++ digits d.digits from rfl, ofDigits_append, ofDigits_zeros,
        Nat.zero_mul, Nat.zero_add, ofDigits_digits]
    have heq : 0 - (d.exponent.natAbs : Int) = d.exponent := by omega
    rw [List.take_append_drop, hnumber, hdrop, heq]

/-- A decimal is written as a numeral and a fraction that stand for it. -/
theorem exists_positional {d : Decimal} (hd : 0 < d.digits ∨ d.exponent = 0) :
    ∃ whole frac, Decimal.positional ['.', '0'] d = whole ++ '.' :: frac ∧
      StandFor whole frac d := by
  unfold Decimal.positional
  by_cases hexponent : 0 ≤ d.exponent
  · rw [if_pos hexponent]
    exact ⟨_, _, rfl, standFor_zeros hd hexponent⟩
  · rw [if_neg hexponent]
    exact ⟨_, _, rfl, standFor_zeroPad (by omega) (Int.not_le.1 hexponent)⟩

/-! ## Floats -/

theorem unpack_neg (x : Float) : (-x).toModel.unpack = x.toModel.unpack.neg := by
  change (Float.Model.pack x.toModel.unpack.neg).unpack = _
  cases hx : x.toModel.unpack with
  | infinity s => cases s <;> rfl
  | notANumber => rfl
  | zero s => exact unpack_pack_zero _
  | finite s m e hm =>
      obtain ⟨hcanonical, he⟩ := isCanonical_of_unpack hx
      exact unpack_pack _ hm hcanonical he

theorem unpack_abs {x : Float} {s : Sign} {m : Nat} {q : Int} {hm : 0 < m}
    (hx : x.toModel.unpack = .finite s m q hm) :
    x.abs.toModel.unpack = .finite .positive m q hm := by
  obtain ⟨hcanonical, hq⟩ := isCanonical_of_unpack hx
  change (Float.Model.pack x.toModel.unpack.abs).unpack = _
  rw [hx]
  exact unpack_pack _ hm hcanonical hq

def isNegative : Sign → Bool
  | .positive => false
  | .negative => true

theorem applySign_eq {x y : Float} {s : Sign} (hy : y.toModel.unpack =
    match s with
      | .positive => x.toModel.unpack
      | .negative => x.toModel.unpack.neg) :
    applySign (isNegative s) x = y := by
  apply eq_of_unpack_eq
  cases s with
  | positive => exact hy.symm
  | negative => exact (unpack_neg x).trans hy.symm

theorem beq_infinity_eq_false {x : Float}
    (h : x.toModel.unpack ≠ .infinity .positive) : (x == 1.0 / 0.0) = false := by
  have hinfinity : (1.0 / 0.0 : Float).toModel.unpack = .infinity .positive := by rfl
  rw [Bool.eq_false_iff]
  intro heq
  change x.toModel.unpack.beq (1.0 / 0.0 : Float).toModel.unpack = true at heq
  rw [beq_iff_ne_notANumber_and_eq, hinfinity] at heq
  obtain ⟨-, -, heq | ⟨-, heq⟩ | ⟨-, heq⟩⟩ := heq
  · exact h heq
  · cases heq
  · cases heq

theorem float?_sign (s : Sign) {cs : List Char} (h : cs.head? ≠ some '-' ∧ cs.head? ≠ some '+') :
    float? (Decimal.sign s ++ cs) =
      if cs = ['i', 'n', 'f'] then some (applySign (isNegative s) (1.0 / 0.0))
      else if cs = ['n', 'a', 'n'] then some (0.0 / 0.0)
      else (magnitude? cs).bind fun d =>
        if applySign (isNegative s) d.toFloat == 1.0 / 0.0 then none
        else some (applySign (isNegative s) d.toFloat) := by
  have hsplit : splitSign (Decimal.sign s ++ cs) = (isNegative s, cs) := by
    cases s with
    | negative => rfl
    | positive =>
        cases cs with
        | nil => rfl
        | cons c cs =>
            have hminus : c ≠ '-' := fun heq => h.1 (congrArg some heq)
            have hplus : c ≠ '+' := fun heq => h.2 (congrArg some heq)
            exact splitSign.eq_3 (c :: cs) (fun r heq => hminus (List.cons.inj heq).1)
              fun r heq => hplus (List.cons.inj heq).1
  unfold float?
  rw [hsplit]
  rfl

theorem float?_point (s : Sign) {whole frac : List Char} (hwhole : IsNumeral whole)
    (hfrac : IsDigits frac) {x : Float}
    (hx : applySign (isNegative s)
      (Decimal.toFloat ⟨ofDigits (whole ++ frac), 0 - (frac.length : Int)⟩) = x)
    (hfinite : x.toModel.unpack ≠ .infinity .positive) :
    float? (Decimal.sign s ++ (whole ++ '.' :: frac)) = some x := by
  have hhead : ∃ c cs, whole = c :: cs ∧ c.isDigit = true := by
    cases hcs : whole with
    | nil => exact absurd hcs hwhole.ne_nil
    | cons c cs => exact ⟨c, cs, rfl, hwhole.isDigit c (hcs ▸ List.mem_cons_self ..)⟩
  obtain ⟨c, cs, rfl, hc⟩ := hhead
  have hne {d : Char} (hd : d.isDigit = false) : c ≠ d := by
    rintro rfl
    rw [hc] at hd
    cases hd
  rw [float?_sign s ⟨by simpa using hne rfl, by simpa using hne rfl⟩, if_neg, if_neg,
    magnitude?_eq hwhole hfrac, Option.bind_some, hx, beq_infinity_eq_false hfinite]
  · rfl
  · exact fun heq => hne rfl (List.cons.inj heq).1
  · exact fun heq => hne rfl (List.cons.inj heq).1

theorem float?_write (x : Float) : float? (Decimal.write Config.inToml x) = some x := by
  unfold Decimal.write
  cases hx : x.toModel.unpack with
  | notANumber =>
      have hnan : (0.0 / 0.0 : Float) = x := eq_of_unpack_eq (hx ▸ rfl)
      rw [← hnan]
      rfl
  | infinity s =>
      have hinfinity : applySign (isNegative s) (1.0 / 0.0) = x := by
        apply applySign_eq
        rw [hx]
        cases s <;> rfl
      dsimp only
      rw [float?_sign s (by decide), ← hinfinity]
      exact if_pos rfl
  | zero s =>
      have hzero : applySign (isNegative s) (Decimal.toFloat ⟨0, -1⟩) = x := by
        apply applySign_eq
        rw [hx]
        cases s <;> rfl
      exact float?_point s (isNumeral_digits 0) (isDigits_digits 0) hzero (by simp [hx])
  | finite s m q hm =>
      have hshortest := Decimal.toFloat_shortest (unpack_abs hx)
      have hpos := Decimal.digits_pos_of_toFloat (unpack_abs hx) hshortest
      obtain ⟨whole, frac, htext, hparts⟩ := exists_positional (Or.inl hpos)
      have hread : applySign (isNegative s)
          (Decimal.toFloat ⟨ofDigits (whole ++ frac), 0 - (frac.length : Int)⟩) = x := by
        rw [Decimal.toFloat_congr hparts.value, hshortest]
        apply applySign_eq
        rw [hx, unpack_abs hx]
        cases s <;> rfl
      dsimp only
      rw [Config.inToml, htext]
      exact float?_point s hparts.isNumeral hparts.isDigits hread (by simp [hx])

/-! ## Whole numbers -/

theorem IsDigits.head_ne {cs : List Char} (h : IsDigits cs) {d : Char} (hd : d.isDigit = false) :
    cs.head? ≠ some d := by
  intro hhead
  have hdigit := h.isDigit d (List.mem_of_mem_head? hhead)
  rw [hd] at hdigit
  cases hdigit

theorem splitSign_digits {cs : List Char} (h : IsDigits cs) : splitSign cs = (false, cs) := by
  apply splitSign.eq_3
  · rintro r rfl
    exact h.head_ne (d := '-') rfl rfl
  · rintro r rfl
    exact h.head_ne (d := '+') rfl rfl

theorem integer?_digits {n : Nat} (hn : n < halfWord64) : integer? (digits n) = some (n : Int) := by
  have hnumeral := isNumeral_digits n
  have hbase {c : Char} (hc : c.isDigit = false) (r : List Char) : digits n ≠ '0' :: c :: r := by
    intro heq
    have hdigit := hnumeral.isDigit c (by simp [heq])
    rw [hc] at hdigit
    cases hdigit
  rw [integer?.eq_4 _ (hbase rfl) (hbase rfl) (hbase rfl), splitSign_digits hnumeral.toIsDigits]
  have hword : inWord (n : Int) = some (n : Int) := if_pos ⟨by omega, by omega⟩
  dsimp only
  rw [decimalDigits_eq hnumeral, Option.bind_eq_bind, Option.bind_some, ofDigits_digits]
  exact hword

theorem float?_digits (n : Nat) : float? (digits n) = none := by
  have hnumeral := isNumeral_digits n
  have hintegral : ∀ c ∈ digits n, (c.isDigit || c == '_') = true := by
    intro c hc
    rw [hnumeral.isDigit c hc, Bool.true_or]
  have hmagnitude : magnitude? (digits n) = none := by
    have hdrop := List.dropWhile_eq_nil_iff.2 hintegral
    unfold magnitude?
    dsimp only
    rw [hdrop]
    cases decimalDigits ((digits n).takeWhile fun c => c.isDigit || c == '_') <;> rfl
  have hword {c : Char} (hc : c.isDigit = false) (r : List Char) : digits n ≠ c :: r := by
    intro heq
    exact hnumeral.head_ne hc (by rw [heq, List.head?_cons])
  have hfloat := float?_sign .positive
    (show (digits n).head? ≠ some '-' ∧ (digits n).head? ≠ some '+' from
      ⟨hnumeral.head_ne rfl, hnumeral.head_ne rfl⟩)
  rw [if_neg (hword rfl _), if_neg (hword rfl _), hmagnitude] at hfloat
  exact hfloat

end FleetSizing.Toml
