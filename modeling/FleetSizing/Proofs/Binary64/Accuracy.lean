import FleetSizing.Proofs.Binary64.Arithmetic
/-!
# How far a rounding is off

A rounding is at most one unit in the last place off.  The double nearest to a number is a
rounding of it, and a double half a unit in the last place off is the nearest one.
-/

namespace FleetSizing.Binary64

open Float.Model Float.Model.UnpackedFloat

variable {q r : ℚ}

theorem isRepresentable_mul_two_zpow {k : Nat} {e : Int} (hk : k ≤ 2 ^ 53) (he : -1074 ≤ e) :
    IsRepresentable (k * 2 ^ e) :=
  ⟨.positive, k, e, hk, he, rfl⟩

theorem IsRounding.abs_sub_le (h : IsRounding q r) (hq : 0 ≤ q) {e : Int} (he : -1074 ≤ e)
    (hbound : q ≤ 2 ^ (e + 53)) : |r - q| ≤ 2 ^ e := by
  have hunit : (0 : ℚ) < 2 ^ e := zpow_pos two_pos e
  have hsplit : (2 : ℚ) ^ (e + 53) = 2 ^ 53 * 2 ^ e := by
    rw [zpow_add₀ two_ne_zero, mul_comm]
    norm_cast
  set k := ⌊q / 2 ^ e⌋₊ with hk
  have hlow : (k : ℚ) * 2 ^ e ≤ q := by
    rw [← le_div_iff₀ hunit]
    exact Nat.floor_le (by positivity)
  have hhigh : q < (k + 1 : Nat) * 2 ^ e := by
    rw [← div_lt_iff₀ hunit]
    push_cast
    exact Nat.lt_floor_add_one _
  have hk53 : k ≤ 2 ^ 53 := by
    have : (k : ℚ) * 2 ^ e ≤ 2 ^ 53 * 2 ^ e := (hlow.trans hbound).trans_eq hsplit
    exact_mod_cast le_of_mul_le_mul_right this hunit
  have hge := h.le_of_ge _ (isRepresentable_mul_two_zpow hk53 he) hlow
  by_cases hlast : k + 1 ≤ 2 ^ 53
  · have hle := h.le_of_le _ (isRepresentable_mul_two_zpow hlast he) hhigh.le
    push_cast at hle hhigh
    rw [abs_le]
    constructor <;> linarith
  · have hk' : k = 2 ^ 53 := by omega
    rw [hk'] at hlow
    push_cast at hlow
    have hq' : q = (2 ^ 53 : Nat) * 2 ^ e := by
      push_cast
      linarith
    have hsame := h.eq (hq' ▸ isRepresentable_mul_two_zpow le_rfl he)
    rw [hsame, sub_self, abs_zero]
    exact hunit.le

theorem IsRounding.abs_sub_le_mul (h : IsRounding q r) (hq : 2 ^ (-1022 : Int) ≤ q) :
    |r - q| ≤ 2 ^ (-52 : Int) * q := by
  have hpos : 0 < q := (zpow_pos two_pos _).trans_le hq
  have hlow : (2 : ℚ) ^ Int.log 2 q ≤ q := Int.zpow_log_le_self (by decide) hpos
  have hhigh : q < (2 : ℚ) ^ (Int.log 2 q + 1) := Int.lt_zpow_succ_log_self (by decide) q
  have hlog : -1022 ≤ Int.log 2 q := by
    have := (zpow_lt_zpow_iff_right₀ (one_lt_two : (1 : ℚ) < 2)).1 (hq.trans_lt hhigh)
    omega
  have hexponent : Int.log 2 q - 52 + 53 = Int.log 2 q + 1 := by ring
  calc
    |r - q| ≤ 2 ^ (Int.log 2 q - 52) := by
      refine h.abs_sub_le hpos.le (by omega) ?_
      rw [hexponent]
      exact hhigh.le
    _ = 2 ^ (-52 : Int) * 2 ^ Int.log 2 q := by
      rw [← zpow_add₀ two_ne_zero]
      congr 1
      ring
    _ ≤ 2 ^ (-52 : Int) * q := by gcongr

/-- A double that no double is nearer to a number than. -/
def IsNearest (q : ℚ) (x : Float) : Prop :=
  ∃ v, value? x = some v ∧ ∀ y w, value? y = some w → |v - q| ≤ |w - q|

theorem IsRepresentable.exists_double {v : ℚ} (hv : IsRepresentable v) (hbound : |v| ≤ limit) :
    ∃ x, value? x = some v := by
  have hrepresentable := hv
  obtain ⟨s, m, e, -, -, rfl⟩ := hv
  by_cases hm : m = 0
  · refine ⟨0.0, ?_⟩
    rw [value?_zero, hm]
    cases s <;> simp [signed, magnitude]
  · have hround := roundsTo_pack_round_exact s (Nat.pos_of_ne_zero hm) e
    obtain ⟨r, hr, hrounding⟩ := hround.exists_value hbound
    rw [hrounding.eq hrepresentable] at hr
    exact ⟨.ofModel _, hr⟩

/-- No representable number separates a number from the double nearest to it. -/
theorem IsNearest.exists_isRounding {x : Float} (h : IsNearest q x) (hq : |q| ≤ limit) :
    ∃ v, value? x = some v ∧ IsRounding q v := by
  obtain ⟨v, hv, hnearest⟩ := h
  obtain ⟨hlow, hhigh⟩ := abs_le.1 hq
  have hlimit : (0 : ℚ) ≤ limit := (abs_nonneg q).trans hq
  refine ⟨v, hv, ?_, ?_⟩
  · intro u hu hle
    by_contra hlt
    -- A separating number within the limit is a double, and nearer.
    have hu' : IsRepresentable (min u limit) := by
      rcases min_choice u limit with h | h <;> rw [h]
      · exact hu
      · exact isRepresentable_limit
    have hqu : q ≤ min u limit := le_min hle hhigh
    have huv : min u limit < v := (min_le_left _ _).trans_lt (not_le.1 hlt)
    obtain ⟨y, hy⟩ := hu'.exists_double (abs_le.2 ⟨hlow.trans hqu, min_le_right _ _⟩)
    have := hnearest y _ hy
    rw [abs_of_nonneg (by linarith), abs_of_nonneg (by linarith)] at this
    linarith
  · intro u hu hle
    by_contra hlt
    have hu' : IsRepresentable (max u (-limit)) := by
      rcases max_choice u (-limit) with h | h <;> rw [h]
      · exact hu
      · exact isRepresentable_limit.neg
    have hqu : max u (-limit) ≤ q := max_le hle hlow
    have huv : v < max u (-limit) := (not_le.1 hlt).trans_le (le_max_left _ _)
    obtain ⟨y, hy⟩ := hu'.exists_double (abs_le.2 ⟨le_max_right _ _, hqu.trans hhigh⟩)
    have := hnearest y _ hy
    rw [abs_of_nonpos (by linarith), abs_of_nonpos (by linarith)] at this
    linarith

theorem isRepresentable_of_value? {x : Float} {v : ℚ} (hx : value? x = some v) :
    IsRepresentable v := by
  unfold value? at hx
  cases hu : x.toModel.unpack with
  | infinity s => rw [hu] at hx; cases hx
  | notANumber => rw [hu] at hx; cases hx
  | zero s =>
      rw [hu] at hx
      obtain rfl := Option.some.inj hx
      exact isRepresentable_zero
  | finite s m e hm =>
      rw [hu] at hx
      obtain rfl := Option.some.inj hx
      have hcanonical := (isCanonical_of_unpack hu).1
      exact ⟨s, m, e, hcanonical.1.le, hcanonical.2.1, rfl⟩

theorem IsRepresentable.eq_of_abs_sub_lt {v : ℚ} (hv : IsRepresentable v) {m : Nat} {e : Int}
    (hm : 2 ^ 52 < m) (hclose : |v - magnitude m e| < 2 ^ e) : v = magnitude m e := by
  obtain ⟨hlow, hhigh⟩ := abs_lt.1 hclose
  have hpred : magnitude (m - 1) e = magnitude m e - 2 ^ e := by
    unfold magnitude
    rw [Nat.cast_sub (by omega), Nat.cast_one]
    ring
  have hsucc : magnitude (m + 1) e = magnitude m e + 2 ^ e := by
    unfold magnitude
    push_cast
    ring
  have hbelow : magnitude (m - 1) e < v := by linarith
  have habove : v < magnitude (m + 1) e := by linarith
  obtain ⟨s, a, b, ha, -, rfl⟩ := hv
  cases s with
  | negative =>
      have := magnitude_nonneg a b
      have := magnitude_nonneg (m - 1) e
      rw [signed] at hbelow
      linarith
  | positive =>
      rw [signed] at hbelow habove ⊢
      have hexponent : e ≤ b := by
        by_contra hlt
        refine absurd hbelow (not_lt.2 ?_)
        calc
          magnitude a b ≤ magnitude (2 ^ 53) b := magnitude_le_magnitude_iff.2 ha
          _ = 2 ^ (b + (53 : Nat)) := magnitude_two_pow 53 b
          _ ≤ 2 ^ (e + (52 : Nat)) := zpow_le_zpow_right₀ one_le_two (by push_cast; omega)
          _ = magnitude (2 ^ 52) e := (magnitude_two_pow 52 e).symm
          _ ≤ magnitude (m - 1) e := magnitude_le_magnitude_iff.2 (by omega)
      rw [magnitude_eq_of_le a hexponent] at hbelow habove ⊢
      have := magnitude_lt_magnitude_iff.1 hbelow
      have := magnitude_lt_magnitude_iff.1 habove
      congr 1
      omega

/-- A double half a unit in the last place off is the nearest one. -/
theorem isNearest_of_abs_sub_le {x : Float} {m : Nat} {e : Int}
    (hx : value? x = some (magnitude m e)) (hm : 2 ^ 52 < m)
    (hq : |magnitude m e - q| ≤ 2 ^ (e - 1)) : IsNearest q x := by
  refine ⟨_, hx, fun y w hy => ?_⟩
  by_contra hnearer
  have hhalves : (2 : ℚ) ^ (e - 1) + 2 ^ (e - 1) = 2 ^ e := by
    rw [zpow_sub_one₀ two_ne_zero]
    ring
  have hclose : |w - magnitude m e| < 2 ^ e := by
    calc
      |w - magnitude m e| ≤ |w - q| + |q - magnitude m e| := abs_sub_le ..
      _ < 2 ^ (e - 1) + 2 ^ (e - 1) := by
        rw [abs_sub_comm q]
        linarith [not_le.1 hnearer]
      _ = 2 ^ e := hhalves
  rw [(isRepresentable_of_value? hy).eq_of_abs_sub_lt hm hclose] at hnearer
  exact hnearer le_rfl

/-- A double that lies above a number, be it as infinity. -/
def Exceeds (x : Float) (q : ℚ) : Prop :=
  x.toModel.unpack = .infinity .positive ∨ ∃ r, value? x = some r ∧ q < r

theorem exceeds_of_roundsTo {x : Float} (h : RoundsTo q x.toModel.unpack)
    (hq : 2 ^ (-1022 : Int) ≤ q) {b : ℚ} (hb : b < (1 - 2 ^ (-52 : Int)) * q) : Exceeds x b := by
  generalize hu : x.toModel.unpack = u at h
  cases h with
  | @rounding _ r hr hrounding =>
      have herror := (abs_le.1 (hrounding.abs_sub_le_mul hq)).1
      refine Or.inr ⟨r, by rw [value?, hu, hr], ?_⟩
      linarith
  | overflow => exact Or.inl hu
  | underflow hlow =>
      have hpos : 0 < q := (zpow_pos two_pos _).trans_le hq
      have hlimit : (0 : ℚ) < limit := by
        unfold limit
        positivity
      linarith

section

variable {x y : Float} {a b c : ℚ}

theorem Exceeds.mul (hx : value? x = some a) (ha : 0 < a) (hy : Exceeds y b)
    (hlarge : 2 ^ (-1022 : Int) ≤ a * b) (hc : c ≤ (1 - 2 ^ (-52 : Int)) * (a * b)) :
    Exceeds (x * y) c := by
  rcases hy with hinf | ⟨v, hv, hbv⟩
  · left
    unfold value? at hx
    change (Float.Model.pack
      (UnpackedFloat.mul Format.binary64 x.toModel.unpack y.toModel.unpack)).unpack = _
    rw [hinf]
    cases hu : x.toModel.unpack with
    | infinity s => rw [hu] at hx; cases hx
    | notANumber => rw [hu] at hx; cases hx
    | zero s =>
        rw [hu] at hx
        exact absurd (Option.some.inj hx) ha.ne
    | finite s m e hm =>
        rw [hu] at hx
        have hvalue : signed s (magnitude m e) = a := Option.some.inj hx
        cases s with
        | positive => exact unpack_pack_infinity .positive
        | negative =>
            have := magnitude_nonneg m e
            rw [signed] at hvalue
            linarith
  · have hlt : a * b < a * v := mul_lt_mul_of_pos_left hbv ha
    refine exceeds_of_roundsTo (roundsTo_mul hx hv) (hlarge.trans hlt.le) ?_
    calc
      c ≤ (1 - 2 ^ (-52 : Int)) * (a * b) := hc
      _ < (1 - 2 ^ (-52 : Int)) * (a * v) := mul_lt_mul_of_pos_left hlt (by norm_num)

theorem Exceeds.sub (hx : Exceeds x b) (hy : value? y = some a)
    (hlarge : 2 ^ (-1022 : Int) ≤ b - a) (hc : c ≤ (1 - 2 ^ (-52 : Int)) * (b - a)) :
    Exceeds (x - y) c := by
  rcases hx with hinf | ⟨v, hv, hbv⟩
  · left
    unfold value? at hy
    change (Float.Model.pack
      (UnpackedFloat.sub Format.binary64 x.toModel.unpack y.toModel.unpack)).unpack = _
    rw [hinf]
    cases hu : y.toModel.unpack with
    | infinity s => rw [hu] at hy; cases hy
    | notANumber => rw [hu] at hy; cases hy
    | zero s => exact unpack_pack_infinity .positive
    | finite s m e hm => exact unpack_pack_infinity .positive
  · have hlt : b - a < v - a := sub_lt_sub_right hbv a
    refine exceeds_of_roundsTo (roundsTo_sub hv hy) (hlarge.trans hlt.le) ?_
    calc
      c ≤ (1 - 2 ^ (-52 : Int)) * (b - a) := hc
      _ < (1 - 2 ^ (-52 : Int)) * (v - a) := mul_lt_mul_of_pos_left hlt (by norm_num)

end

end FleetSizing.Binary64
