import FleetSizing.Proofs.Binary64.Arithmetic
/-!
# Decimals that a double stands for

A double is told by its decoded form, and a decimal that equals a finite double is read as
that double: small decimals by one product or quotient with an exact power of ten, all
others by rounding the exact number.
-/

namespace FleetSizing.Binary64

open Float.Model Float.Model.UnpackedFloat

theorem eq_of_unpack_eq {x y : Float} (h : x.toModel.unpack = y.toModel.unpack) : x = y := by
  obtain ⟨⟨bits, hvalid⟩⟩ := x
  obtain ⟨⟨bits', hvalid'⟩⟩ := y
  have hbits : bits.toBitVec = bits'.toBitVec :=
    (unpack_inj_of_valid hvalid hvalid' (by decide)).1 h
  obtain rfl : bits = bits' := UInt64.toBitVec_inj.1 hbits
  rfl

theorem unpack_of_value? {x : Float} {m : Nat} {e : Int} (hm : 0 < m) (hcanonical : IsCanonical m e)
    (h : value? x = some (magnitude m e)) : x.toModel.unpack = .finite .positive m e hm := by
  have hpos := magnitude_pos hm e
  unfold value? at h
  cases hx : x.toModel.unpack with
  | infinity s => rw [hx] at h; cases h
  | notANumber => rw [hx] at h; cases h
  | zero s =>
      rw [hx] at h
      exact absurd (Option.some.inj h) hpos.ne
  | finite s n f hn =>
      rw [hx] at h
      have hvalue : signed s (magnitude n f) = magnitude m e := Option.some.inj h
      have hpos' := magnitude_pos hn f
      cases s with
      | negative =>
          rw [signed] at hvalue
          linarith
      | positive =>
          obtain ⟨rfl, rfl⟩ := (isCanonical_of_unpack hx).1.eq hcanonical hvalue
          rfl

/-- Whether a decoded double stands for a power of ten. -/
def isPowerOfTen (k : Nat) : UnpackedFloat → Bool
  | .finite .positive m e _ => m * 2 ^ e.toNat == 10 ^ k * 2 ^ (-e).toNat
  | _ => false

theorem isPowerOfTen_table : ∀ k : Fin 23,
    isPowerOfTen k (Float.exactlyRepresentablePowersOfTen[k]).toModel.unpack = true := by
  decide +kernel

theorem magnitude_eq_iff {m n : Nat} {e : Int} :
    magnitude m e = n ↔ m * 2 ^ e.toNat = n * 2 ^ (-e).toNat := by
  have hsplit : e = e.toNat - (-e).toNat := by omega
  have hpos : (0 : ℚ) < 2 ^ (-e).toNat := by positivity
  unfold magnitude
  conv_lhs => rw [hsplit, zpow_sub₀ two_ne_zero, zpow_natCast, zpow_natCast, ← mul_div_assoc]
  rw [div_eq_iff hpos.ne']
  exact_mod_cast Iff.rfl

theorem value?_of_isPowerOfTen {x : Float} {k : Nat}
    (h : isPowerOfTen k x.toModel.unpack = true) : value? x = some ((10 : ℚ) ^ k) := by
  unfold value?
  cases hx : x.toModel.unpack with
  | infinity s => rw [hx] at h; cases h
  | notANumber => rw [hx] at h; cases h
  | zero s => rw [hx] at h; cases h
  | finite s m e hm =>
      rw [hx] at h
      cases s with
      | negative => cases h
      | positive =>
          have hpower := magnitude_eq_iff.2 (beq_iff_eq.1 h)
          rw [unpackedValue?, signed, hpower]
          norm_num

section

variable {x : Float} {m : Nat} {q : Int} {hm : 0 < m} {n : Nat} {e : Int}

theorem abs_small_le_limit (hsmall : n < 2 ^ 53 ∧ e.natAbs ≤ 22) :
    |(n : ℚ) * 10 ^ e| ≤ limit := by
  have hn : (n : ℚ) ≤ 2 ^ 53 := by exact_mod_cast hsmall.1.le
  have he : (10 : ℚ) ^ e ≤ 10 ^ (22 : Int) := zpow_le_zpow_right₀ (by norm_num) (by omega)
  rw [abs_of_nonneg (by positivity)]
  calc
    (n : ℚ) * 10 ^ e ≤ 2 ^ 53 * 10 ^ (22 : Int) := by gcongr
    _ ≤ 2 ^ (127 : Int) := by norm_num
    _ ≤ limit := two_zpow_le_limit (by decide)

theorem value?_ofScientific_small (hsmall : n < 2 ^ 53 ∧ e.natAbs ≤ 22) :
    ∃ r, value? (Float.ofScientific n (e < 0) e.natAbs) = some r ∧ IsRounding (n * 10 ^ e) r := by
  have hn := value?_toFloat hsmall.1
  have hpower := value?_of_isPowerOfTen (isPowerOfTen_table ⟨e.natAbs, by omega⟩)
  have hbound := abs_small_le_limit hsmall
  unfold Float.ofScientific
  rw [dif_pos hsmall]
  by_cases hneg : e < 0
  · have hquotient : (n : ℚ) * 10 ^ e = n / 10 ^ e.natAbs := by
      have heq : e = -(e.natAbs : Int) := by omega
      conv_lhs => rw [heq, zpow_neg, zpow_natCast]
      rfl
    rw [hquotient] at hbound ⊢
    rw [if_pos (decide_eq_true hneg)]
    exact value?_div hn hpower (by positivity) hbound
  · have hproduct : (n : ℚ) * 10 ^ e = n * 10 ^ e.natAbs := by
      have heq : e = (e.natAbs : Int) := by omega
      conv_lhs => rw [heq, zpow_natCast]
    rw [hproduct] at hbound ⊢
    rw [if_neg (by simpa using hneg)]
    exact value?_mul hn hpower hbound

theorem ofScientific_small (hx : x.toModel.unpack = .finite .positive m q hm)
    (h : (n : ℚ) * 10 ^ e = magnitude m q) (hsmall : n < 2 ^ 53 ∧ e.natAbs ≤ 22) :
    Float.ofScientific n (e < 0) e.natAbs = x := by
  have hcanonical := (isCanonical_of_unpack hx).1
  obtain ⟨r, hr, hround⟩ := value?_ofScientific_small hsmall
  rw [h] at hround
  rw [hround.eq ⟨.positive, m, q, hcanonical.1.le, hcanonical.2.1, rfl⟩] at hr
  apply eq_of_unpack_eq
  rw [hx]
  exact unpack_of_value? hm hcanonical hr

theorem exponent_bounds (hx : x.toModel.unpack = .finite .positive m q hm)
    (h : (n : ℚ) * 10 ^ e = magnitude m q) (hn : 0 < n) :
    e ≤ 2048 ∧ -(2048 + (n.log2 : Int)) ≤ e := by
  obtain ⟨hcanonical, hq⟩ := isCanonical_of_unpack hx
  constructor
  · by_contra hlarge
    have hone : (1 : ℚ) ≤ n := by exact_mod_cast hn
    refine absurd (hcanonical.magnitude_lt hq) (not_lt_of_ge ?_)
    calc
      (2 : ℚ) ^ (1024 : Int) ≤ 2 ^ e := zpow_le_zpow_right₀ one_le_two (by omega)
      _ ≤ 10 ^ e := zpow_le_zpow_left₀ (by omega) (by norm_num) (by norm_num)
      _ ≤ n * 10 ^ e := le_mul_of_one_le_left (by positivity) hone
      _ = magnitude m q := h
  · by_contra hsmall
    have hlog : (n : ℚ) < 2 ^ ((n.log2 : Int) + 1) := by
      have hlt : (n : ℚ) < (2 ^ (n.log2 + 1) : Nat) := Nat.cast_lt.2 Nat.lt_log2_self
      rw [Nat.cast_pow] at hlt
      exact_mod_cast hlt
    refine absurd (hcanonical.le_magnitude hm) (not_le_of_gt ?_)
    calc
      magnitude m q = n * 10 ^ e := h.symm
      _ ≤ n * 2 ^ e := by
        have heq : e = -(e.natAbs : Int) := by omega
        have hbase : (10 : ℚ) ^ e ≤ 2 ^ e := by
          rw [heq, zpow_neg, zpow_neg, zpow_natCast, zpow_natCast]
          gcongr
          norm_num
        gcongr
      _ < 2 ^ ((n.log2 : Int) + 1) * 2 ^ e := by gcongr
      _ = 2 ^ ((n.log2 : Int) + 1 + e) := (zpow_add₀ two_ne_zero ..).symm
      _ ≤ 2 ^ (-1074 : Int) := zpow_le_zpow_right₀ one_le_two (by omega)

theorem magnitude_product (n : Nat) (he : 0 ≤ e) :
    magnitude (n * 2 ^ 53 * 10 ^ e.toNat) (-53) = n * 10 ^ e := by
  have heq : e = (e.toNat : Int) := by omega
  have hswap : n * 2 ^ 53 * 10 ^ e.toNat = n * 10 ^ e.toNat * 2 ^ 53 := by ring
  rw [hswap, magnitude_scaled]
  conv_rhs => rw [heq, zpow_natCast]
  push_cast
  rfl

theorem magnitude_quotient (n : Nat) (he : e < 0) :
    magnitude n 0 / magnitude (10 ^ (-e).toNat) 0 = n * 10 ^ e := by
  have heq : e = -((-e).toNat : Int) := by omega
  conv_rhs => rw [heq, zpow_neg, zpow_natCast]
  simp [magnitude, div_eq_mul_inv]

theorem unpack_ofScientific (hx : x.toModel.unpack = .finite .positive m q hm)
    (h : (n : ℚ) * 10 ^ e = magnitude m q) :
    (Float.Model.pack (UnpackedFloat.ofScientific Format.binary64 n e)).unpack =
      .finite .positive m q hm := by
  have hn : 0 < n := by
    apply Nat.pos_of_ne_zero
    rintro rfl
    rw [Nat.cast_zero, zero_mul] at h
    exact (magnitude_pos hm q).ne h
  obtain ⟨hcanonical, hq⟩ := isCanonical_of_unpack hx
  obtain ⟨hle, hge⟩ := exponent_bounds hx h hn
  have htop : ¬ e > 2 ^ Format.binary64.exponentBits := by
    change ¬ e > 2048
    omega
  have hbottom : ¬ e < -((2 ^ Format.binary64.exponentBits : Int) + n.log2) := by
    change ¬ e < -(2048 + (n.log2 : Int))
    omega
  unfold UnpackedFloat.ofScientific
  rw [dif_neg hn.ne', if_neg htop, if_neg hbottom]
  by_cases hnonneg : 0 ≤ e
  · rw [if_pos hnonneg]
    simp only [UnpackedFloat.mul, Nat.shiftLeft_eq]
    have hpos : 0 < n * 2 ^ 53 * 10 ^ e.toNat := by positivity
    have hvalue := (magnitude_product n hnonneg).trans h
    have hlog : 53 ≤ (n * 2 ^ 53 * 10 ^ e.toNat).log2 := by
      rw [Nat.le_log2 hpos.ne', Nat.mul_right_comm]
      exact Nat.le_mul_of_pos_left _ (by positivity)
    apply unpack_pack_round _ hm hcanonical hq
    rw [← hvalue]
    exact approximates_exact hpos (by omega)
  · rw [if_neg hnonneg]
    simp only [UnpackedFloat.div, divCore, Nat.shiftLeft_eq]
    have hpos : 0 < 10 ^ (-e).toNat := by positivity
    have hvalue := (magnitude_quotient n (Int.not_le.1 hnonneg)).trans h
    apply unpack_pack_round _ hm hcanonical hq
    rw [← hvalue]
    exact approximates_quotient hn hpos rfl

/-- A decimal that equals a finite positive double is read as this double. -/
theorem ofScientific_eq (hx : x.toModel.unpack = .finite .positive m q hm)
    (h : (n : ℚ) * 10 ^ e = magnitude m q) : Float.ofScientific n (e < 0) e.natAbs = x := by
  by_cases hsmall : n < 2 ^ 53 ∧ e.natAbs ≤ 22
  · exact ofScientific_small hx h hsmall
  · have hexponent : (if decide (e < 0) = true then Int.negOfNat e.natAbs else Int.ofNat e.natAbs) =
        e := by
      by_cases hneg : e < 0
      · rw [if_pos (decide_eq_true hneg), Int.negOfNat_eq, Int.ofNat_eq_natCast]
        omega
      · rw [if_neg (by simpa using hneg), Int.ofNat_eq_natCast]
        omega
    apply eq_of_unpack_eq
    rw [hx, ← unpack_ofScientific hx h]
    unfold Float.ofScientific
    rw [dif_neg hsmall]
    dsimp only
    rw [hexponent]
    rfl

end

end FleetSizing.Binary64
