import FleetSizing.Proofs.Binary64.Rounding
/-!
# Sums, products and quotients of doubles

A double that results from an operation on finite doubles stands for a rounding of the
exact result, and it is finite as long as that is not too large.
-/

namespace FleetSizing.Binary64

open Float.Model Float.Model.UnpackedFloat

theorem magnitude_mul (m n : Nat) (e f : Int) :
    magnitude (m * n) (e + f) = magnitude m e * magnitude n f := by
  unfold magnitude
  rw [zpow_add₀ two_ne_zero]
  push_cast
  ring

theorem signed_mul (s s' : Sign) (a b : ℚ) :
    signed (s * s') (a * b) = signed s a * signed s' b := by
  cases s <;> cases s'
  · exact (neg_mul_neg a b).symm
  · exact (neg_mul a b).symm
  · exact (mul_neg a b).symm
  · rfl

theorem signed_div (s s' : Sign) (a b : ℚ) :
    signed (s / s') (a / b) = signed s a / signed s' b := by
  cases s <;> cases s'
  · exact (neg_div_neg_eq a b).symm
  · exact (neg_div b a).symm
  · exact (div_neg a).symm
  · rfl

theorem signed_magnitude (s : Sign) (m : Nat) (e : Int) :
    signed s (magnitude m e) = (s.apply m : ℤ) * 2 ^ e := by
  cases s <;> simp [signed, magnitude, Sign.apply]

theorem log2_mul_two_pow {m : Nat} (hm : m ≠ 0) (k : Nat) : (m * 2 ^ k).log2 = m.log2 + k := by
  induction k with
  | zero => simp
  | succ k ih =>
      have hne : m * 2 ^ k ≠ 0 := Nat.mul_ne_zero hm (Nat.two_pow_pos k).ne'
      have hsplit : m * 2 ^ (k + 1) = 2 * (m * 2 ^ k) := by ring
      rw [hsplit, Nat.log2_two_mul hne, ih]
      rfl

theorem roundsTo_pack_round_exact (s : Sign) {m : Nat} (hm : 0 < m) (e : Int) :
    RoundsTo (signed s (magnitude m e))
      (Float.Model.pack (UnpackedFloat.round Format.binary64 s m e)).unpack := by
  unfold UnpackedFloat.round decreaseExponent
  simp only [targetExponent_eq, Nat.shiftLeft_eq]
  set t := max ((m.log2 : Int) + e - 52) (-1074) with ht
  set k := (e - t).toNat with hk
  have hlog := log2_mul_two_pow hm.ne' k
  have hsame : magnitude (m * 2 ^ k) (e - k) = magnitude m e := by
    by_cases h : t ≤ e
    · have hek : e - k = t := by omega
      rw [magnitude_eq_of_le m h, ← hk, hek]
    · have hk0 : k = 0 := by omega
      rw [hk0, pow_zero, mul_one, Nat.cast_zero, sub_zero]
  rw [← hsame]
  refine roundsTo_pack_round s (approximates_exact (Nat.mul_pos hm (Nat.two_pow_pos k)) ?_)
  rw [hlog]
  push_cast
  omega

theorem roundsTo_pack_normalize (n : Int) (e : Int) (s : Sign) : RoundsTo (n * 2 ^ e)
    (Float.Model.pack (UnpackedFloat.normalize Format.binary64 n e s)).unpack := by
  unfold UnpackedFloat.normalize
  rcases lt_trichotomy n 0 with hn | rfl | hn
  · have hvalue : (n : ℚ) * 2 ^ e = signed .negative (magnitude (-n).toNat e) := by
      rw [signed_magnitude, Sign.apply, Int.toNat_of_nonneg (by omega), neg_neg]
    rw [compare_lt_iff_lt.2 hn, hvalue]
    exact roundsTo_pack_round_exact .negative (by omega) e
  · rw [compare_eq_iff_eq.2 rfl, Int.cast_zero, zero_mul]
    refine .rounding (r := 0) ?_ IsRounding.refl
    simp only [unpack_pack_zero, unpackedValue?]
  · have hvalue : (n : ℚ) * 2 ^ e = signed .positive (magnitude n.toNat e) := by
      rw [signed_magnitude, Sign.apply, Int.toNat_of_nonneg (by omega)]
    rw [compare_gt_iff_gt.2 hn, hvalue]
    exact roundsTo_pack_round_exact .positive (by omega) e

/-! ## Operations -/

theorem unpack_pack_of_isStored {u : UnpackedFloat} (hu : IsStored u) {a : ℚ}
    (h : unpackedValue? u = some a) : (Float.Model.pack u).unpack = u := by
  cases u with
  | infinity s => cases h
  | notANumber => cases h
  | zero s => exact unpack_pack_zero s
  | finite s m e hm => exact unpack_pack s hm hu.1 hu.2

theorem roundsTo_pack_add {u v : UnpackedFloat} {a b : ℚ} (hu : IsStored u) (hv : IsStored v)
    (ha : unpackedValue? u = some a) (hb : unpackedValue? v = some b) : RoundsTo (a + b)
      (Float.Model.pack (UnpackedFloat.add Format.binary64 u v)).unpack := by
  have hu' := unpack_pack_of_isStored hu ha
  have hv' := unpack_pack_of_isStored hv hb
  cases u with
  | infinity s => cases ha
  | notANumber => cases ha
  | zero s =>
      obtain rfl := Option.some.inj ha
      rw [zero_add]
      cases v with
      | infinity s' => cases hb
      | notANumber => cases hb
      | zero s' =>
          obtain rfl := Option.some.inj hb
          refine .rounding (r := 0) ?_ IsRounding.refl
          cases s <;> cases s' <;> rfl
      | finite s' n f hn =>
          change RoundsTo b (Float.Model.pack (.finite s' n f hn)).unpack
          rw [hv']
          exact .rounding hb IsRounding.refl
  | finite s m e hm =>
      cases v with
      | infinity s' => cases hb
      | notANumber => cases hb
      | zero s' =>
          obtain rfl := Option.some.inj hb
          rw [add_zero]
          change RoundsTo a (Float.Model.pack (.finite s m e hm)).unpack
          rw [hu']
          exact .rounding ha IsRounding.refl
      | finite s' n f hn =>
          obtain rfl := Option.some.inj ha
          obtain rfl := Option.some.inj hb
          have hsum : signed s (magnitude m e) + signed s' (magnitude n f) =
              ((s.apply (m * 2 ^ (e - min e f).toNat : Nat) +
                s'.apply (n * 2 ^ (f - min e f).toNat : Nat) : ℤ) : ℚ) * 2 ^ min e f := by
            rw [magnitude_eq_of_le m (min_le_left e f), magnitude_eq_of_le n (min_le_right e f),
              signed_magnitude, signed_magnitude, Int.cast_add, add_mul]
          rw [hsum]
          simp only [UnpackedFloat.add, decreaseExponent, Nat.shiftLeft_eq]
          exact roundsTo_pack_normalize _ _ _

theorem value?_add {x y : Float} {a b : ℚ} (hx : value? x = some a) (hy : value? y = some b)
    (hbound : |a + b| ≤ limit) :
    ∃ r, value? (x + y) = some r ∧ IsRounding (a + b) r :=
  (roundsTo_pack_add (isStored_unpack x) (isStored_unpack y) hx hy).exists_value hbound

theorem roundsTo_mul {x y : Float} {a b : ℚ} (hx : value? x = some a) (hy : value? y = some b) :
    RoundsTo (a * b) (x * y).toModel.unpack := by
  change RoundsTo (a * b) (Float.Model.pack
    (UnpackedFloat.mul Format.binary64 x.toModel.unpack y.toModel.unpack)).unpack
  have hzero (s : Sign) (q : ℚ) (hq : q = 0) : RoundsTo q (Float.Model.pack (.zero s)).unpack := by
    rw [unpack_pack_zero, hq]
    exact .rounding rfl IsRounding.refl
  unfold value? at hx hy
  cases hux : x.toModel.unpack with
  | infinity s => rw [hux] at hx; cases hx
  | notANumber => rw [hux] at hx; cases hx
  | zero s =>
      rw [hux] at hx
      obtain rfl := Option.some.inj hx
      cases huy : y.toModel.unpack with
      | infinity s => rw [huy] at hy; cases hy
      | notANumber => rw [huy] at hy; cases hy
      | zero s' => exact hzero _ _ (zero_mul b)
      | finite s' n f hn => exact hzero _ _ (zero_mul b)
  | finite s m e hm =>
      rw [hux] at hx
      cases huy : y.toModel.unpack with
      | infinity s => rw [huy] at hy; cases hy
      | notANumber => rw [huy] at hy; cases hy
      | zero s' =>
          rw [huy] at hy
          obtain rfl := Option.some.inj hy
          exact hzero _ _ (mul_zero a)
      | finite s' n f hn =>
          rw [huy] at hy
          obtain rfl := Option.some.inj hx
          obtain rfl := Option.some.inj hy
          obtain ⟨⟨_, hle, hnormal⟩, -⟩ := isCanonical_of_unpack hux
          obtain ⟨⟨_, hlf, hnormal'⟩, -⟩ := isCanonical_of_unpack huy
          have hpos : 0 < m * n := Nat.mul_pos hm hn
          have henough : 52 ≤ (m * n).log2 ∨ e + f ≤ -1074 := by
            by_cases h : 2 ^ 52 ≤ m * n
            · exact Or.inl ((Nat.le_log2 hpos.ne').2 h)
            · have hm52 := Nat.le_mul_of_pos_right m hn
              have hn52 := Nat.le_mul_of_pos_left n hm
              omega
          rw [← signed_mul, ← magnitude_mul]
          exact roundsTo_pack_round (s * s') (approximates_exact hpos (by omega))

theorem value?_mul {x y : Float} {a b : ℚ} (hx : value? x = some a) (hy : value? y = some b)
    (hbound : |a * b| ≤ limit) :
    ∃ r, value? (x * y) = some r ∧ IsRounding (a * b) r :=
  (roundsTo_mul hx hy).exists_value hbound

theorem unpackedValue?_neg {u : UnpackedFloat} {a : ℚ} (h : unpackedValue? u = some a) :
    unpackedValue? u.neg = some (-a) := by
  cases u with
  | infinity s => cases h
  | notANumber => cases h
  | zero s =>
      obtain rfl := Option.some.inj h
      rw [neg_zero]
      rfl
  | finite s m e hm =>
      obtain rfl := Option.some.inj h
      cases s with
      | positive => rfl
      | negative => exact congrArg some (neg_neg _).symm

theorem IsStored.neg {u : UnpackedFloat} (hu : IsStored u) : IsStored u.neg := by
  cases u with
  | finite => exact hu
  | zero | infinity | notANumber => trivial

theorem sub_eq_add_neg_of_value {u v : UnpackedFloat} {b : ℚ} (hb : unpackedValue? v = some b) :
    UnpackedFloat.sub Format.binary64 u v = UnpackedFloat.add Format.binary64 u v.neg := by
  cases v with
  | infinity s => cases hb
  | notANumber => cases hb
  | zero s => cases u <;> rfl
  | finite s n f hn =>
      cases u with
      | zero | infinity | notANumber => rfl
      | finite s' m e hm =>
          have hsign (k : Int) : (-s).apply k = -s.apply k := by
            cases s with
            | positive => rfl
            | negative => exact (neg_neg k).symm
          simp only [UnpackedFloat.sub, UnpackedFloat.add, UnpackedFloat.neg, hsign, sub_eq_add_neg]

theorem roundsTo_sub {x y : Float} {a b : ℚ} (hx : value? x = some a) (hy : value? y = some b) :
    RoundsTo (a - b) (x - y).toModel.unpack := by
  change RoundsTo (a - b) (Float.Model.pack
    (UnpackedFloat.sub Format.binary64 x.toModel.unpack y.toModel.unpack)).unpack
  rw [sub_eq_add_neg_of_value hy, sub_eq_add_neg]
  exact roundsTo_pack_add (isStored_unpack x) (isStored_unpack y).neg hx (unpackedValue?_neg hy)

theorem value?_sub {x y : Float} {a b : ℚ} (hx : value? x = some a) (hy : value? y = some b)
    (hbound : |a - b| ≤ limit) :
    ∃ r, value? (x - y) = some r ∧ IsRounding (a - b) r :=
  (roundsTo_sub hx hy).exists_value hbound

theorem le_log2_div {m n : Nat} (hm : 0 < m) (hn : 0 < n) {k : Nat}
    (hk : n.log2 + 53 ≤ m.log2 + k) : 52 ≤ (m * 2 ^ k / n).log2 := by
  have hle : 2 ^ 52 * n ≤ m * 2 ^ k := by
    calc
      2 ^ 52 * n ≤ 2 ^ 52 * 2 ^ (n.log2 + 1) := Nat.mul_le_mul_left _ Nat.lt_log2_self.le
      _ = 2 ^ (n.log2 + 53) := by ring
      _ ≤ 2 ^ (m.log2 + k) := Nat.pow_le_pow_right (by decide) hk
      _ = 2 ^ m.log2 * 2 ^ k := pow_add 2 _ _
      _ ≤ m * 2 ^ k := Nat.mul_le_mul_right _ (Nat.log2_self_le hm.ne')
  have hquot : 2 ^ 52 ≤ m * 2 ^ k / n := (Nat.le_div_iff_mul_le hn).2 hle
  have hne : m * 2 ^ k / n ≠ 0 := by omega
  exact (Nat.le_log2 hne).2 hquot

theorem approximates_quotient {m n : Nat} (hm : 0 < m) (hn : 0 < n) {e f t : Int}
    (ht : t = min (e - f) (max (m.log2 + 1 + e - (n.log2 + 1 + f) - 53) (-1074))) :
    Approximates (magnitude m e / magnitude n f) (m * 2 ^ (e - f - t).toNat / n) t
      (accuracyOfFraction (m * 2 ^ (e - f - t).toNat % n) n) := by
  set k := (e - f - t).toNat with hk
  set num := m * 2 ^ k with hnum
  have hn' : (0 : ℚ) < n := Nat.cast_pos.2 hn
  have hvalue : magnitude m e / magnitude n f = (num / n : ℚ) * 2 ^ t := by
    have hsplit : e = t + f + k := by omega
    have hf : (2 : ℚ) ^ f ≠ 0 := (zpow_pos two_pos f).ne'
    unfold magnitude
    rw [hsplit, zpow_add₀ two_ne_zero, zpow_add₀ two_ne_zero, zpow_natCast, hnum]
    push_cast
    field_simp
  rw [hvalue]
  have ht2 : (0 : ℚ) < 2 ^ t := zpow_pos two_pos t
  have hpos : 0 < (num : ℚ) / n := by
    rw [hnum]
    positivity
  constructor
  · exact mul_pos hpos ht2
  · -- Either the quotient fills the significand or the exponent is the least one.
    by_cases hmin : t ≤ -1074
    · omega
    · have hlog : 52 ≤ (num / n).log2 := le_log2_div hm hn (by omega)
      omega
  · exact mul_le_mul_of_nonneg_right Nat.cast_div_le ht2.le
  · refine mul_lt_mul_of_pos_right ?_ ht2
    rw [div_lt_iff₀ hn', mul_comm]
    exact_mod_cast Nat.lt_mul_div_succ num hn
  · intro heq
    have hdiv : (num : ℚ) / n = (num / n : Nat) := mul_right_cancel₀ ht2.ne' heq
    rw [div_eq_iff hn'.ne'] at hdiv
    have hdiv : num = num / n * n := by exact_mod_cast hdiv
    have hmod : num % n = 0 := by
      rw [hdiv]
      exact Nat.mul_mod_left _ _
    exact if_pos hmod

theorem value?_div {x y : Float} {a b : ℚ} (hx : value? x = some a) (hy : value? y = some b)
    (hb : b ≠ 0) (hbound : |a / b| ≤ limit) :
    ∃ r, value? (x / y) = some r ∧ IsRounding (a / b) r := by
  change ∃ r, unpackedValue? (Float.Model.pack
    (UnpackedFloat.div Format.binary64 x.toModel.unpack y.toModel.unpack)).unpack = some r ∧ _
  unfold value? at hx hy
  cases huy : y.toModel.unpack with
  | infinity s => rw [huy] at hy; cases hy
  | notANumber => rw [huy] at hy; cases hy
  | zero s' =>
      rw [huy] at hy
      exact absurd (Option.some.inj hy).symm hb
  | finite s' n f hn =>
      rw [huy] at hy
      obtain rfl := Option.some.inj hy
      cases hux : x.toModel.unpack with
      | infinity s => rw [hux] at hx; cases hx
      | notANumber => rw [hux] at hx; cases hx
      | zero s =>
          rw [hux] at hx
          obtain rfl := Option.some.inj hx
          rw [zero_div]
          exact ⟨0, by rw [UnpackedFloat.div, unpack_pack_zero]; rfl, IsRounding.refl⟩
      | finite s m e hm =>
          rw [hux] at hx
          obtain rfl := Option.some.inj hx
          rw [← signed_div] at hbound ⊢
          simp only [UnpackedFloat.div, divCore, Nat.shiftLeft_eq]
          exact (roundsTo_pack_round (s / s') (approximates_quotient hm hn rfl)).exists_value hbound

/-! ## Whole numbers -/

theorem magnitude_scaled (n : Nat) : magnitude (n * 2 ^ 53) (-53) = n := by
  unfold magnitude
  rw [Nat.cast_mul, mul_assoc]
  norm_num

theorem value?_toFloat {n : Nat} (hn : n < 2 ^ 53) : value? n.toUInt64.toFloat = some (n : ℚ) := by
  have hnat : n.toUInt64.toNat = n := by
    rw [Nat.toUInt64_eq, UInt64.toNat_ofNat']
    omega
  have hcast : (((n.toUInt64.toNat : Int)) : ℚ) * 2 ^ (0 : Int) = n := by
    rw [hnat, zpow_zero, mul_one, Int.cast_natCast]
  have hsmall : (n : ℚ) ≤ 2 ^ (53 : Int) := by exact_mod_cast hn.le
  have hbound : |(((n.toUInt64.toNat : Int)) : ℚ) * 2 ^ (0 : Int)| ≤ limit := by
    rw [hcast, abs_of_nonneg (Nat.cast_nonneg n)]
    exact hsmall.trans (two_zpow_le_limit (by decide))
  obtain ⟨r, hr, hround⟩ := (roundsTo_pack_normalize _ 0 .positive).exists_value hbound
  rw [hcast] at hround
  rw [← hround.eq (isRepresentable_natCast hn.le)]
  exact hr

theorem approximates_natCast {n : Nat} (hn : 0 < n) :
    Approximates n (n * 2 ^ 53) (-53) .exact := by
  have hscaled : 0 < n * 2 ^ 53 := by positivity
  have hlog := log2_mul_two_pow hn.ne' 53
  have happroximates := approximates_exact hscaled (e := -53) (by omega)
  rwa [magnitude_scaled] at happroximates

theorem unpack_ofNat {n : Nat} (hn : 2 ^ 53 ≤ n) : (Float.ofNat n).toModel.unpack =
    (Float.Model.pack
      (roundWithAccuracy Format.binary64 .positive (n * 2 ^ 53) (-53) .exact)).unpack := by
  have hpos : 0 < n := by omega
  have hexponent : ¬ (0 : Int) < -((2 ^ Format.binary64.exponentBits : Int) + n.log2) := by
    change ¬ (0 : Int) < -(2048 + n.log2)
    omega
  change (Float.ofScientific n false 0).toModel.unpack = _
  unfold Float.ofScientific
  rw [dif_neg (fun h => absurd h.1 (Nat.not_lt.2 hn))]
  change (Float.Model.pack (UnpackedFloat.ofScientific Format.binary64 n 0)).unpack = _
  unfold UnpackedFloat.ofScientific
  rw [dif_neg hpos.ne', if_neg (by decide), if_neg hexponent, if_pos le_rfl]
  simp only [UnpackedFloat.mul, Nat.shiftLeft_eq]
  have hrest : n * 2 ^ Format.binary64.mantissaBits * 10 ^ (0 : Int).toNat = n * 2 ^ 53 :=
    Nat.mul_one _
  have hexp : -(Format.binary64.mantissaBits : Int) + 0 = -53 := rfl
  rw [hrest, hexp]
  rfl

theorem value?_ofNat {n : Nat} (hn : (n : ℚ) ≤ limit) :
    ∃ r, value? (Float.ofNat n) = some r ∧ IsRounding n r := by
  by_cases hsmall : n < 2 ^ 53
  · change ∃ r, value? (Float.ofScientific n false 0) = some r ∧ _
    unfold Float.ofScientific
    rw [dif_pos ⟨hsmall, by decide⟩, if_neg (by decide)]
    have hone : value? (Float.ofBits 0x3FF0000000000000) = some 1 := value?_one
    have hbound : |(n : ℚ) * 1| ≤ limit := by
      rwa [mul_one, abs_of_nonneg (Nat.cast_nonneg n)]
    have hproduct := value?_mul (value?_toFloat hsmall) hone hbound
    rwa [mul_one] at hproduct
  · have hround := roundsTo_pack_round .positive (approximates_natCast (n := n) (by omega))
    unfold value?
    rw [unpack_ofNat (Nat.le_of_not_lt hsmall)]
    exact hround.exists_value (by rwa [signed, abs_of_nonneg (Nat.cast_nonneg n)])

end FleetSizing.Binary64
