import FleetSizing.Proofs.Binary64.Value
/-!
# Rounding

Every operation on doubles rounds an exact result to 53 bits.  The one fact used of it
is that no representable number lies between the exact result and the rounded one:
rounding is monotone and leaves representable numbers alone.
-/

namespace FleetSizing.Binary64

open Float.Model Float.Model.UnpackedFloat

/-- A number of at most 53 bits on or above the least binary place of a double. -/
def IsRepresentable (v : ℚ) : Prop :=
  ∃ (s : Sign) (m : Nat) (e : Int), m ≤ 2 ^ 53 ∧ -1074 ≤ e ∧ v = signed s (magnitude m e)

/-- No representable number separates `r` from `q`. -/
structure IsRounding (q r : ℚ) : Prop where
  le_of_le : ∀ v, IsRepresentable v → q ≤ v → r ≤ v
  le_of_ge : ∀ v, IsRepresentable v → v ≤ q → v ≤ r

theorem isRepresentable_natCast {n : Nat} (hn : n ≤ 2 ^ 53) : IsRepresentable n := by
  refine ⟨.positive, n, 0, hn, by decide, ?_⟩
  simp [signed, magnitude]

theorem isRepresentable_zero : IsRepresentable 0 := by
  simpa using isRepresentable_natCast (Nat.zero_le _)

theorem isRepresentable_one : IsRepresentable 1 := by
  simpa using isRepresentable_natCast (Nat.one_le_two_pow (n := 53))

theorem isRepresentable_two_zpow {e : Int} (he : -1074 ≤ e) : IsRepresentable (2 ^ e) := by
  refine ⟨.positive, 1, e, by decide, he, ?_⟩
  simp [signed, magnitude]

theorem IsRepresentable.neg {v : ℚ} (hv : IsRepresentable v) : IsRepresentable (-v) := by
  obtain ⟨s, m, e, hm, he, rfl⟩ := hv
  refine ⟨-s, m, e, hm, he, ?_⟩
  cases s with
  | negative => exact neg_neg _
  | positive => rfl

theorem IsRepresentable.two_mul {v : ℚ} (hv : IsRepresentable v) : IsRepresentable (2 * v) := by
  obtain ⟨s, m, e, hm, he, rfl⟩ := hv
  have hdouble : 2 * magnitude m e = magnitude m (e + 1) := by
    unfold magnitude
    rw [zpow_add_one₀ two_ne_zero]
    ring
  refine ⟨s, m, e + 1, hm, by omega, ?_⟩
  rw [← hdouble]
  cases s with
  | negative => exact mul_neg _ _
  | positive => rfl

theorem IsRounding.eq {q r : ℚ} (h : IsRounding q r) (hq : IsRepresentable q) : r = q :=
  le_antisymm (h.le_of_le q hq le_rfl) (h.le_of_ge q hq le_rfl)

theorem IsRounding.neg {q r : ℚ} (h : IsRounding q r) : IsRounding (-q) (-r) := by
  constructor
  · intro v hv hle
    have := h.le_of_ge (-v) hv.neg (by linarith)
    linarith
  · intro v hv hle
    have := h.le_of_le (-v) hv.neg (by linarith)
    linarith

theorem IsRounding.signed {q r : ℚ} (h : IsRounding q r) (s : Sign) :
    IsRounding (signed s q) (signed s r) := by
  cases s with
  | positive => exact h
  | negative => exact h.neg

theorem IsRounding.refl {q : ℚ} : IsRounding q q :=
  ⟨fun _ _ h => h, fun _ _ h => h⟩

/-- Results up to this bound are not too large for a double. -/
@[irreducible] def limit : ℚ := 2 ^ (1023 : Int)

theorem isRepresentable_limit : IsRepresentable limit := by
  unfold limit
  exact isRepresentable_two_zpow (by decide)

theorem two_zpow_le_limit {e : Int} (he : e ≤ 1023) : (2 : ℚ) ^ e ≤ limit := by
  unfold limit
  exact zpow_le_zpow_right₀ one_le_two he

theorem limit_lt : limit < 2 ^ (1024 : Int) := by
  unfold limit
  exact zpow_lt_zpow_right₀ one_lt_two (by decide)

/-! ## Dropping bits -/

theorem mantissa_shiftRight (em : ExtendedMantissa) (k : Nat) :
    (em >>> k).mantissa = em.mantissa / 2 ^ k := by
  change (k.repeat ExtendedMantissa.shiftRightOne em).mantissa = _
  induction k with
  | zero => simp [Nat.repeat]
  | succ k ih =>
      rw [Nat.repeat, ExtendedMantissa.shiftRightOne, ih, Nat.div_div_eq_div_mul, pow_succ]

theorem mantissa_ofMantissaAndAccuracy (m : Nat) (acc : Accuracy) :
    (ExtendedMantissa.ofMantissaAndAccuracy m acc).mantissa = m := by
  cases acc with
  | exact => rfl
  | inexact o => cases o <;> rfl

theorem mantissa_le_roundedMantissa (em : ExtendedMantissa) :
    em.mantissa ≤ em.roundedMantissa ∧ em.roundedMantissa ≤ em.mantissa + 1 := by
  obtain ⟨m, round, sticky⟩ := em
  cases round <;> cases sticky <;>
    simp only [ExtendedMantissa.roundedMantissa, ExtendedMantissa.accuracy,
      Accuracy.roundToNearestEven] <;> omega

/-- The two bits beyond a significand tell where the dropped part lies in its unit. -/
structure Drops (em : ExtendedMantissa) (rest unit : Nat) : Prop where
  lt : rest < unit
  half_le : em.roundBit = true → unit ≤ 2 * rest
  lt_half : em.roundBit = false → 2 * rest < unit
  of_not_sticky : em.stickyBit = false → 2 * rest = em.roundBit.toNat * unit

theorem Drops.shiftRightOne {em : ExtendedMantissa} {rest unit : Nat} (h : Drops em rest unit) :
    Drops em.shiftRightOne (em.mantissa % 2 * unit + rest) (2 * unit) := by
  have hlt := h.lt
  have hsticky : em.shiftRightOne.stickyBit = false → rest = 0 := by
    intro hbits
    obtain ⟨hround, hsticky⟩ := Bool.or_eq_false_iff.1 hbits
    have := h.of_not_sticky hsticky
    rw [hround, Bool.toNat_false, Nat.zero_mul] at this
    omega
  rcases Nat.mod_two_eq_zero_or_one em.mantissa with hm | hm
  · have hround : em.shiftRightOne.roundBit = false := by
      simp [ExtendedMantissa.shiftRightOne, hm]
    rw [hm, Nat.zero_mul, Nat.zero_add]
    refine ⟨by omega, by simp [hround], fun _ => by omega, fun hbits => ?_⟩
    simp [hround, hsticky hbits]
  · have hround : em.shiftRightOne.roundBit = true := by
      simp [ExtendedMantissa.shiftRightOne, hm]
    rw [hm, Nat.one_mul]
    refine ⟨by omega, fun _ => by omega, by simp [hround], fun hbits => ?_⟩
    simp [hround, hsticky hbits]

theorem drops_shiftRight (m k : Nat) :
    Drops (ExtendedMantissa.ofMantissaAndAccuracy m .exact >>> k) (m % 2 ^ k) (2 ^ k) := by
  change Drops (k.repeat ExtendedMantissa.shiftRightOne _) _ _
  induction k with
  | zero => exact ⟨by omega, by simp [Nat.repeat, ExtendedMantissa.ofMantissaAndAccuracy], by omega, by
      simp [Nat.mod_one, Nat.repeat, ExtendedMantissa.ofMantissaAndAccuracy]⟩
  | succ k ih =>
      have hmantissa := mantissa_shiftRight (ExtendedMantissa.ofMantissaAndAccuracy m .exact) k
      rw [mantissa_ofMantissaAndAccuracy] at hmantissa
      have hrest : m % 2 ^ (k + 1) = m / 2 ^ k % 2 * 2 ^ k + m % 2 ^ k := by
        rw [pow_succ, Nat.mod_mul]
        ring
      rw [Nat.repeat, hrest, ← hmantissa, pow_succ']
      exact ih.shiftRightOne

theorem Drops.roundedMantissa {em : ExtendedMantissa} {rest unit : Nat} (h : Drops em rest unit) :
    2 * (em.mantissa * unit + rest) ≤ 2 * (em.roundedMantissa * unit) + unit ∧
      2 * (em.roundedMantissa * unit) ≤ 2 * (em.mantissa * unit + rest) + unit := by
  obtain ⟨hlt, hhalf, hhalf', hsticky⟩ := h
  obtain ⟨m, round, sticky⟩ := em
  dsimp only at *
  rw [ExtendedMantissa.roundedMantissa]
  cases round with
  | false =>
      have := hhalf' rfl
      cases sticky <;> simp only [ExtendedMantissa.accuracy, Accuracy.roundToNearestEven] <;> omega
  | true =>
      have := hhalf rfl
      cases sticky with
      | true =>
          simp only [ExtendedMantissa.accuracy, Accuracy.roundToNearestEven, Nat.succ_mul]
          omega
      | false =>
          have := hsticky rfl
          rw [Bool.toNat_true, Nat.one_mul] at this
          simp only [ExtendedMantissa.accuracy, Accuracy.roundToNearestEven, Nat.add_mul]
          rcases Nat.mod_two_eq_zero_or_one m with hm | hm <;> rw [hm] <;> omega

theorem targetExponent_eq (m : Nat) (e : Int) :
    Format.binary64.targetExponent (totalExponent m e) = max (m.log2 + e - 52) (-1074) := by
  have hmin : Format.binary64.minExponent = -1074 := rfl
  have hbits : (Format.binary64.mantissaBits : Int) = 53 := rfl
  unfold Format.targetExponent totalExponent
  rw [hmin, hbits]
  omega

theorem shifted_bounds {m : Nat} {e t : Int}
    (ht : t = max (m.log2 + e - 52) (-1074)) (he : e ≤ t) :
    m / 2 ^ (t - e).toNat < 2 ^ 53 ∧ (2 ^ 52 ≤ m / 2 ^ (t - e).toNat ∨ t = -1074) := by
  have hpos : 0 < 2 ^ (t - e).toNat := Nat.two_pow_pos _
  constructor
  · rw [Nat.div_lt_iff_lt_mul hpos, ← pow_add]
    calc
      m < 2 ^ (m.log2 + 1) := Nat.lt_log2_self
      _ ≤ 2 ^ (53 + (t - e).toNat) := Nat.pow_le_pow_right (by decide) (by omega)
  · by_cases hmin : t = -1074
    · exact Or.inr hmin
    · have hm : m ≠ 0 := by
        rintro rfl
        rw [Nat.log2_zero] at ht
        omega
      left
      rw [Nat.le_div_iff_mul_le hpos, ← pow_add]
      calc
        2 ^ (52 + (t - e).toNat) ≤ 2 ^ m.log2 := Nat.pow_le_pow_right (by decide) (by omega)
        _ ≤ m := Nat.log2_self_le hm

/-- Bits below a grid of binary places, cut off or rounded up, are not separated from the
exact number by any representable one. -/
theorem isRounding_magnitude {m R : Nat} {e t : Int} {x : ℚ} (hx : 0 < x)
    (ht : t = max (m.log2 + e - 52) (-1074)) (he : e ≤ t)
    (hlow : magnitude m e ≤ x) (hhigh : x < magnitude (m + 1) e)
    (hR : m / 2 ^ (t - e).toNat ≤ R ∧ R ≤ m / 2 ^ (t - e).toNat + 1)
    (hexact : x = magnitude (m / 2 ^ (t - e).toNat) t → R = m / 2 ^ (t - e).toNat) :
    IsRounding x (magnitude R t) := by
  obtain ⟨hupper, hlower⟩ := shifted_bounds ht he
  set k := (t - e).toNat with hk
  set M := m / 2 ^ k with hM
  have hMx : magnitude M t ≤ x := by
    refine le_trans ?_ hlow
    rw [magnitude_eq_of_le M he, magnitude_le_magnitude_iff]
    exact Nat.div_mul_le_self m (2 ^ k)
  have hxM : x < magnitude (M + 1) t := by
    refine lt_of_lt_of_le hhigh ?_
    rw [magnitude_eq_of_le (M + 1) he, magnitude_le_magnitude_iff]
    exact Nat.lt_div_mul_add (a := m) (Nat.two_pow_pos k) |>.trans_eq (by ring)
  -- A representable number lies on the grid, or below everything that was kept.
  have hgrid {a : Nat} {b : Int} (ha : a ≤ 2 ^ 53) (hb : -1074 ≤ b) :
      (∃ A : Nat, magnitude a b = magnitude A t) ∨ magnitude a b < magnitude M t := by
    by_cases hbt : t ≤ b
    · exact Or.inl ⟨_, magnitude_eq_of_le a hbt⟩
    · have hM52 : 2 ^ 52 ≤ M := by
        rcases hlower with h | h
        · exact h
        · omega
      have hle : magnitude a b ≤ magnitude M t := by
        calc
          magnitude a b ≤ magnitude (2 ^ 53) b := magnitude_le_magnitude_iff.2 ha
          _ = 2 ^ (b + (53 : Nat)) := magnitude_two_pow 53 b
          _ ≤ 2 ^ (t + (52 : Nat)) := zpow_le_zpow_right₀ one_le_two (by push_cast; omega)
          _ = magnitude (2 ^ 52) t := (magnitude_two_pow 52 t).symm
          _ ≤ magnitude M t := magnitude_le_magnitude_iff.2 hM52
      exact hle.eq_or_lt.imp (fun h => ⟨M, h⟩) id
  constructor
  · rintro v ⟨s, a, b, ha, hb, rfl⟩ hv
    cases s with
    | negative =>
        have := magnitude_nonneg a b
        rw [signed] at hv
        linarith
    | positive =>
        rw [signed] at hv ⊢
        rcases hgrid ha hb with ⟨A, hA⟩ | hlt
        · rw [hA] at hv ⊢
          have hMA : M ≤ A := magnitude_le_magnitude_iff.1 (hMx.trans hv)
          rcases hMA.eq_or_lt with rfl | hMA
          · rw [hexact (le_antisymm hv hMx)]
          · exact magnitude_le_magnitude_iff.2 (by omega)
        · linarith
  · rintro v ⟨s, a, b, ha, hb, rfl⟩ hv
    cases s with
    | negative =>
        have := magnitude_nonneg a b
        have := magnitude_nonneg R t
        rw [signed]
        linarith
    | positive =>
        rw [signed] at hv ⊢
        rcases hgrid ha hb with ⟨A, hA⟩ | hlt
        · rw [hA] at hv ⊢
          have hAM : A < M + 1 := magnitude_lt_magnitude_iff.1 (hv.trans_lt hxM)
          exact magnitude_le_magnitude_iff.2 (by omega)
        · exact hlt.le.trans (magnitude_le_magnitude_iff.2 hR.1)

/-! ## Packing -/

theorem unpack_normal (s : Sign) {b : Nat} (hb : 0 < b) (hb' : b < 2047) (m : BitVec 52) :
    UnpackedFloat.unpack Format.binary64
        (packComponents Format.binary64 s (BitVec.ofNat 11 b) m) =
      .finite s (2 ^ 52 + m.toNat) ((b : Int) - 1075) (by omega) := by
  have hnat : (BitVec.ofNat 11 b).toNat = b := by
    rw [BitVec.toNat_ofNat, Nat.mod_eq_of_lt (by omega)]
  have hlast : BitVec.ofNat 11 b ≠ -1#11 := fun h => by
    have h : b = 2047 := hnat.symm.trans (congrArg BitVec.toNat h)
    omega
  have hzero : BitVec.ofNat 11 b ≠ 0#11 := fun h => by
    have h : b = 0 := hnat.symm.trans (congrArg BitVec.toNat h)
    omega
  unfold UnpackedFloat.unpack
  simp only [unpackMantissa_packComponents, unpackExponent_packComponents,
    unpackSign_packComponents, Sign.ofBitVec_toBitVec, if_neg hlast, if_neg hzero,
    toNat_one_append, hnat]
  rfl

theorem unpack_subnormal (s : Sign) {m : BitVec 52} (hm : 0 < m.toNat) :
    UnpackedFloat.unpack Format.binary64 (packComponents Format.binary64 s 0#11 m) =
      .finite s m.toNat (-1074) hm := by
  have hzero : m ≠ 0#52 := fun h => by
    rw [h, BitVec.toNat_zero] at hm
    exact absurd hm (Nat.lt_irrefl 0)
  unfold UnpackedFloat.unpack
  simp only [unpackMantissa_packComponents, unpackExponent_packComponents,
    unpackSign_packComponents, Sign.ofBitVec_toBitVec, dif_neg hzero]
  rfl

theorem unpack_pack {m : Nat} {e : Int} (s : Sign) (hm : 0 < m) (hcanonical : IsCanonical m e)
    (he : e ≤ 971) :
    (Float.Model.pack (.finite s m e hm)).unpack = .finite s m e hm := by
  obtain ⟨hupper, hlow, hnormal⟩ := hcanonical
  have hbiased : (e + Format.binary64.exponentBias +
      Format.binary64.mantissaBitsWithoutImplicit).toNat = (e + 1075).toNat := by
    change (e + 1023 + 52).toNat = _
    congr 1
    omega
  have hfits : ¬ 2 ^ Format.binary64.exponentBits ≤ (e + 1075).toNat + 1 := by
    change ¬ 2048 ≤ (e + 1075).toNat + 1
    omega
  change UnpackedFloat.unpack _ (UnpackedFloat.pack _ _) = _
  unfold UnpackedFloat.pack
  dsimp only
  rw [hbiased, if_neg hfits]
  by_cases h52 : 2 ^ 52 ≤ m
  · have hlog : m.log2 + 1 = Format.binary64.mantissaBits := by
      rw [(Nat.log2_eq_iff hm.ne').2 ⟨h52, hupper⟩]
      rfl
    have hmantissa : 2 ^ 52 + (BitVec.ofNat 52 m).toNat = m := by
      rw [BitVec.toNat_ofNat]
      omega
    have hexponent : ((e + 1075).toNat : Int) - 1075 = e := by omega
    rw [if_pos hlog, unpack_normal s (by omega) (by omega)]
    simp only [hmantissa, hexponent]
  · have hlog : ¬ m.log2 + 1 = Format.binary64.mantissaBits := by
      have := (Nat.log2_lt hm.ne').2 (Nat.lt_of_not_le h52)
      change ¬ m.log2 + 1 = 53
      omega
    have hmantissa : (BitVec.ofNat 52 m).toNat = m := by
      rw [BitVec.toNat_ofNat]
      omega
    have hexponent : e = -1074 := hnormal.resolve_left h52
    rw [if_neg hlog, unpack_subnormal s (by omega)]
    simp only [hmantissa, hexponent]

theorem unpack_pack_zero (s : Sign) : (Float.Model.pack (.zero s)).unpack = .zero s := by
  cases s <;> rfl

theorem unpack_pack_infinity (s : Sign) :
    (Float.Model.pack (.infinity s)).unpack = .infinity s := by
  cases s <;> rfl

theorem unpack_pack_overflow {m : Nat} {e : Int} (s : Sign) (hm : 0 < m) (he : 971 < e) :
    (Float.Model.pack (.finite s m e hm)).unpack = .infinity s := by
  have hlarge : 2 ^ Format.binary64.exponentBits ≤ (e + Format.binary64.exponentBias +
      Format.binary64.mantissaBitsWithoutImplicit).toNat + 1 := by
    change 2048 ≤ (e + 1023 + 52).toNat + 1
    omega
  have hpack : Float.Model.pack (.finite s m e hm) = Float.Model.pack (.infinity s) := by
    unfold Float.Model.pack UnpackedFloat.pack
    simp only [if_pos hlarge]
  rw [hpack, unpack_pack_infinity]

/-! ## Rounded results -/

theorem shiftToTargetExponent_of_le {m : Nat} {e : Int} (h : m < 2 ^ 53) (he : -1074 ≤ e) :
    shiftToTargetExponent Format.binary64 m e .exact = (⟨m, false, false⟩, e) := by
  have hlog : m.log2 ≤ 52 := by
    by_cases hm : m = 0
    · simp [hm]
    · exact Nat.lt_succ_iff.1 ((Nat.log2_lt hm).2 h)
  have hshift : (max ((m.log2 : Int) + e - 52) (-1074) - e).toNat = 0 := by omega
  unfold shiftToTargetExponent shiftToExponent
  simp only [targetExponent_eq, hshift]
  rw [Nat.cast_zero, add_zero]
  rfl

theorem shiftToTargetExponent_carry {e : Int} (he : -1074 ≤ e) :
    shiftToTargetExponent Format.binary64 (2 ^ 53) e .exact =
      (⟨2 ^ 52, false, false⟩, e + 1) := by
  have hshift : (max (((2 ^ 53 : Nat).log2 : Int) + e - 52) (-1074) - e).toNat = 1 := by
    rw [Nat.log2_two_pow]
    omega
  unfold shiftToTargetExponent shiftToExponent
  simp only [targetExponent_eq, hshift]
  rfl

/-- Rounding keeps one canonical number, or zero. -/
theorem roundWithAccuracy_eq (s : Sign) {m : Nat} {e t : Int} (acc : Accuracy)
    (ht : t = max (m.log2 + e - 52) (-1074)) (he : e ≤ t) :
    ∃ R : Nat, m / 2 ^ (t - e).toNat ≤ R ∧ R ≤ m / 2 ^ (t - e).toNat + 1 ∧
      (acc = .exact → 2 * m ≤ 2 * (R * 2 ^ (t - e).toNat) + 2 ^ (t - e).toNat ∧
        2 * (R * 2 ^ (t - e).toNat) ≤ 2 * m + 2 ^ (t - e).toNat) ∧
      roundWithAccuracy Format.binary64 s m e acc =
        if h : R = 0 then .zero s
        else if R < 2 ^ 53 then .finite s R t (Nat.pos_of_ne_zero h)
        else .finite s (2 ^ 52) (t + 1) (by decide) := by
  obtain ⟨hupper, -⟩ := shifted_bounds ht he
  set k := (t - e).toNat with hk
  set em := ExtendedMantissa.ofMantissaAndAccuracy m acc >>> k with hem
  have hmantissa : em.mantissa = m / 2 ^ k := by
    rw [hem, mantissa_shiftRight, mantissa_ofMantissaAndAccuracy]
  have hfirst : shiftToTargetExponent Format.binary64 m e acc = (em, t) := by
    unfold shiftToTargetExponent shiftToExponent
    rw [targetExponent_eq, ← ht]
    refine Prod.ext rfl ?_
    change e + (k : Int) = t
    omega
  obtain ⟨hle, hge⟩ := mantissa_le_roundedMantissa em
  rw [hmantissa] at hle hge
  refine ⟨em.roundedMantissa, hle, hge, ?_, ?_⟩
  · rintro rfl
    have hhalf := (drops_shiftRight m k).roundedMantissa
    rwa [← hem, hmantissa, Nat.div_add_mod'] at hhalf
  · have ht' : -1074 ≤ t := by omega
    unfold roundWithAccuracy
    rw [hfirst]
    dsimp only
    by_cases hsmall : em.roundedMantissa < 2 ^ 53
    · rw [shiftToTargetExponent_of_le hsmall ht']
      simp only [if_pos hsmall]
    · have hcarry : em.roundedMantissa = 2 ^ 53 := by omega
      rw [hcarry, shiftToTargetExponent_carry ht']
      rfl

/-- A significand and an exponent, with what is known of the rest, tell a number closely
enough to round it. -/
structure Approximates (x : ℚ) (m : Nat) (e : Int) (acc : Accuracy) : Prop where
  pos : 0 < x
  exponent_le : e ≤ max (m.log2 + e - 52) (-1074)
  low : magnitude m e ≤ x
  high : x < magnitude (m + 1) e
  exact : x = magnitude m e → acc = .exact

theorem approximates_exact {m : Nat} (hm : 0 < m) {e : Int}
    (he : e ≤ max (m.log2 + e - 52) (-1074)) : Approximates (magnitude m e) m e .exact where
  pos := magnitude_pos hm e
  exponent_le := he
  low := le_rfl
  high := magnitude_lt_magnitude_iff.2 (Nat.lt_succ_self _)
  exact _ := rfl

theorem Approximates.round (s : Sign) {m : Nat} {e : Int} {acc : Accuracy} {x : ℚ}
    (h : Approximates x m e acc) :
    (roundWithAccuracy Format.binary64 s m e acc = .zero s ∧ IsRounding x 0) ∨
    ∃ R t, ∃ hR : 0 < R, roundWithAccuracy Format.binary64 s m e acc = .finite s R t hR ∧
      IsCanonical R t ∧ IsRounding x (magnitude R t) := by
  generalize ht : max ((m.log2 : Int) + e - 52) (-1074) = t
  have he : e ≤ t := ht ▸ h.exponent_le
  obtain ⟨R, hle, hge, hhalf, hround⟩ := roundWithAccuracy_eq s acc ht.symm he
  obtain ⟨hupper, hlower⟩ := shifted_bounds ht.symm he
  set k := (t - e).toNat with hk
  have hrounding : IsRounding x (magnitude R t) := by
    refine isRounding_magnitude h.pos ht.symm he h.low h.high ⟨hle, hge⟩ ?_
    intro hgrid
    rw [magnitude_eq_of_le _ he, ← hk] at hgrid
    have hkept : m ≤ m / 2 ^ k * 2 ^ k := magnitude_le_magnitude_iff.1 (hgrid ▸ h.low)
    have hkept' := Nat.div_add_mod' m (2 ^ k)
    have hm' : m / 2 ^ k * 2 ^ k = m := by omega
    -- The next significand is a whole unit off.
    obtain ⟨-, hhigh⟩ := hhalf (h.exact (by rw [hgrid, hm']))
    rw [← hk]
    by_contra hne
    have hR : R = m / 2 ^ k + 1 := by omega
    have hpos : 0 < 2 ^ k := Nat.two_pow_pos k
    rw [hR, Nat.add_mul] at hhigh
    omega
  have ht' : -1074 ≤ t := by omega
  rw [hround]
  split
  next hzero =>
    left
    rw [hzero] at hrounding
    simpa [magnitude] using hrounding
  next hpos =>
    right
    split
    next hsmall =>
      exact ⟨R, t, Nat.pos_of_ne_zero hpos, rfl,
        ⟨hsmall, ht', hlower.imp_left (le_trans · hle)⟩, hrounding⟩
    next hcarry =>
      have hR53 : R = 2 ^ 53 := by omega
      have hexp : t + (53 : Nat) = t + 1 + (52 : Nat) := by omega
      rw [hR53, magnitude_two_pow, hexp, ← magnitude_two_pow] at hrounding
      exact ⟨2 ^ 52, t + 1, by decide, rfl, ⟨by decide, by omega, Or.inl le_rfl⟩, hrounding⟩

/-- What an exact result becomes: a rounding of it, or an infinity if it is too large. -/
inductive RoundsTo (q : ℚ) : UnpackedFloat → Prop where
  | rounding {u : UnpackedFloat} {r : ℚ} (hu : unpackedValue? u = some r) (hr : IsRounding q r) :
    RoundsTo q u
  | overflow (hq : limit < q) : RoundsTo q (.infinity .positive)
  | underflow (hq : q < -limit) : RoundsTo q (.infinity .negative)

theorem RoundsTo.exists_value {q : ℚ} {u : UnpackedFloat} (h : RoundsTo q u)
    (hbound : |q| ≤ limit) : ∃ r, unpackedValue? u = some r ∧ IsRounding q r := by
  obtain ⟨hlow, hhigh⟩ := abs_le.1 hbound
  cases h with
  | rounding hu hr => exact ⟨_, hu, hr⟩
  | overflow hq => exact absurd hq (not_lt.2 hhigh)
  | underflow hq => exact absurd hq (not_lt.2 hlow)

theorem IsCanonical.limit_lt {m : Nat} {e : Int} (h : IsCanonical m e) (he : 971 < e) :
    limit < magnitude m e := by
  have hnormal : 2 ^ 52 ≤ m := by
    rcases h.2.2 with hnormal | hleast
    · exact hnormal
    · omega
  calc
    limit < 2 ^ (1024 : Int) := Binary64.limit_lt
    _ ≤ 2 ^ (e + (52 : Nat)) := zpow_le_zpow_right₀ one_le_two (by push_cast; omega)
    _ = magnitude (2 ^ 52) e := (magnitude_two_pow 52 e).symm
    _ ≤ magnitude m e := magnitude_le_magnitude_iff.2 hnormal

/-- What is stored of an approximated number is the rounded number. -/
theorem roundsTo_pack_round (s : Sign) {m : Nat} {e : Int} {acc : Accuracy} {x : ℚ}
    (h : Approximates x m e acc) : RoundsTo (signed s x)
      (Float.Model.pack (roundWithAccuracy Format.binary64 s m e acc)).unpack := by
  rcases h.round s with ⟨hzero, hrounding⟩ | ⟨R, t, hR, hfinite, hcanonical, hrounding⟩
  · have hvalue : unpackedValue? (.zero s) = some (signed s 0) := by
      cases s <;> simp [unpackedValue?, signed]
    rw [hzero, unpack_pack_zero]
    exact .rounding hvalue (hrounding.signed s)
  · rw [hfinite]
    by_cases ht : t ≤ 971
    · rw [unpack_pack s hR hcanonical ht]
      exact .rounding rfl (hrounding.signed s)
    · rw [unpack_pack_overflow s hR (by omega)]
      -- A result within the limit would have been rounded to a number within it.
      have hlarge : limit < x := by
        by_contra hle
        have := hrounding.le_of_le _ isRepresentable_limit (not_lt.1 hle)
        exact absurd (hcanonical.limit_lt (by omega)) (not_lt.2 this)
      cases s with
      | positive => exact .overflow hlarge
      | negative => exact .underflow (neg_lt_neg hlarge)

theorem unpack_pack_round (s : Sign) {m M : Nat} {e T : Int} {acc : Accuracy} (hM : 0 < M)
    (hcanonical : IsCanonical M T) (hT : T ≤ 971) (h : Approximates (magnitude M T) m e acc) :
    (Float.Model.pack (roundWithAccuracy Format.binary64 s m e acc)).unpack = .finite s M T hM := by
  have hrepresentable : IsRepresentable (magnitude M T) :=
    ⟨.positive, M, T, hcanonical.1.le, hcanonical.2.1, rfl⟩
  rcases h.round s with ⟨-, hrounding⟩ | ⟨R, t, hR, hfinite, hcanonical', hrounding⟩
  · exact absurd (hrounding.eq hrepresentable) (magnitude_pos hM T).ne
  · obtain ⟨rfl, rfl⟩ := hcanonical'.eq hcanonical (hrounding.eq hrepresentable)
    rw [hfinite, unpack_pack s hR hcanonical hT]

end FleetSizing.Binary64
