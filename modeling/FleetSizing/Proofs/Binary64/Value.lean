import Mathlib
/-!
# Doubles as rational numbers

A double decodes into a sign, a significand and an exponent.  This module reads that
form as a rational number and shows that the order of doubles is the order of the
numbers they stand for.
-/

namespace FleetSizing.Binary64

open Float.Model Float.Model.UnpackedFloat

def magnitude (m : Nat) (e : Int) : ℚ := m * 2 ^ e

def signed : Sign → ℚ → ℚ
  | .positive, q => q
  | .negative, q => -q

/-- The number that a decoded double stands for.  Infinities and `NaN` stand for none. -/
def unpackedValue? : UnpackedFloat → Option ℚ
  | .zero _ => some 0
  | .finite s m e _ => some (signed s (magnitude m e))
  | .infinity _ | .notANumber => none

/-- The number that a double stands for. -/
def value? (x : Float) : Option ℚ := unpackedValue? x.toModel.unpack

theorem magnitude_pos {m : Nat} (hm : 0 < m) (e : Int) : 0 < magnitude m e := by
  unfold magnitude
  positivity

theorem magnitude_nonneg (m : Nat) (e : Int) : 0 ≤ magnitude m e := by
  unfold magnitude
  positivity

theorem magnitude_eq_of_le (m : Nat) {e t : Int} (h : t ≤ e) :
    magnitude m e = magnitude (m * 2 ^ (e - t).toNat) t := by
  have hsplit : e = t + (e - t).toNat := by omega
  unfold magnitude
  conv_lhs => rw [hsplit, zpow_add₀ two_ne_zero, zpow_natCast]
  push_cast
  ring

theorem magnitude_le_magnitude_iff {m n : Nat} {e : Int} :
    magnitude m e ≤ magnitude n e ↔ m ≤ n := by
  unfold magnitude
  rw [mul_le_mul_iff_of_pos_right (by positivity)]
  exact Nat.cast_le

theorem magnitude_lt_magnitude_iff {m n : Nat} {e : Int} :
    magnitude m e < magnitude n e ↔ m < n := by
  unfold magnitude
  rw [mul_lt_mul_iff_of_pos_right (by positivity)]
  exact Nat.cast_lt

theorem magnitude_two_pow (k : Nat) (e : Int) : magnitude (2 ^ k) e = 2 ^ (e + k) := by
  unfold magnitude
  rw [zpow_add₀ two_ne_zero, zpow_natCast]
  push_cast
  ring

/-- The form in which a finite double is stored: 53 bits of significand, fewer only at
the least exponent. -/
def IsCanonical (m : Nat) (e : Int) : Prop :=
  m < 2 ^ 53 ∧ -1074 ≤ e ∧ (2 ^ 52 ≤ m ∨ e = -1074)

theorem toNat_one_append (m : BitVec 52) : (1#1 ++ m).toNat = 2 ^ 52 + m.toNat := by
  rw [BitVec.toNat_append, ← Nat.shiftLeft_add_eq_or_of_lt m.isLt]
  rfl

theorem isCanonical_of_unpack {b : BitVec Format.binary64.numBits} {s : Sign} {m : Nat}
    {e : Int} {hm : 0 < m} (h : UnpackedFloat.unpack Format.binary64 b = .finite s m e hm) :
    IsCanonical m e ∧ e ≤ 971 := by
  have hbias : (Format.binary64.exponentBias : Int) = 1023 := rfl
  have hbits : (Format.binary64.mantissaBitsWithoutImplicit : Int) = 52 := rfl
  have hmantissa : (unpackMantissa b).toNat < 2 ^ 52 := (unpackMantissa b).isLt
  have hexponent : (unpackExponent b).toNat < 2048 := (unpackExponent b).isLt
  unfold UnpackedFloat.unpack at h
  dsimp only at h
  rw [hbias, hbits] at h
  split at h
  · split at h <;> cases h
  next hfinite =>
    have hfinite : (unpackExponent b).toNat ≠ 2047 := fun hlast =>
      hfinite (BitVec.eq_of_toNat_eq hlast)
    split at h
    next hzero =>
      split at h
      · cases h
      · injection h with _ hm he
        rw [hzero, BitVec.toNat_zero] at he
        refine ⟨⟨?_, ?_, ?_⟩, ?_⟩ <;> omega
    next hnonzero =>
      injection h with _ hm he
      have hnonzero : (unpackExponent b).toNat ≠ 0 := fun hzero =>
        hnonzero (BitVec.eq_of_toNat_eq hzero)
      have happend := toNat_one_append (unpackMantissa b)
      refine ⟨⟨?_, ?_, ?_⟩, ?_⟩ <;> omega

def IsStored : UnpackedFloat → Prop
  | .finite _ m e _ => IsCanonical m e ∧ e ≤ 971
  | .zero _ | .infinity _ | .notANumber => True

theorem isStored_unpack (x : Float) : IsStored x.toModel.unpack := by
  cases hx : x.toModel.unpack with
  | finite => exact isCanonical_of_unpack hx
  | zero | infinity | notANumber => trivial

theorem magnitude_lt_of_exponent_lt {m n : Nat} {e f : Int} (hm : IsCanonical m e)
    (hn : IsCanonical n f) (h : e < f) : magnitude m e < magnitude n f := by
  have hnormal : 2 ^ 52 ≤ n := by
    rcases hn with ⟨_, _, hn | hn⟩
    · exact hn
    · have := hm.2.1
      omega
  calc
    magnitude m e < magnitude (2 ^ 53) e := magnitude_lt_magnitude_iff.2 hm.1
    _ = 2 ^ (e + (53 : Nat)) := magnitude_two_pow 53 e
    _ ≤ 2 ^ (f + (52 : Nat)) := zpow_le_zpow_right₀ one_le_two (by push_cast; omega)
    _ = magnitude (2 ^ 52) f := (magnitude_two_pow 52 f).symm
    _ ≤ magnitude n f := magnitude_le_magnitude_iff.2 hnormal

theorem compare_magnitude {m n : Nat} {e f : Int} (hm : IsCanonical m e)
    (hn : IsCanonical n f) :
    (compare e f).then (compare m n) = compare (magnitude m e) (magnitude n f) := by
  rcases lt_trichotomy e f with h | rfl | h
  · rw [compare_lt_iff_lt.2 h, compare_lt_iff_lt.2 (magnitude_lt_of_exponent_lt hm hn h)]
    rfl
  · rw [compare_eq_iff_eq.2 rfl, Ordering.eq_then]
    rcases lt_trichotomy m n with h | rfl | h
    · rw [compare_lt_iff_lt.2 h, compare_lt_iff_lt.2 (magnitude_lt_magnitude_iff.2 h)]
    · rw [compare_eq_iff_eq.2 rfl, compare_eq_iff_eq.2 rfl]
    · rw [compare_gt_iff_gt.2 h, compare_gt_iff_gt.2 (magnitude_lt_magnitude_iff.2 h)]
  · rw [compare_gt_iff_gt.2 h, compare_gt_iff_gt.2 (magnitude_lt_of_exponent_lt hn hm h)]
    rfl

theorem IsCanonical.eq {m n : Nat} {e f : Int} (hm : IsCanonical m e) (hn : IsCanonical n f)
    (h : magnitude m e = magnitude n f) : m = n ∧ e = f := by
  have hcompare := compare_magnitude hm hn
  rw [h, compare_eq_iff_eq.2 rfl, Ordering.then_eq_eq] at hcompare
  exact ⟨compare_eq_iff_eq.1 hcompare.2, compare_eq_iff_eq.1 hcompare.1⟩

theorem IsCanonical.magnitude_lt {m : Nat} {e : Int} (h : IsCanonical m e) (he : e ≤ 971) :
    magnitude m e < 2 ^ (1024 : Int) := by
  calc
    magnitude m e < magnitude (2 ^ 53) e := magnitude_lt_magnitude_iff.2 h.1
    _ = 2 ^ (e + (53 : Nat)) := magnitude_two_pow 53 e
    _ ≤ 2 ^ (1024 : Int) := zpow_le_zpow_right₀ one_le_two (by push_cast; omega)

theorem IsCanonical.le_magnitude {m : Nat} {e : Int} (h : IsCanonical m e) (hm : 0 < m) :
    2 ^ (-1074 : Int) ≤ magnitude m e := by
  calc
    (2 : ℚ) ^ (-1074 : Int) ≤ 2 ^ e := zpow_le_zpow_right₀ one_le_two h.2.1
    _ = magnitude 1 e := by simp [magnitude]
    _ ≤ magnitude m e := magnitude_le_magnitude_iff.2 hm

theorem compare_neg_neg (a b : ℚ) : compare (-a) (-b) = (compare a b).swap := by
  rcases lt_trichotomy a b with h | rfl | h
  · rw [compare_lt_iff_lt.2 h, compare_gt_iff_gt.2 (neg_lt_neg h)]
    rfl
  · rw [compare_eq_iff_eq.2 rfl, compare_eq_iff_eq.2 rfl]
    rfl
  · rw [compare_gt_iff_gt.2 h, compare_lt_iff_lt.2 (neg_lt_neg h)]
    rfl

/-- Doubles compare as the numbers they stand for. -/
theorem compare_unpack {x y : Float} {a b : ℚ} (hx : value? x = some a)
    (hy : value? y = some b) :
    x.toModel.unpack.compare y.toModel.unpack = some (compare a b) := by
  unfold value? at hx hy
  cases hux : x.toModel.unpack with
  | infinity s => rw [hux] at hx; cases hx
  | notANumber => rw [hux] at hx; cases hx
  | zero s =>
      rw [hux] at hx
      obtain rfl := Option.some.inj hx
      cases huy : y.toModel.unpack with
      | infinity s => rw [huy] at hy; cases hy
      | notANumber => rw [huy] at hy; cases hy
      | zero s' =>
          rw [huy] at hy
          obtain rfl := Option.some.inj hy
          rw [compare_eq_iff_eq.2 rfl]
          rfl
      | finite s' n f hn =>
          rw [huy] at hy
          obtain rfl := Option.some.inj hy
          have hpos := magnitude_pos hn f
          cases s' with
          | positive => rw [signed, compare_lt_iff_lt.2 hpos]; rfl
          | negative => rw [signed, compare_gt_iff_gt.2 (neg_neg_of_pos hpos)]; rfl
  | finite s m e hm =>
      rw [hux] at hx
      obtain rfl := Option.some.inj hx
      have hpos := magnitude_pos hm e
      have hcm := (isCanonical_of_unpack hux).1
      cases huy : y.toModel.unpack with
      | infinity s => rw [huy] at hy; cases hy
      | notANumber => rw [huy] at hy; cases hy
      | zero s' =>
          rw [huy] at hy
          obtain rfl := Option.some.inj hy
          cases s with
          | positive => rw [signed, compare_gt_iff_gt.2 hpos]; rfl
          | negative => rw [signed, compare_lt_iff_lt.2 (neg_neg_of_pos hpos)]; rfl
      | finite s' n f hn =>
          rw [huy] at hy
          obtain rfl := Option.some.inj hy
          have hpos' := magnitude_pos hn f
          have hcn := (isCanonical_of_unpack huy).1
          cases s <;> cases s'
          · rw [signed, signed, compare_neg_neg, ← compare_magnitude hcm hcn]
            rfl
          · rw [signed, signed, compare_lt_iff_lt.2 (by linarith)]
            rfl
          · rw [signed, signed, compare_gt_iff_gt.2 (by linarith)]
            rfl
          · rw [signed, signed, ← compare_magnitude hcm hcn]
            rfl

theorem lt_iff_value {x y : Float} {a b : ℚ} (hx : value? x = some a)
    (hy : value? y = some b) : x < y ↔ a < b := by
  change decide ((x.toModel.unpack.compare y.toModel.unpack == some .lt) = true) = true ↔
    a < b
  rw [decide_eq_true_iff, compare_unpack hx hy, ← compare_lt_iff_lt]
  cases compare a b <;> decide

theorem le_iff_value {x y : Float} {a b : ℚ} (hx : value? x = some a)
    (hy : value? y = some b) : x ≤ y ↔ a ≤ b := by
  change decide ((x.toModel.unpack.compare y.toModel.unpack).any (·.isLE) = true) = true ↔
    a ≤ b
  rw [decide_eq_true_iff, compare_unpack hx hy, Option.any_some, ← compare_le_iff_le]
  cases compare a b <;> decide

theorem value?_of_unpack {x : Float} (m : Nat) (e : Int) (hm : 0 < m)
    (h : x.toModel.unpack = .finite .positive m e hm) : value? x = some (magnitude m e) := by
  rw [value?, h, unpackedValue?, signed]

theorem value?_zero : value? 0.0 = some 0 := by
  have h : (0.0 : Float).toModel.unpack = .zero .positive := by rfl
  rw [value?, h, unpackedValue?]

theorem value?_one : value? 1.0 = some 1 := by
  rw [value?_of_unpack (2 ^ 52) (-52) (by decide) (by rfl), magnitude_two_pow]
  norm_num

end FleetSizing.Binary64
