import FleetSizing.Proofs.Decimal.Ceiling
import FleetSizing.Proofs.Utilization
import FleetSizing.Scaler.Evaluate
/-!
# Growth targets

The target of a pool is computed in doubles: the size times the factor, less the tolerance,
rounded up.  The tolerance covers what the factor and the product are off, so a target is
exact for the factors that people write.  It takes the growth itself from a pool that the
factor exceeds by no more than the tolerance.
-/

namespace FleetSizing

open Decimal Binary64

variable {n : Nat} {factor : Float} {q v : ℚ}

theorem exists_tolerance : ∃ ε, value? targetTolerance = some ε ∧
    999999 / 10 ^ 15 < ε ∧ ε < 1000001 / 10 ^ 15 := by
  refine ⟨_, value?_of_unpack 4835703278458517 (-82) (by decide) (by rfl), ?_, ?_⟩
  · norm_num [magnitude]
  · norm_num [magnitude]

theorem exists_product (hn : n ≤ 2 ^ 53) (hround : IsRounding q v) (hv : value? factor = some v)
    (hq : 1 ≤ q) (hsize : n * q ≤ 10 ^ 6) : ∃ p, value? (Float.ofNat n * factor) = some p ∧
      |p - n * q| ≤ 4 / 10 ^ 10 := by
  have hn0 : (0 : ℚ) ≤ n := Nat.cast_nonneg n
  have hmin : (2 : ℚ) ^ (-1022 : Int) ≤ 1 := zpow_le_one_of_nonpos₀ one_le_two (by decide)
  have herror : |n * v - n * q| ≤ 2 ^ (-32 : Int) := by
    calc
      |n * v - n * q| = n * |v - q| := by rw [← mul_sub, abs_mul, abs_of_nonneg hn0]
      _ ≤ n * (2 ^ (-52 : Int) * q) := by
        gcongr
        exact hround.abs_sub_le_mul (hmin.trans hq)
      _ = 2 ^ (-52 : Int) * (n * q) := by ring
      _ ≤ 2 ^ (-52 : Int) * 10 ^ 6 := by gcongr
      _ ≤ 2 ^ (-32 : Int) := by norm_num
  obtain ⟨hlow, hhigh⟩ := abs_le.1 herror
  have hv0 : 0 ≤ v := hround.le_of_ge 0 isRepresentable_zero (by linarith)
  have hnv : 0 ≤ n * v := mul_nonneg hn0 hv0
  have hbound : (n : ℚ) * v ≤ 2 ^ (20 : Int) := by
    norm_num at hhigh ⊢
    linarith
  obtain ⟨p, hp, hproduct⟩ := value?_mul (value?_size hn) hv (by
    rw [abs_of_nonneg hnv]
    exact hbound.trans (two_zpow_le_limit (by decide)))
  have hlast : |p - n * v| ≤ 2 ^ (-33 : Int) :=
    hproduct.abs_sub_le hnv (by decide) (hbound.trans_eq (by norm_num))
  refine ⟨p, hp, ?_⟩
  calc
    |p - n * q| ≤ |p - n * v| + |n * v - n * q| := abs_sub_le ..
    _ ≤ 2 ^ (-33 : Int) + 2 ^ (-32 : Int) := add_le_add hlast herror
    _ ≤ 4 / 10 ^ 10 := by norm_num

theorem pred_ceil_add_le {N d : Nat} (hN : 0 < N) (hd : 0 < d) :
    ((⌈(N / d : ℚ)⌉₊ - 1 : Nat) : ℚ) + 1 / d ≤ N / d := by
  have hd' : (0 : ℚ) < d := Nat.cast_pos.2 hd
  have hpos : 0 < ⌈(N / d : ℚ)⌉₊ := by
    rw [Nat.ceil_pos]
    positivity
  have hlt : ((⌈(N / d : ℚ)⌉₊ - 1 : Nat) : ℚ) < N / d := Nat.lt_ceil.1 (by omega)
  generalize ⌈(N / d : ℚ)⌉₊ - 1 = j at hlt ⊢
  rw [lt_div_iff₀ hd'] at hlt
  have hstep : j * d + 1 ≤ N := by exact_mod_cast hlt
  rw [← sub_nonneg]
  have hdiff : (N / d : ℚ) - (j + 1 / d) = (N - (j * d + 1 : Nat) : ℚ) / d := by
    push_cast
    field_simp
  rw [hdiff]
  exact div_nonneg (sub_nonneg.2 (by exact_mod_cast hstep)) hd'.le

theorem ceilUpTo_sub_tolerance {x : Float} {p s : ℚ} {k : Nat} (hx : value? x = some p)
    (herror : |p - s| ≤ 4 / 10 ^ 10) (hk : 1 ≤ k) (hk' : k ≤ 10 ^ 6)
    (hlow : ((k - 1 : Nat) : ℚ) + 1 / 10 ^ 6 ≤ s) (hhigh : s ≤ k) :
    ceilUpTo (Text.word64 - 1) (x - targetTolerance) = k := by
  obtain ⟨ε, hε, hεlow, hεhigh⟩ := exists_tolerance
  obtain ⟨herror, herror'⟩ := abs_le.1 herror
  obtain ⟨j, rfl⟩ : ∃ j, k = j + 1 := ⟨k - 1, by omega⟩
  rw [Nat.add_sub_cancel] at hlow
  have hj : (0 : ℚ) ≤ j := Nat.cast_nonneg j
  have hk20 : ((j + 1 : Nat) : ℚ) ≤ 2 ^ (20 : Int) := by exact_mod_cast hk'.trans (by norm_num)
  have hle : p - ε ≤ (j + 1 : Nat) := by linarith
  have hge : (j * 2 ^ 21 + 1 : Nat) * (2 : ℚ) ^ (-21 : Int) ≤ p - ε := by
    calc
      (j * 2 ^ 21 + 1 : Nat) * (2 : ℚ) ^ (-21 : Int) = j + 1 / 2 ^ 21 := by
        push_cast
        rw [add_mul, mul_assoc]
        norm_num
      _ ≤ j + (1 / 10 ^ 6 - 4 / 10 ^ 10 - 1000001 / 10 ^ 15) := by
        gcongr
        norm_num
      _ ≤ p - ε := by linarith
  have hpos : 0 ≤ p - ε := le_trans (by positivity) hge
  obtain ⟨r, hr, hround⟩ := value?_sub hx hε (by
    rw [abs_of_nonneg hpos]
    exact (hle.trans hk20).trans (two_zpow_le_limit (by decide)))
  have hrhigh : r ≤ (j + 1 : Nat) := hround.le_of_le _ (isRepresentable_natCast (by omega)) hle
  have hrlow : (j : ℚ) < r := by
    refine lt_of_lt_of_le ?_
      (hround.le_of_ge _ (isRepresentable_mul_two_zpow (by omega) (by decide)) hge)
    push_cast
    rw [add_mul, mul_assoc]
    norm_num
  have hceil : ⌈r⌉₊ = j + 1 := (Nat.ceil_eq_iff (by omega)).2 ⟨by simpa using hrlow, hrhigh⟩
  have hword : j + 1 ≤ Text.word64 - 1 := by
    unfold Text.word64
    omega
  rw [ceilUpTo_of_value? _ hr, hceil, Nat.min_eq_left hword]

/-- The target of a factor with six decimal places is the exact product rounded up, be the
product whole or not. -/
theorem targetSize_of_isRounding {m : Nat} (hn : 1 ≤ n) (hm : 10 ^ 6 < m)
    (hsize : n * m ≤ 10 ^ 12) (hround : IsRounding (m / 10 ^ 6) v) (hv : value? factor = some v) :
    targetSize n factor = ⌈(n * (m / 10 ^ 6) : ℚ)⌉₊ := by
  have hproduct : (n * (m / 10 ^ 6) : ℚ) = (n * m : Nat) / (10 ^ 6 : Nat) := by
    push_cast
    ring
  have hfactor : (1 : ℚ) ≤ m / 10 ^ 6 := by
    rw [le_div_iff₀ (by norm_num), one_mul]
    exact_mod_cast hm.le
  have hsize' : (n * (m / 10 ^ 6) : ℚ) ≤ 10 ^ 6 := by
    rw [hproduct, div_le_iff₀ (by norm_num)]
    exact_mod_cast hsize
  have hpos : 0 < n * m := Nat.mul_pos hn (by omega)
  have hn53 : n ≤ 2 ^ 53 := by
    have := Nat.le_mul_of_pos_right n (show 0 < m by omega)
    omega
  obtain ⟨p, hp, herror⟩ := exists_product hn53 hround hv hfactor hsize'
  refine ceilUpTo_sub_tolerance hp herror ?_ ?_ ?_ (Nat.le_ceil _)
  · rw [Nat.one_le_ceil_iff, hproduct]
    positivity
  · exact Nat.ceil_le.2 (by exact_mod_cast hsize')
  · rw [hproduct]
    exact_mod_cast pred_ceil_add_le hpos (d := 10 ^ 6) (by norm_num)

theorem lt_targetSize_iff : n < targetSize n factor ↔
    n < Text.word64 - 1 ∧ Exceeds (Float.ofNat n * factor - targetTolerance) n :=
  lt_ceilUpTo_iff

theorem lt_targetSize_of_exceeds (hn : 1 ≤ n) (hn' : n < Text.word64 - 1)
    (hfactor : Exceeds factor (1 + 1001 / 10 ^ 12)) : n < targetSize n factor := by
  obtain ⟨ε, hε, -, hεhigh⟩ := exists_tolerance
  have hn1 : (1 : ℚ) ≤ n := by exact_mod_cast hn
  have hmin : (2 : ℚ) ^ (-1022 : Int) ≤ 1 / 2 := by
    rw [one_div, ← zpow_neg_one]
    exact zpow_le_zpow_right₀ one_le_two (by decide)
  obtain ⟨a, ha, hround⟩ := value?_ofNat (word64_le_limit (show n < Text.word64 by omega))
  have hlow : (1 - 2 ^ (-52 : Int)) * n ≤ a := by
    have := (abs_le.1 (hround.abs_sub_le_mul (by linarith))).1
    linarith
  have ha1 : 1 ≤ a := hround.le_of_ge 1 isRepresentable_one hn1
  have hproduct : Exceeds (Float.ofNat n * factor) (n * (1 + 10009 / 10 ^ 13)) := by
    refine hfactor.mul ha (by linarith) (by linarith) ?_
    calc
      (n : ℚ) * (1 + 10009 / 10 ^ 13) ≤
          (1 - 2 ^ (-52 : Int)) * ((1 - 2 ^ (-52 : Int)) * n * (1 + 1001 / 10 ^ 12)) := by
        norm_num
        linarith
      _ ≤ (1 - 2 ^ (-52 : Int)) * (a * (1 + 1001 / 10 ^ 12)) := by gcongr
  refine lt_targetSize_iff.2 ⟨hn', hproduct.sub hε (by linarith) ?_⟩
  calc
    (n : ℚ) ≤ (1 - 2 ^ (-52 : Int)) * (n * (1 + 10009 / 10 ^ 13) - 1000001 / 10 ^ 15 * n) := by
      norm_num
      linarith
    _ ≤ (1 - 2 ^ (-52 : Int)) * (n * (1 + 10009 / 10 ^ 13) - ε) := by
      gcongr
      exact hεhigh.le.trans (le_mul_of_one_le_right (by norm_num) hn1)

theorem targetSize_le (hn : n < 2 ^ 23) (hv : value? factor = some v) (hv0 : 0 ≤ v)
    (hclose : n * (v - 1) ≤ 2 ^ (-30 : Int)) : targetSize n factor ≤ n := by
  obtain ⟨ε, hε, hεlow, hεhigh⟩ := exists_tolerance
  have hn0 : (0 : ℚ) ≤ n := Nat.cast_nonneg n
  have hnv : 0 ≤ n * v := mul_nonneg hn0 hv0
  have hgrid : (n * 2 ^ 30 + 1 : Nat) * (2 : ℚ) ^ (-30 : Int) = n + 2 ^ (-30 : Int) := by
    push_cast
    rw [add_mul, mul_assoc]
    norm_num
  have hbound : (n : ℚ) + 2 ^ (-30 : Int) ≤ limit := by
    have : (n : ℚ) ≤ 2 ^ (23 : Int) := by exact_mod_cast hn.le
    calc
      (n : ℚ) + 2 ^ (-30 : Int) ≤ 2 ^ (23 : Int) + 2 ^ (-30 : Int) := by gcongr
      _ ≤ 2 ^ (24 : Int) := by norm_num
      _ ≤ limit := two_zpow_le_limit (by decide)
  have hle : n * v ≤ n + 2 ^ (-30 : Int) := by linarith
  obtain ⟨p, hp, hproduct⟩ := value?_mul (value?_size (n := n) (by omega)) hv
    (by rw [abs_of_nonneg hnv]; exact hle.trans hbound)
  have hp0 : 0 ≤ p := hproduct.le_of_ge 0 isRepresentable_zero hnv
  have hphigh : p ≤ n + 2 ^ (-30 : Int) := by
    have hrepresentable := isRepresentable_mul_two_zpow (k := n * 2 ^ 30 + 1) (e := -30)
      (by omega) (by decide)
    rw [← hgrid] at hle ⊢
    exact hproduct.le_of_le _ hrepresentable hle
  have hdifference : p - ε ≤ n := by
    have : (2 : ℚ) ^ (-30 : Int) ≤ ε := le_trans (by norm_num) hεlow.le
    linarith
  obtain ⟨r, hr, hround⟩ := value?_sub hp hε (by
    rw [abs_le]
    have : (1 : ℚ) ≤ limit := (two_zpow_le_limit (e := 0) (by decide)).trans' (by norm_num)
    have : (0 : ℚ) ≤ 2 ^ (-30 : Int) := by positivity
    constructor <;> linarith)
  have hrhigh := hround.le_of_le _ (isRepresentable_natCast (by omega)) hdifference
  unfold targetSize
  rw [ceilUpTo_of_value? _ hr]
  exact (min_le_left _ _).trans (Nat.ceil_le.2 hrhigh)

end FleetSizing
