import FleetSizing.Proofs.Utilization
import FleetSizing.Proofs.Binary64.Accuracy
/-!
# Means of equal doubles

The mean of equal fractions is that fraction as long as every partial sum is representable.
In general each partial sum is rounded, so that the mean is next to the fraction only.
-/

namespace FleetSizing

open Binary64

variable {u : Float} {v : ℚ} {n : Nat}

theorem total_replicate_succ (u : Float) (n : Nat) :
    total (List.replicate (n + 1) u) = (List.replicate n u).foldl (· + ·) (-0.0 + u) := rfl

theorem value_neg_zero_add (hu : value? u = some v) (hv0 : 0 ≤ v) (hv1 : v ≤ 1) :
    value? (-0.0 + u) = some v := by
  obtain ⟨r, hr, hround, -⟩ := value_add_fraction (k := 0) value?_neg_zero hu le_rfl
    (by simp) hv0 hv1 (by norm_num)
  rw [zero_add] at hround
  rw [hr, hround.eq (isRepresentable_of_value? hu)]

theorem abs_foldl_replicate_sub_le (hu : value? u = some v) (hv0 : 0 ≤ v) (hv1 : v ≤ 1)
    {a : Float} {q : ℚ} {k : Nat} {e : Int} (ha : value? a = some q) (hq0 : 0 ≤ q) (hqk : q ≤ k)
    (hk : k + n ≤ 2 ^ 53) (he : -1074 ≤ e) (hbound : ((k + n : Nat) : ℚ) ≤ 2 ^ (e + 53)) :
    ∃ r, value? ((List.replicate n u).foldl (· + ·) a) = some r ∧ 0 ≤ r ∧ r ≤ (k + n : Nat) ∧
      |r - (q + n * v)| ≤ n * 2 ^ e := by
  induction n generalizing a q k with
  | zero => exact ⟨q, ha, hq0, by simpa using hqk, by simp⟩
  | succ n ih =>
      obtain ⟨r, hr, hround, hr0, hrk⟩ := value_add_fraction ha hu hq0 hqk hv0 hv1 (by omega)
      have hcount : k + 1 + n = k + (n + 1) := by omega
      have hsum : q + v ≤ 2 ^ (e + 53) := by
        refine le_trans ?_ hbound
        push_cast
        have : (0 : ℚ) ≤ n := Nat.cast_nonneg n
        linarith
      have herror : |r - (q + v)| ≤ 2 ^ e := hround.abs_sub_le (by linarith) he hsum
      obtain ⟨s, hs, hs0, hsk, herrors⟩ := ih hr hr0 hrk (by omega) (by rwa [hcount])
      refine ⟨s, hs, hs0, by rwa [hcount] at hsk, ?_⟩
      calc
        |s - (q + (n + 1 : Nat) * v)| = |(s - (r + n * v)) + (r - (q + v))| := by
          congr 1
          push_cast
          ring
        _ ≤ n * 2 ^ e + 2 ^ e := (abs_add_le _ _).trans (add_le_add herrors herror)
        _ = (n + 1 : Nat) * 2 ^ e := by
          push_cast
          ring

theorem value_foldl_replicate (hu : value? u = some v) (hv0 : 0 ≤ v) (hv1 : v ≤ 1) {a : Float}
    {k : Nat} (ha : value? a = some (k * v)) (hk : k + n ≤ 2 ^ 53)
    (hexact : ∀ m ≤ k + n, IsRepresentable (m * v)) :
    value? ((List.replicate n u).foldl (· + ·) a) = some ((k + n : Nat) * v) := by
  induction n generalizing a k with
  | zero => exact ha
  | succ n ih =>
      have hcount : k + 1 + n = k + (n + 1) := by omega
      have hkv : (k : ℚ) * v ≤ k := mul_le_of_le_one_right (Nat.cast_nonneg k) hv1
      obtain ⟨r, hr, hround, -⟩ :=
        value_add_fraction ha hu (by positivity) hkv hv0 hv1 (by omega)
      have hsum : (k : ℚ) * v + v = (k + 1 : Nat) * v := by
        push_cast
        ring
      rw [hsum] at hround
      rw [hround.eq (hexact (k + 1) (by omega))] at hr
      rw [← hcount]
      exact ih hr (by omega) (fun m hm => hexact m (by omega))

theorem value_mean_replicate (hu : value? u = some v) (hv0 : 0 ≤ v) (hv1 : v ≤ 1) (hn : 1 ≤ n)
    (hn' : n ≤ 2 ^ 53) (hexact : ∀ m ≤ n, IsRepresentable (m * v)) :
    value? (mean (List.replicate n u)) = some v := by
  obtain ⟨n, rfl⟩ := Nat.exists_eq_add_one.2 hn
  have hfirst : value? (-0.0 + u) = some ((1 : Nat) * v) := by
    rw [Nat.cast_one, one_mul]
    exact value_neg_zero_add hu hv0 hv1
  have hsum := value_foldl_replicate (n := n) hu hv0 hv1 hfirst (by omega)
    (fun m hm => hexact m (by omega))
  have hlength : (List.replicate (n + 1) u).length = n + 1 := List.length_replicate
  rw [← total_replicate_succ, Nat.add_comm 1 n] at hsum
  obtain ⟨-, -, p, hp, hround⟩ := value_mean (by omega) (by omega) hsum (by positivity) (by
    rw [hlength]
    exact mul_le_of_le_one_right (Nat.cast_nonneg _) hv1)
  have hquot : ((n + 1 : Nat) * v : ℚ) / (List.replicate (n + 1) u).length = v := by
    rw [hlength]
    exact mul_div_cancel_left₀ v (by positivity)
  rw [hquot] at hround
  rw [hp, hround.eq (isRepresentable_of_value? hu)]

/-- The mean of equal fractions is off by no more than their number of units in the last
place of one. -/
theorem abs_mean_replicate_sub_le (hu : value? u = some v) (hv0 : 0 ≤ v) (hv1 : v ≤ 1)
    (hn : 1 ≤ n) (hn' : n ≤ 2 ^ 53) :
    ∃ w, value? (mean (List.replicate n u)) = some w ∧ |w - v| ≤ n * 2 ^ (-52 : Int) := by
  obtain ⟨n, rfl⟩ := Nat.exists_eq_add_one.2 hn
  set j := (n + 1).log2 with hj
  have hlow : 2 ^ j ≤ n + 1 := Nat.log2_self_le (Nat.succ_ne_zero n)
  have hhigh : n + 1 ≤ 2 ^ (j + 1) := Nat.lt_log2_self.le
  have hbound : ((1 + n : Nat) : ℚ) ≤ 2 ^ ((j : Int) - 52 + 53) := by
    have hexp : (j : Int) - 52 + 53 = (j + 1 : Nat) := by push_cast; ring
    rw [hexp, zpow_natCast, Nat.add_comm]
    exact_mod_cast hhigh
  obtain ⟨r, hr, hr0, hrn, herror⟩ := abs_foldl_replicate_sub_le (n := n) (k := 1) hu hv0 hv1
    (value_neg_zero_add hu hv0 hv1) hv0 (by simpa using hv1) (by omega) (by omega) hbound
  rw [← total_replicate_succ] at hr
  have hlength : (List.replicate (n + 1) u).length = n + 1 := List.length_replicate
  obtain ⟨hge, hle, w, hw, hround⟩ := value_mean (by omega) (by omega) hr hr0 (by
    rw [hlength, Nat.add_comm]
    exact hrn)
  rw [hlength] at hge hle hround
  have hpos : (0 : ℚ) < (n + 1 : Nat) := by positivity
  have hlast : |w - r / (n + 1 : Nat)| ≤ 2 ^ (-53 : Int) :=
    hround.abs_sub_le hge (by decide) (hle.trans (by norm_num))
  have hfold : |r / (n + 1 : Nat) - v| ≤ n * 2 ^ (-52 : Int) := by
    have hdiff : r / (n + 1 : Nat) - v = (r - (v + n * v)) / (n + 1 : Nat) := by
      field_simp
      push_cast
      ring
    have hunit : (2 : ℚ) ^ ((j : Int) - 52) = 2 ^ j * 2 ^ (-52 : Int) := by
      rw [sub_eq_add_neg, zpow_add₀ two_ne_zero, zpow_natCast]
    have hlow' : (2 : ℚ) ^ j ≤ (n + 1 : Nat) := by exact_mod_cast hlow
    rw [hdiff, abs_div, abs_of_pos hpos, div_le_iff₀ hpos]
    calc
      |r - (v + n * v)| ≤ n * 2 ^ ((j : Int) - 52) := herror
      _ = n * 2 ^ (-52 : Int) * 2 ^ j := by
        rw [hunit]
        ring
      _ ≤ n * 2 ^ (-52 : Int) * (n + 1 : Nat) := by gcongr
  refine ⟨w, hw, ?_⟩
  calc
    |w - v| ≤ |w - r / (n + 1 : Nat)| + |r / (n + 1 : Nat) - v| := abs_sub_le ..
    _ ≤ 2 ^ (-53 : Int) + n * 2 ^ (-52 : Int) := add_le_add hlast hfold
    _ ≤ 2 ^ (-52 : Int) + n * 2 ^ (-52 : Int) := by
      gcongr
      · exact one_le_two
      · decide
    _ = (n + 1 : Nat) * 2 ^ (-52 : Int) := by
      push_cast
      ring

end FleetSizing
