import FleetSizing.Proofs.Binary64.Accuracy
/-!
# Whole numbers as doubles

A whole number converts to the double nearest to it, so a larger one never converts to a
smaller double.
-/

namespace FleetSizing.Binary64

open Float.Model Float.Model.UnpackedFloat

theorem abs_sub_le_of_half {q r low high : ℚ} (hlow : IsRounding q low) (hhigh : IsRounding q high)
    (hle : low ≤ q) (hge : q ≤ high) (hr : r = low ∨ r = high) (hhalf : 2 * |r - q| ≤ high - low)
    {v : ℚ} (hv : IsRepresentable v) : |r - q| ≤ |v - q| := by
  rcases le_total v q with hvq | hvq
  · have := hlow.le_of_ge v hv hvq
    rw [abs_of_nonpos (sub_nonpos.2 hvq)]
    rcases hr with rfl | rfl
    · rw [abs_of_nonpos (sub_nonpos.2 hle)]
      linarith
    · rw [abs_of_nonneg (sub_nonneg.2 hge)] at hhalf ⊢
      linarith
  · have := hhigh.le_of_le v hv hvq
    rw [abs_of_nonneg (sub_nonneg.2 hvq)]
    rcases hr with rfl | rfl
    · rw [abs_of_nonpos (sub_nonpos.2 hle)] at hhalf ⊢
      linarith
    · rw [abs_of_nonneg (sub_nonneg.2 hge)]
      linarith

theorem magnitude_nearest {m R : Nat} (hm : 0 < m) {e t : Int}
    (ht : t = max (m.log2 + e - 52) (-1074)) (he : e ≤ t)
    (hR : m / 2 ^ (t - e).toNat ≤ R ∧ R ≤ m / 2 ^ (t - e).toNat + 1)
    (hhalf : 2 * m ≤ 2 * (R * 2 ^ (t - e).toNat) + 2 ^ (t - e).toNat ∧
      2 * (R * 2 ^ (t - e).toNat) ≤ 2 * m + 2 ^ (t - e).toNat)
    {v : ℚ} (hv : IsRepresentable v) :
    |magnitude R t - magnitude m e| ≤ |v - magnitude m e| := by
  have hnext : magnitude m e < magnitude (m + 1) e :=
    magnitude_lt_magnitude_iff.2 (Nat.lt_succ_self m)
  have hrounding (A : Nat) (hA : m / 2 ^ (t - e).toNat ≤ A ∧ A ≤ m / 2 ^ (t - e).toNat + 1)
      (hexact : magnitude m e = magnitude (m / 2 ^ (t - e).toNat) t →
        A = m / 2 ^ (t - e).toNat) : IsRounding (magnitude m e) (magnitude A t) :=
    isRounding_magnitude (magnitude_pos hm e) ht he le_rfl hnext hA hexact
  have hrest := Nat.div_add_mod' m (2 ^ (t - e).toNat)
  have hlt := Nat.mod_lt m (Nat.two_pow_pos (t - e).toNat)
  have hunit (n : Nat) : magnitude n t = magnitude (n * 2 ^ (t - e).toNat) e :=
    magnitude_eq_of_le n he
  simp only [hunit] at hrounding ⊢
  generalize 2 ^ (t - e).toNat = unit at *
  generalize m / unit = M at *
  obtain ⟨hlow, hhigh⟩ := hhalf
  have hsplit : R = M ∨ R = M + 1 := by omega
  have hsucc : (M + 1) * unit = M * unit + unit := Nat.succ_mul M unit
  by_cases hexact : m % unit = 0
  · have hsame : R * unit = m := by
      rcases hsplit with rfl | rfl <;> omega
    rw [hsame, sub_self, abs_zero]
    exact abs_nonneg _
  · have hbelow := hrounding M ⟨le_rfl, Nat.le_succ M⟩ (fun _ => rfl)
    have habove := hrounding (M + 1) ⟨Nat.le_succ M, le_rfl⟩ (fun h => by
      have := magnitude_le_magnitude_iff.1 h.le
      omega)
    refine abs_sub_le_of_half hbelow habove (magnitude_le_magnitude_iff.2 (by omega))
      (magnitude_le_magnitude_iff.2 (by omega)) ?_ ?_ hv
    · rcases hsplit with rfl | rfl
      · exact Or.inl rfl
      · exact Or.inr rfl
    · have hpos : (0 : ℚ) < 2 ^ e := zpow_pos two_pos e
      have hlow' : 2 * (m : ℚ) ≤ 2 * (R * unit : Nat) + unit := by exact_mod_cast hlow
      have hhigh' : 2 * ((R * unit : Nat) : ℚ) ≤ 2 * m + unit := by exact_mod_cast hhigh
      have hhalf' : |((R * unit : Nat) : ℚ) - m| ≤ unit / 2 := by
        rw [abs_le]
        constructor <;> linarith
      unfold magnitude
      rw [hsucc, ← sub_mul, ← sub_mul, abs_mul, abs_of_pos hpos, Nat.cast_add,
        add_sub_cancel_left, ← mul_assoc]
      gcongr
      linarith

theorem exists_round_exact {m : Nat} (hm : 0 < m) {e : Int}
    (he : e ≤ max (m.log2 + e - 52) (-1074)) :
    ∃ r, unpackedValue? (roundWithAccuracy Format.binary64 .positive m e .exact) = some r ∧
      ∀ v, IsRepresentable v → |r - magnitude m e| ≤ |v - magnitude m e| := by
  generalize ht : max ((m.log2 : Int) + e - 52) (-1074) = t at he
  obtain ⟨R, hle, hge, hhalf, hround⟩ := roundWithAccuracy_eq .positive .exact ht.symm he
  refine ⟨magnitude R t, ?_, fun v hv => magnitude_nearest hm ht.symm he ⟨hle, hge⟩ (hhalf rfl) hv⟩
  rw [hround]
  split
  next hzero => simp [unpackedValue?, hzero, magnitude]
  next =>
    split
    next => rfl
    next hcarry =>
      obtain ⟨hupper, -⟩ := shifted_bounds ht.symm he
      have hR : R = 2 ^ 53 := by omega
      have hexp : t + 1 + (52 : Nat) = t + (53 : Nat) := by omega
      rw [unpackedValue?, signed, hR, magnitude_two_pow, magnitude_two_pow, hexp]

theorem Approximates.unpack_pack {m : Nat} {e : Int} {acc : Accuracy} {x : ℚ}
    (h : Approximates x m e acc) (hx : x ≤ limit) (s : Sign) :
    (Float.Model.pack (roundWithAccuracy Format.binary64 s m e acc)).unpack =
      roundWithAccuracy Format.binary64 s m e acc := by
  rcases h.round s with ⟨hzero, -⟩ | ⟨R, t, hR, hfinite, hcanonical, hrounding⟩
  · rw [hzero, unpack_pack_zero]
  · have hle := hrounding.le_of_le _ isRepresentable_limit hx
    have ht : t ≤ 971 := by
      by_contra hlarge
      exact absurd (hcanonical.limit_lt (not_le.1 hlarge)) (not_lt.2 hle)
    rw [hfinite, Binary64.unpack_pack s hR hcanonical ht]

theorem isNearest_ofNat {n : Nat} (hn : (n : ℚ) ≤ limit) : IsNearest n (Float.ofNat n) := by
  by_cases hsmall : n ≤ 2 ^ 53
  · obtain ⟨r, hr, hround⟩ := value?_ofNat hn
    refine ⟨r, hr, fun y w hy => ?_⟩
    rw [hround.eq (isRepresentable_natCast hsmall), sub_self, abs_zero]
    exact abs_nonneg _
  · have hpos : 0 < n := by omega
    have happroximates := approximates_natCast hpos
    obtain ⟨r, hr, hnearest⟩ := exists_round_exact (Nat.mul_pos hpos (by decide))
      happroximates.exponent_le
    rw [magnitude_scaled] at hnearest
    refine ⟨r, ?_, fun y w hy => hnearest w (isRepresentable_of_value? hy)⟩
    rw [value?, unpack_ofNat (by omega), happroximates.unpack_pack hn, hr]

theorem IsNearest.mono {p q v w : ℚ} {x y : Float} (hx : IsNearest p x) (hy : IsNearest q y)
    (hv : value? x = some v) (hw : value? y = some w) (h : p < q) : v ≤ w := by
  obtain ⟨v', hv', hnear⟩ := hx
  obtain ⟨w', hw', hnear'⟩ := hy
  obtain rfl : v = v' := Option.some.inj (hv.symm.trans hv')
  obtain rfl : w = w' := Option.some.inj (hw.symm.trans hw')
  by_contra hlt
  -- The midpoint of the two doubles would lie below the smaller number and above the larger.
  have hgap : 0 < v - w := sub_pos.2 (not_le.1 hlt)
  have hp : (v - w) * (v + w - 2 * p) ≤ 0 := by
    have := sq_le_sq.2 (hnear y w hw)
    linarith
  have hq : (v - w) * (2 * q - (v + w)) ≤ 0 := by
    have := sq_le_sq.2 (hnear' x v hv)
    linarith
  have hp' := nonpos_of_mul_nonpos_right hp hgap
  have hq' := nonpos_of_mul_nonpos_right hq hgap
  linarith

/-- A larger whole number does not convert to a smaller double. -/
theorem ofNat_le_ofNat {m n : Nat} (h : m ≤ n) (hn : (n : ℚ) ≤ limit) :
    Float.ofNat m ≤ Float.ofNat n := by
  have hm : (m : ℚ) ≤ limit := le_trans (by exact_mod_cast h) hn
  obtain ⟨v, hv, -⟩ := isNearest_ofNat hm
  obtain ⟨w, hw, -⟩ := isNearest_ofNat hn
  rw [le_iff_value hv hw]
  rcases h.eq_or_lt with rfl | hlt
  · exact (Option.some.inj (hv.symm.trans hw)).le
  · exact (isNearest_ofNat hm).mono (isNearest_ofNat hn) hv hw (by exact_mod_cast hlt)

end FleetSizing.Binary64
