import FleetSizing.Decimal.Rounding
import FleetSizing.Proofs.Binary64.Accuracy
/-!
# Ceilings of doubles

The ceiling of a double is the ceiling of the number that it stands for.
-/

namespace FleetSizing.Decimal

open Float.Model Float.Model.UnpackedFloat Binary64

theorem magnitude_eq_div (m : Nat) (e : Int) : magnitude m e = numerator m e / denominator e := by
  have hsplit : e = e.toNat - (-e).toNat := by omega
  unfold magnitude numerator denominator
  conv_lhs => rw [hsplit, zpow_sub₀ two_ne_zero, zpow_natCast, zpow_natCast, ← mul_div_assoc]
  rw [Nat.pow_eq, Nat.pow_eq]
  push_cast
  rfl

theorem ceil_le_iff {m : Nat} {e : Int} {k : Nat} : ceil m e ≤ k ↔ magnitude m e ≤ k := by
  have hpos := denominator_pos e
  have hpos' : (0 : ℚ) < denominator e := Nat.cast_pos.2 hpos
  unfold ceil
  rw [magnitude_eq_div, div_le_iff₀ hpos', ← Nat.lt_add_one_iff, Nat.div_lt_iff_lt_mul hpos,
    Nat.add_mul, Nat.one_mul]
  have hcast : (numerator m e : ℚ) ≤ k * denominator e ↔ numerator m e ≤ k * denominator e := by
    exact_mod_cast Iff.rfl
  rw [hcast]
  omega

theorem ceil_eq (m : Nat) (e : Int) : ceil m e = ⌈magnitude m e⌉₊ :=
  eq_of_forall_ge_iff fun _ => ceil_le_iff.trans Nat.ceil_le.symm

theorem ceilUpTo_of_value? (limit : Nat) {x : Float} {q : ℚ} (hx : value? x = some q) :
    ceilUpTo limit x = min ⌈q⌉₊ limit := by
  unfold value? at hx
  unfold ceilUpTo
  cases hu : x.toModel.unpack with
  | infinity s => rw [hu] at hx; cases hx
  | notANumber => rw [hu] at hx; cases hx
  | zero s =>
      rw [hu] at hx
      obtain rfl := Option.some.inj hx
      simp
  | finite s m e hm =>
      rw [hu] at hx
      obtain rfl := Option.some.inj hx
      cases s with
      | negative =>
          have hnonpos : -magnitude m e ≤ 0 := neg_nonpos.2 (magnitude_nonneg m e)
          rw [signed, Nat.ceil_eq_zero.2 hnonpos, Nat.zero_min]
      | positive =>
          simp only [signed, ceil_eq]

theorem lt_ceilUpTo_iff {limit n : Nat} {x : Float} :
    n < ceilUpTo limit x ↔ n < limit ∧ Exceeds x n := by
  cases hx : value? x with
  | some q =>
      have hfinite : x.toModel.unpack ≠ .infinity .positive := by
        intro hinf
        rw [value?, hinf] at hx
        cases hx
      rw [ceilUpTo_of_value? limit hx, lt_min_iff, Nat.lt_ceil, and_comm]
      refine and_congr_right fun _ => ⟨fun h => Or.inr ⟨q, hx, h⟩, ?_⟩
      rintro (h | ⟨r, hr, hlt⟩)
      · exact absurd h hfinite
      · obtain rfl := Option.some.inj (hx.symm.trans hr)
        exact hlt
  | none =>
      have hnone : ¬ ∃ r, value? x = some r ∧ (n : ℚ) < r := by
        rintro ⟨r, hr, -⟩
        rw [hx] at hr
        cases hr
      unfold Exceeds
      rw [or_iff_left hnone]
      unfold value? at hx
      unfold ceilUpTo
      cases hu : x.toModel.unpack with
      | zero s => rw [hu] at hx; cases hx
      | finite s m e hm => rw [hu] at hx; cases hx
      | notANumber => simp
      | infinity s => cases s <;> simp

end FleetSizing.Decimal
