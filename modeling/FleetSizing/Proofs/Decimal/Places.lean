import FleetSizing.Proofs.Decimal.Ceiling
/-!
# Doubles rounded to decimal places

Of the numbers with so many places the nearest one to the exact value is taken, of two equally
near ones the even one.
-/

namespace FleetSizing.Decimal

open Binary64

/-- The whole number nearest to `x`, of two equally near ones the even one. -/
def IsNearest (n : Nat) (x : ℚ) : Prop :=
  |x - n| ≤ 1 / 2 ∧ (|x - n| = 1 / 2 → n % 2 = 0)

theorem isNearest_div_iff {num den n : Nat} (hden : 0 < den) : IsNearest n (num / den) ↔
    2 * |(num : ℤ) - n * den| ≤ den ∧ (2 * |(num : ℤ) - n * den| = den → n % 2 = 0) := by
  have hpos : (0 : ℚ) < den := Nat.cast_pos.2 hden
  have hdist : |(num : ℚ) / den - n| = (|(num : ℤ) - n * den| : ℤ) / den := by
    rw [div_sub' hpos.ne', abs_div, abs_of_pos hpos, mul_comm (den : ℚ)]
    push_cast
    rfl
  have hle : |(num : ℚ) / den - n| ≤ 1 / 2 ↔ 2 * |(num : ℤ) - n * den| ≤ den := by
    rw [hdist, div_le_div_iff₀ hpos two_pos, one_mul, mul_comm]
    exact_mod_cast Iff.rfl
  have heq : |(num : ℚ) / den - n| = 1 / 2 ↔ 2 * |(num : ℤ) - n * den| = den := by
    rw [hdist, div_eq_div_iff hpos.ne' two_ne_zero, one_mul, mul_comm]
    exact_mod_cast Iff.rfl
  rw [IsNearest, hle, heq]

theorem isNearest_roundHalfEven (num : Nat) {den : Nat} (hden : 0 < den) :
    IsNearest (roundHalfEven num den) (num / den) := by
  have hsplit : (num : ℤ) = den * (num / den : Nat) + (num % den : Nat) := by
    exact_mod_cast (Nat.div_add_mod num den).symm
  have hrest := Nat.mod_lt num hden
  -- The neighbours are as far away as the division leaves over, and as it lacks.
  have hlow : |(num : ℤ) - (num / den : Nat) * den| = (num % den : Nat) := by
    rw [hsplit, mul_comm, add_sub_cancel_left, Nat.abs_cast]
  have hhigh : |(num : ℤ) - (num / den + 1 : Nat) * den| = den - (num % den : Nat) := by
    have hdiff : (num : ℤ) - (num / den + 1 : Nat) * den = -(den - (num % den : Nat)) := by
      rw [hsplit]
      push_cast
      ring
    rw [hdiff, abs_neg, abs_of_nonneg (by omega)]
  rw [isNearest_div_iff hden]
  unfold roundHalfEven
  dsimp only
  split
  next hless =>
    rw [hlow]
    omega
  next =>
    split
    next =>
      rw [hhigh]
      omega
    next =>
      rcases Nat.mod_two_eq_zero_or_one (num / den) with heven | hodd
      · rw [heven, Nat.add_zero, hlow]
        omega
      · rw [hodd, hhigh]
        omega

theorem isNearest_roundPlaces (places m : Nat) (q : Int) :
    IsNearest (roundPlaces places m q) (magnitude m q * 10 ^ places) := by
  have hnearest := isNearest_roundHalfEven (numerator m q * 10 ^ places) (denominator_pos q)
  have hvalue : magnitude m q * 10 ^ places =
      (numerator m q * 10 ^ places : Nat) / denominator q := by
    rw [magnitude_eq_div, div_mul_eq_mul_div]
    push_cast
    rfl
  rw [hvalue]
  exact hnearest

end FleetSizing.Decimal
