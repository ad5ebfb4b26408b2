import FleetSizing.Decimal.Shortest
import FleetSizing.Proofs.Binary64.Scientific
/-!
# Decimals that read back

What a decimal is read as depends on nothing but the number it stands for.  The shortest
decimal of a finite double is read as this double: either the search has seen to it, or the
decimal has all the digits.
-/

namespace FleetSizing

open Float.Model Float.Model.UnpackedFloat Binary64

namespace Decimal

/-- The number that a decimal stands for. -/
def value (d : Decimal) : ℚ := d.digits * 10 ^ d.exponent

theorem value_mul_pow (n k : Nat) (e : Int) :
    value ⟨n * 10 ^ k, e⟩ = value ⟨n, e + k⟩ := by
  unfold value
  rw [zpow_add₀ (by norm_num), zpow_natCast]
  push_cast
  ring

theorem exists_stripZeros (fuel n : Nat) (e : Int) :
    ∃ k : Nat, n = (stripZeros fuel n e).digits * 10 ^ k ∧
      (stripZeros fuel n e).exponent = e + k := by
  induction fuel generalizing n e with
  | zero => exact ⟨0, by simp [stripZeros], by simp [stripZeros]⟩
  | succ fuel ih =>
      unfold stripZeros
      by_cases h : n % 10 = 0
      · obtain ⟨k, hdigits, hexponent⟩ := ih (n / 10) (e + 1)
        rw [if_pos h]
        refine ⟨k + 1, ?_, by omega⟩
        rw [pow_succ, ← mul_assoc, ← hdigits]
        omega
      · rw [if_neg h]
        exact ⟨0, by simp, by simp⟩

theorem value_stripZeros (fuel n : Nat) (e : Int) :
    (stripZeros fuel n e).value = value ⟨n, e⟩ := by
  obtain ⟨k, hdigits, hexponent⟩ := exists_stripZeros fuel n e
  conv_rhs => rw [hdigits, value_mul_pow, ← hexponent]

theorem value_normalize (d : Decimal) : d.normalize.value = d.value := by
  unfold normalize
  by_cases h : d.digits = 0
  · rw [if_pos h]
    simp [value, h]
  · rw [if_neg h, value_stripZeros]

/-- The digits do not end in a zero; zero has one normal form. -/
def IsNormal (d : Decimal) : Prop := d.digits % 10 ≠ 0 ∨ d = ⟨0, 0⟩

theorem stripZeros_mod_ne_zero {fuel n : Nat} (hn : 0 < n) (hfuel : n.log2 ≤ fuel) (e : Int) :
    (stripZeros fuel n e).digits % 10 ≠ 0 := by
  induction fuel generalizing n e with
  | zero =>
      have hlt : n < 2 ^ (n.log2 + 1) := Nat.lt_log2_self
      have hlog : n.log2 = 0 := by omega
      rw [hlog] at hlt
      unfold stripZeros
      dsimp only
      omega
  | succ fuel ih =>
      unfold stripZeros
      by_cases h : n % 10 = 0
      · -- A digit takes more than one bit.
        have hdiv : 0 < n / 10 := by omega
        have hle : 2 * (n / 10) ≤ n := by omega
        have hlog : (n / 10).log2 + 1 ≤ n.log2 := by
          rw [← Nat.log2_two_mul hdiv.ne', Nat.le_log2 hn.ne']
          exact (Nat.log2_self_le (by omega)).trans hle
        rw [if_pos h]
        exact ih hdiv (by omega) (e + 1)
      · rw [if_neg h]
        exact h

theorem isNormal_normalize (d : Decimal) : d.normalize.IsNormal := by
  unfold normalize
  by_cases h : d.digits = 0
  · rw [if_pos h]
    exact Or.inr rfl
  · rw [if_neg h]
    exact Or.inl (stripZeros_mod_ne_zero (Nat.pos_of_ne_zero h) le_rfl _)

theorem IsNormal.exponent_le {d d' : Decimal} (hd : d.digits % 10 ≠ 0)
    (h : d.value = d'.value) : d'.exponent ≤ d.exponent := by
  by_contra hlt
  -- The digits of the first one would end in a zero.
  have hexponent : d'.exponent = d.exponent + ((d'.exponent - d.exponent - 1).toNat + 1 : Nat) := by
    omega
  have hpos : (0 : ℚ) < 10 ^ d.exponent := by positivity
  have hshift := value_mul_pow d'.digits ((d'.exponent - d.exponent - 1).toNat + 1) d.exponent
  rw [← hexponent] at hshift
  have hsame : (d.digits : ℚ) =
      (d'.digits * 10 ^ ((d'.exponent - d.exponent - 1).toNat + 1) : Nat) :=
    mul_right_cancel₀ hpos.ne' (h.trans hshift.symm)
  have hdigits := Nat.cast_injective hsame
  rw [hdigits, pow_succ, ← mul_assoc, Nat.mul_mod_left] at hd
  exact hd rfl

theorem IsNormal.eq {d d' : Decimal} (hd : d.IsNormal) (hd' : d'.IsNormal)
    (h : d.value = d'.value) : d = d' := by
  have hzero {d : Decimal} (hd : d.IsNormal) (h : d.value = 0) : d = ⟨0, 0⟩ := by
    rcases hd with hd | hd
    · unfold value at h
      have hpos : (0 : ℚ) < 10 ^ d.exponent := by positivity
      have hdigits : d.digits = 0 := by
        exact_mod_cast (mul_eq_zero.1 h).resolve_right hpos.ne'
      rw [hdigits] at hd
      exact absurd rfl hd
    · exact hd
  by_cases hvalue : d.value = 0
  · rw [hzero hd hvalue, hzero hd' (h ▸ hvalue)]
  · have hmod {d : Decimal} (hd : d.IsNormal) (h : d.value ≠ 0) : d.digits % 10 ≠ 0 := by
      rcases hd with hd | rfl
      · exact hd
      · simp [value] at h
    have hle := IsNormal.exponent_le (hmod hd hvalue) h
    have hge := IsNormal.exponent_le (hmod hd' (h ▸ hvalue)) h.symm
    have hexponent : d.exponent = d'.exponent := le_antisymm hge hle
    have hpos : (0 : ℚ) < 10 ^ d.exponent := by positivity
    unfold value at h
    rw [← hexponent] at h
    have hdigits : d.digits = d'.digits := by exact_mod_cast mul_right_cancel₀ hpos.ne' h
    cases d
    cases d'
    simp only at hdigits hexponent
    rw [hdigits, hexponent]

theorem toFloat_congr {d d' : Decimal} (h : d.value = d'.value) : d.toFloat = d'.toFloat := by
  have hnormal : d.normalize = d'.normalize := by
    apply (isNormal_normalize d).eq (isNormal_normalize d')
    rw [value_normalize, value_normalize, h]
  unfold toFloat
  rw [hnormal]

section

variable {x : Float} {m : Nat} {q : Int} {hm : 0 < m}
  (hx : x.toModel.unpack = .finite .positive m q hm)

theorem value_exactly (m : Nat) (q : Int) : (exactly m q).value = magnitude m q := by
  unfold exactly magnitude
  by_cases hq : q < 0
  · have hq' : q = -(q.natAbs : Int) := by omega
    have hten : (10 : ℚ) ^ q.natAbs = 2 ^ q.natAbs * 5 ^ q.natAbs := by
      rw [← mul_pow]
      norm_num
    rw [if_pos hq]
    unfold value
    dsimp only
    conv_lhs => rw [hq', zpow_neg, zpow_natCast, ← hq', hten]
    conv_rhs => rw [hq', zpow_neg, zpow_natCast]
    rw [Nat.pow_eq]
    push_cast
    field_simp
  · have hq' : q = (q.toNat : Int) := by omega
    rw [if_neg hq]
    unfold value numerator
    conv_rhs => rw [hq', zpow_natCast]
    simp

include hx

theorem toFloat_eq {d : Decimal} (h : d.value = magnitude m q) : d.toFloat = x := by
  apply ofScientific_eq hx
  rw [← h, ← value_normalize]
  rfl

theorem toFloat_shortest : (shortest x m q).toFloat = x := by
  have hsearch (grids : Nat) (k : Int) {d : Decimal} (h : search x m q grids k = some d) :
      d.toFloat = x := by
    induction grids generalizing k with
    | zero => cases h
    | succ grids ih =>
        unfold search at h
        split at h
        next d' hfind =>
          cases h
          simpa using List.find?_some hfind
        next => exact ih _ h
  unfold shortest
  cases h : search x m q 20 (leading m q) with
  | none => exact toFloat_eq hx (value_exactly m q)
  | some d => exact hsearch _ _ h

theorem digits_pos_of_toFloat {d : Decimal} (h : d.toFloat = x) : 0 < d.digits := by
  apply Nat.pos_of_ne_zero
  intro hdigits
  have hzero : d.toFloat = toFloat ⟨0, 0⟩ := by
    apply toFloat_congr
    simp [value, hdigits]
  have hunpack : (toFloat ⟨0, 0⟩).toModel.unpack = .zero .positive := by rfl
  rw [← h, hzero, hunpack] at hx
  cases hx

end

end Decimal

end FleetSizing
