import FleetSizing.Decimal.Rounding
import FleetSizing.Proofs.Binary64.Value
/-!
# The total order of doubles

The bits of a double, read as a number with a sign, order all doubles.  Of two doubles that
compare, the smaller one comes first.
-/

namespace FleetSizing.Binary64

open Float.Model Float.Model.UnpackedFloat Decimal

/-- The place of a number whose bits without the sign are `n`: negative numbers go downwards
from `-1`. -/
def signedKey : Sign → Nat → Int
  | .positive, n => n
  | .negative, n => -1 - n

/-- The place of a decoded double; `NaN` has none. -/
def unpackedKey? : UnpackedFloat → Option Int
  | .zero s => some (signedKey s 0)
  | .finite s m e _ => some (signedKey s ((e + 1074).toNat * 2 ^ 52 + m))
  | .infinity s => some (signedKey s (2047 * 2 ^ 52))
  | .notANumber => none

theorem toNat_packComponents (s : Sign) (e : BitVec 11) (m : BitVec 52) :
    (packComponents Format.binary64 s e m).toNat =
      s.toBitVec.toNat * 2 ^ 63 + e.toNat * 2 ^ 52 + m.toNat := by
  have happend {v w : Nat} (x : BitVec v) (y : BitVec w) :
      (x ++ y).toNat = x.toNat * 2 ^ w + y.toNat := by
    rw [BitVec.toNat_append, ← Nat.shiftLeft_add_eq_or_of_lt y.isLt, Nat.shiftLeft_eq]
  change (s.toBitVec ++ e ++ m).toNat = _
  rw [happend, happend]
  ring

theorem totalKey_packComponents {x : Float} {s : Sign} {e : BitVec 11} {m : BitVec 52}
    (h : x.toBits.toBitVec = packComponents Format.binary64 s e m) :
    totalKey x = signedKey s (e.toNat * 2 ^ 52 + m.toNat) := by
  have hbits : x.toBits.toNat = s.toBitVec.toNat * 2 ^ 63 + e.toNat * 2 ^ 52 + m.toNat :=
    (congrArg BitVec.toNat h).trans (toNat_packComponents s e m)
  have he := e.isLt
  have hm := m.isLt
  unfold totalKey signedKey Text.halfWord64
  cases s with
  | positive =>
      have hsign : Sign.positive.toBitVec.toNat = 0 := rfl
      rw [hsign] at hbits
      dsimp only
      rw [if_pos (by omega)]
      omega
  | negative =>
      have hsign : Sign.negative.toBitVec.toNat = 1 := rfl
      rw [hsign] at hbits
      dsimp only
      rw [if_neg (by omega)]
      omega

theorem totalKey_eq {x : Float} {k : Int} (h : unpackedKey? x.toModel.unpack = some k) :
    totalKey x = k := by
  have hpack :=
    @packComponents_unpackSign_unpackExponent_unpackMantissa Format.binary64 x.toBits.toBitVec
  rw [totalKey_packComponents hpack.symm]
  change unpackedKey? (UnpackedFloat.unpack Format.binary64 x.toBits.toBitVec) = some k at h
  generalize x.toBits.toBitVec = b at h
  have hbias : (Format.binary64.exponentBias : Int) = 1023 := rfl
  have hwidth : (Format.binary64.mantissaBitsWithoutImplicit : Int) = 52 := rfl
  unfold UnpackedFloat.unpack at h
  dsimp only at h
  rw [hbias, hwidth] at h
  split at h
  next hlast =>
    split at h
    next hzero =>
      rw [hlast, hzero]
      exact Option.some.inj h
    next => cases h
  next =>
    split at h
    next hfirst =>
      split at h
      next hzero =>
        rw [hfirst, hzero]
        exact Option.some.inj h
      next =>
        rw [← Option.some.inj h, hfirst, BitVec.toNat_zero]
        refine congrArg _ ?_
        omega
    next hfirst =>
      have hpos : (@unpackExponent Format.binary64 b).toNat ≠ 0 := fun hzero =>
        hfirst (BitVec.eq_of_toNat_eq hzero)
      rw [← Option.some.inj h, toNat_one_append]
      refine congrArg _ ?_
      omega

theorem position_lt {m n : Nat} {e f : Int} (hm : IsCanonical m e) (hn : IsCanonical n f)
    (h : (compare e f).then (compare m n) = .lt) :
    (e + 1074).toNat * 2 ^ 52 + m < (f + 1074).toNat * 2 ^ 52 + n := by
  obtain ⟨hm53, he, -⟩ := hm
  obtain ⟨-, -, hnormal⟩ := hn
  rcases lt_trichotomy e f with hef | rfl | hef
  · have hn52 : 2 ^ 52 ≤ n := by omega
    omega
  · rw [compare_eq_iff_eq.2 rfl, Ordering.eq_then, compare_lt_iff_lt] at h
    omega
  · rw [compare_gt_iff_gt.2 hef] at h
    cases h

theorem position_lt_infinity {m : Nat} {e : Int} (h : IsCanonical m e ∧ e ≤ 971) :
    (e + 1074).toNat * 2 ^ 52 + m < 2047 * 2 ^ 52 := by
  have := h.1.1
  have := h.1.2.1
  omega

theorem unpackedKey?_lt_infinity {s : Sign} {u : UnpackedFloat} (hu : IsStored u)
    (h : u.compare (.infinity s) = some .lt) :
    ∃ k, unpackedKey? u = some k ∧ k < signedKey s (2047 * 2 ^ 52) := by
  cases u with
  | notANumber => cases h
  | infinity s' =>
      refine ⟨_, rfl, ?_⟩
      cases s' with
      | positive => cases s <;> cases h
      | negative =>
          cases s with
          | positive => decide
          | negative => cases h
  | zero s' =>
      refine ⟨_, rfl, ?_⟩
      cases s with
      | positive => cases s' <;> decide
      | negative => cases h
  | finite s' m e hm =>
      have hbelow := position_lt_infinity hu
      refine ⟨_, rfl, ?_⟩
      cases s with
      | positive => cases s' <;> simp only [signedKey] <;> omega
      | negative => cases s' <;> cases h

theorem unpackedKey?_lt_zero {s : Sign} {u : UnpackedFloat} (h : u.compare (.zero s) = some .lt) :
    ∃ k, unpackedKey? u = some k ∧ k < signedKey s 0 := by
  cases u with
  | notANumber => cases h
  | infinity s' =>
      refine ⟨_, rfl, ?_⟩
      cases s' with
      | positive => cases h
      | negative => cases s <;> decide
  | zero s' => cases h
  | finite s' m e hm =>
      refine ⟨_, rfl, ?_⟩
      cases s' with
      | positive => cases h
      | negative => cases s <;> simp only [signedKey] <;> omega

theorem unpackedKey?_lt_finite {s : Sign} {n : Nat} {f : Int} {hn : 0 < n} {u : UnpackedFloat}
    (hu : IsStored u) (hv : IsStored (.finite s n f hn))
    (h : u.compare (.finite s n f hn) = some .lt) :
    ∃ k, unpackedKey? u = some k ∧ k < signedKey s ((f + 1074).toNat * 2 ^ 52 + n) := by
  cases u with
  | notANumber => cases h
  | infinity s' =>
      have hbelow := position_lt_infinity hv
      refine ⟨_, rfl, ?_⟩
      cases s' with
      | positive => cases h
      | negative => cases s <;> simp only [signedKey] <;> omega
  | zero s' =>
      refine ⟨_, rfl, ?_⟩
      cases s with
      | positive => cases s' <;> simp only [signedKey] <;> omega
      | negative => cases h
  | finite s' m e hm =>
      refine ⟨_, rfl, ?_⟩
      cases s' with
      | positive =>
          cases s with
          | positive =>
              have := position_lt hu.1 hv.1 (Option.some.inj h)
              simp only [signedKey]
              omega
          | negative => cases h
      | negative =>
          cases s with
          | positive =>
              simp only [signedKey]
              omega
          | negative =>
              have hswap : ((compare e f).then (compare m n)).swap = .lt := Option.some.inj h
              rw [Ordering.swap_then, ← Std.OrientedCmp.eq_swap, ← Std.OrientedCmp.eq_swap] at hswap
              have := position_lt hv.1 hu.1 hswap
              simp only [signedKey]
              omega

theorem unpackedKey?_lt {u v : UnpackedFloat} (hu : IsStored u) (hv : IsStored v)
    (h : u.compare v = some .lt) :
    ∃ k l, unpackedKey? u = some k ∧ unpackedKey? v = some l ∧ k < l := by
  cases v with
  | notANumber => cases u <;> cases h
  | infinity s =>
      obtain ⟨k, hk, hlt⟩ := unpackedKey?_lt_infinity hu h
      exact ⟨k, _, hk, rfl, hlt⟩
  | zero s =>
      obtain ⟨k, hk, hlt⟩ := unpackedKey?_lt_zero h
      exact ⟨k, _, hk, rfl, hlt⟩
  | finite s n f hn =>
      obtain ⟨k, hk, hlt⟩ := unpackedKey?_lt_finite hu hv h
      exact ⟨k, _, hk, rfl, hlt⟩

theorem totalKey_lt_of_lt {x y : Float} (h : x < y) : totalKey x < totalKey y := by
  change decide ((x.toModel.unpack.compare y.toModel.unpack == some .lt) = true) = true at h
  rw [decide_eq_true_iff, beq_iff_eq] at h
  obtain ⟨k, l, hk, hl, hlt⟩ := unpackedKey?_lt (isStored_unpack x) (isStored_unpack y) h
  rwa [totalKey_eq hk, totalKey_eq hl]

end FleetSizing.Binary64
