import FleetSizing.Config.Check
import FleetSizing.Proofs.Binary64.Accuracy
/-!
# Accepted configurations

A configuration passes its check when every setting is in its range.  All that this says of a
growth factor is that it exceeds one.
-/

namespace FleetSizing

open Binary64

section

variable {ε ε' α β : Type} {p : Prop} [Decidable p] {e : ε} {a : α} {b : β}

theorem bind_eq_ok_iff {x : Except ε α} {f : α → Except ε β} :
    x >>= f = .ok b ↔ ∃ a, x = .ok a ∧ f a = .ok b := by
  cases x with
  | error e => exact iff_of_false nofun fun ⟨a, ha, _⟩ => nomatch ha
  | ok a => exact ⟨fun h => ⟨a, rfl, h⟩, fun ⟨_, rfl, h⟩ => h⟩

theorem mapError_eq_ok_iff {x : Except ε α} {f : ε → ε'} : x.mapError f = .ok a ↔ x = .ok a := by
  cases x <;> simp [Except.mapError]

theorem guard_eq_ok_iff {x : Except ε α} :
    (if p then throw e else x) = .ok a ↔ ¬ p ∧ x = .ok a := by
  by_cases h : p
  · rw [if_pos h]
    exact iff_of_false nofun fun hx => hx.1 h
  · rw [if_neg h, and_iff_right h]

theorem guard_bind_eq_ok_iff {x : Except ε β} {f : α → Except ε β} :
    (if p then throw e >>= f else x) = .ok b ↔ ¬ p ∧ x = .ok b :=
  guard_eq_ok_iff

end

namespace GrowthBand

variable {band : GrowthBand}

structure IsAccepted (band : GrowthBand) : Prop where
  lower : isFraction band.lower = true
  upper : ∀ upper, band.upper = some upper → isFraction upper = true ∧ ¬ upper ≤ band.lower
  isNaN_factor : band.factor.isNaN = false
  not_factor_le : ¬ band.factor ≤ 1.0

theorem check_eq_ok_iff {i : Nat} : band.check i = .ok () ↔ band.IsAccepted := by
  have hlast : (if band.factor.isNaN || decide (band.factor ≤ 1.0) then
      throw (.factor i band.factor) else pure () : Except Defect Unit) = .ok () ↔
        band.factor.isNaN = false ∧ ¬ band.factor ≤ 1.0 := by
    rw [guard_eq_ok_iff, Bool.not_eq_true, Bool.or_eq_false_iff, decide_eq_false_iff_not]
    exact and_iff_left rfl
  unfold check
  rw [guard_bind_eq_ok_iff, Bool.not_eq_true, Bool.not_eq_false']
  cases hupper : band.upper with
  | none =>
      dsimp only
      rw [hlast]
      constructor
      · rintro ⟨hlower, hnan, hle⟩
        refine ⟨hlower, fun upper h => ?_, hnan, hle⟩
        cases hupper.symm.trans h
      · exact fun h => ⟨h.lower, h.isNaN_factor, h.not_factor_le⟩
  | some upper =>
      dsimp only
      rw [guard_bind_eq_ok_iff, guard_bind_eq_ok_iff, hlast, Bool.not_eq_true, Bool.not_eq_false']
      constructor
      · rintro ⟨hlower, hfraction, hbelow, hnan, hle⟩
        refine ⟨hlower, fun upper' h => ?_, hnan, hle⟩
        obtain rfl := Option.some.inj (hupper.symm.trans h)
        exact ⟨hfraction, hbelow⟩
      · intro h
        obtain ⟨hfraction, hbelow⟩ := h.upper upper hupper
        exact ⟨h.lower, hfraction, hbelow, h.isNaN_factor, h.not_factor_le⟩

theorem checkFrom_eq_ok_iff {i : Nat} {bands : List GrowthBand} :
    checkFrom i bands = .ok () ↔ ∀ band ∈ bands, band.IsAccepted := by
  induction bands generalizing i with
  | nil => exact iff_of_true rfl fun band hband => nomatch hband
  | cons band bands ih =>
      unfold checkFrom
      rw [bind_eq_ok_iff, List.forall_mem_cons, ← check_eq_ok_iff (i := i), ← ih (i := i + 1)]
      exact ⟨fun ⟨_, hband, hbands⟩ => ⟨hband, hbands⟩, fun ⟨hband, hbands⟩ => ⟨_, hband, hbands⟩⟩

theorem IsAccepted.exceeds_one (h : band.IsAccepted) : Exceeds band.factor 1 := by
  have hvalue {q : ℚ} (hx : value? band.factor = some q) : Exceeds band.factor 1 := by
    have hle := h.not_factor_le
    rw [le_iff_value hx value?_one] at hle
    exact Or.inr ⟨q, hx, not_le.1 hle⟩
  have hnan : band.factor.toModel.unpack.isNaN = false := h.isNaN_factor
  have hle : ¬ decide (band.factor.toModel.unpack.le (Float.toModel 1.0).unpack = true) = true :=
    h.not_factor_le
  cases hu : band.factor.toModel.unpack with
  | zero s => exact hvalue (by rw [value?, hu, unpackedValue?])
  | finite s m e hm => exact hvalue (by rw [value?, hu, unpackedValue?])
  | notANumber =>
      rw [hu] at hnan
      cases hnan
  | infinity s =>
      cases s with
      | positive => exact Or.inl hu
      | negative =>
          rw [hu] at hle
          exact absurd (by rfl) hle

end GrowthBand

namespace Config

variable {c : Config} {tick window : Nat}

/-- The durations of a configuration are read, and all its settings are in their ranges. -/
structure IsAccepted (c : Config) (tick window : Nat) : Prop where
  tickSeconds : c.tickSeconds = .ok tick
  windowSeconds : c.windowSeconds = .ok window
  tick_pos : 0 < tick
  tick_le : tick ≤ window
  grace_pos : 0 < c.idleGraceTicks
  threshold : isFraction c.destroyThreshold = true
  bands : ∀ band ∈ c.growthBands, band.IsAccepted

theorem validate_eq_ok_iff : c.validate = .ok () ↔ ∃ tick window, c.IsAccepted tick window := by
  unfold validate checkValues
  simp only [bind_eq_ok_iff, guard_bind_eq_ok_iff, mapError_eq_ok_iff,
    GrowthBand.checkFrom_eq_ok_iff, Bool.not_eq_true, Bool.not_eq_false']
  constructor
  · rintro ⟨tick, htick, hpos, window, hwindow, hle, hgrace, hthreshold, hbands⟩
    exact ⟨tick, window, htick, hwindow, Nat.pos_of_ne_zero hpos, not_lt.1 hle,
      Nat.pos_of_ne_zero hgrace, hthreshold, hbands⟩
  · rintro ⟨tick, window, h⟩
    exact ⟨tick, h.tickSeconds, h.tick_pos.ne', window, h.windowSeconds, not_lt.2 h.tick_le,
      h.grace_pos.ne', h.threshold, h.bands⟩

theorem IsAccepted.exceeds_one (h : c.IsAccepted tick window) {average factor : Float}
    (hfactor : c.growthFactor average = some factor) : Exceeds factor 1 := by
  obtain ⟨band, hband, rfl⟩ := Option.map_eq_some_iff.1 hfactor
  exact (h.bands band (List.mem_of_find?_eq_some hband)).exceeds_one

end Config

end FleetSizing
