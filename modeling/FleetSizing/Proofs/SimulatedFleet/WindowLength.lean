import FleetSizing.Proofs.Config.Derived
import FleetSizing.Proofs.SimulatedFleet.Shares
/-!
# The length of the utilization window

The utilization window has as many ticks as it has room for, so long as their number fits
32 bits.  A longer window is cut to the low 32 bits of that number.
-/

namespace FleetSizing

open SimulatedFleet

/-- An accepted configuration has a window of at least one tick.  What is kept of the number
of ticks are its low 32 bits, and the instances of a fleet average over that many ticks, but
over one if nothing is left.  This is the number of ticks exactly if it fits 32 bits. -/
theorem window_length (c : Config) (hc : c.validate = .ok ()) :
    ∃ tick window f₀, c.tickSeconds = .ok tick ∧ c.windowSeconds = .ok window ∧
      ofConfig c = .ok f₀ ∧ 1 ≤ window / tick ∧
      c.windowTicks = .ok (window / tick % Text.word32) ∧
      (c.windowTicks = .ok (window / tick) ↔ window / tick < Text.word32) ∧
      let length := max (window / tick % Text.word32) 1
      (length = window / tick ↔ window / tick < Text.word32) ∧
      ∀ cs id i, (f₀.changeAll cs).instance? id = some i →
        ∃ before kind after, cs = before ++ .request (.create kind) :: after ∧
          (f₀.changeAll before).lastId + 1 = id ∧
          let shares := (f₀.changeAll (before ++ [.request (.create kind)])).shares id after
          shares.length = after.countP Change.isSync ∧ i.window.capacity = length ∧
          (f₀.changeAll cs).utilization id =
            if shares.length = 0 then 0.0
            else total (shares.rtake length) / Float.ofNat (min shares.length length) := by
  obtain ⟨tick, window, haccepted⟩ := Config.validate_eq_ok_iff.1 hc
  obtain ⟨f₀, hf₀⟩ := exists_ofConfig hc
  obtain ⟨-, hkept, -⟩ := ofConfig_eq_ok hf₀
  have hone := haccepted.one_le_div
  have hticks := haccepted.windowTicks_eq
  have hwindow : f₀.windowTicks = window / tick % Text.word32 :=
    Except.ok.inj (hkept.symm.trans hticks)
  have hfits : window / tick % Text.word32 = window / tick ↔ window / tick < Text.word32 :=
    Nat.mod_eq_iff_lt (by decide)
  refine ⟨tick, window, f₀, haccepted.tickSeconds, haccepted.windowSeconds, hf₀, hone, hticks,
    ?_, ?_⟩
  · rw [hticks, Except.ok.injEq, hfits]
  · intro length
    refine ⟨?_, fun cs id i hi => ?_⟩
    · have hword : 1 < Text.word32 := by decide
      have hlt := Nat.mod_lt (window / tick) (Nat.zero_lt_of_lt hword)
      constructor
      · intro hlength
        omega
      · intro hfit
        have hsame := hfits.2 hfit
        omega
    · obtain ⟨before, kind, after, hcs, hlast, hcapacity, -, haverage⟩ := exists_history hf₀ hi
      rw [hwindow] at hcapacity haverage
      exact ⟨before, kind, after, hcs, hlast, length_shares _ id after, hcapacity, haverage⟩

theorem window_length_default : Config.validate {} = .ok () ∧
    ∃ f₀, ofConfig {} = .ok f₀ ∧ Config.windowTicks {} = .ok 30 ∧
      ∀ cs id i, (f₀.changeAll cs).instance? id = some i → i.window.capacity = 30 := by
  have hc : Config.validate {} = .ok () := by decide +kernel
  have htick : Config.tickSeconds {} = .ok 120 := by decide +kernel
  have hwindow : Config.windowSeconds {} = .ok 3600 := by decide +kernel
  obtain ⟨tick, window, f₀, htick', hwindow', hf₀, -, hticks, -, -, hinstances⟩ :=
    window_length {} hc
  obtain rfl : 120 = tick := Except.ok.inj (htick.symm.trans htick')
  obtain rfl : 3600 = window := Except.ok.inj (hwindow.symm.trans hwindow')
  refine ⟨hc, f₀, hf₀, hticks, fun cs id i hi => ?_⟩
  obtain ⟨_, _, _, -, -, -, hcapacity, -⟩ := hinstances cs id i hi
  exact hcapacity

/-- A window of `2 ^ 32` ticks is accepted, and nothing is left of it. -/
theorem windowTicks_wraps :
    ¬ ∀ (c : Config) (tick window : Nat), c.validate = .ok () → c.tickSeconds = .ok tick →
      c.windowSeconds = .ok window → c.windowTicks = .ok (window / tick) := by
  intro h
  let c : Config := { tickInterval := "1s", utilizationWindow := "4294967296s" }
  have hnone : c.windowTicks = .ok 0 := by decide +kernel
  have hall := h c 1 4294967296 (by decide +kernel) (by decide +kernel) (by decide +kernel)
  cases hnone.symm.trans hall

end FleetSizing
