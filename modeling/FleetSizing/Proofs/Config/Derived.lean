import FleetSizing.Command.Exit
import FleetSizing.Proofs.Config.Acceptance
/-!
# Figures derived from a configuration

An accepted configuration has a tick of at least one second and a window no shorter than a
tick, so that the length of the window in ticks can be told.  The grace period can be told
only if its seconds fit 64 bits, which no check asks for: at a longer one the command that
shows the figures of a configuration panics, after it has called the configuration valid.
-/

namespace FleetSizing

theorem fromUTF8?_toUTF8 (text : String) : String.fromUTF8? text.toUTF8 = some text :=
  dif_pos text.isValidUTF8

namespace Config

variable {c : Config} {tick window : Nat}

theorem IsAccepted.one_le_div (h : c.IsAccepted tick window) : 1 ≤ window / tick :=
  (Nat.one_le_div_iff h.tick_pos).2 h.tick_le

theorem IsAccepted.windowTicks_eq (h : c.IsAccepted tick window) :
    c.windowTicks = .ok (window / tick % Text.word32) := by
  unfold windowTicks
  rw [h.tickSeconds, h.windowSeconds]
  simp only [bind, Except.bind, if_neg h.tick_pos.ne', pure, Except.pure]
  rw [max_eq_left h.one_le_div]

theorem graceSeconds_eq (h : c.tickSeconds = .ok tick) :
    c.graceSeconds = if tick * c.idleGraceTicks < Text.word64 then .ok (tick * c.idleGraceTicks)
      else .error .graceOverflow := by
  unfold graceSeconds
  rw [h]
  rfl

variable {files : Command.Files} {path text : String}

theorem validate_of_ofText (h : ofText text = .ok c) : c.validate = .ok () := by
  unfold ofText at h
  split at h
  next => cases h
  next c' hread =>
    obtain ⟨_, hvalid, hc⟩ := bind_eq_ok_iff.1 h
    obtain rfl : c' = c := Except.ok.inj hc
    exact hvalid

theorem loadConfig_eq (hfile : files path = some text.toUTF8) (h : ofText text = .ok c) :
    Command.loadConfig files (some path) = .ok c := by
  have hread : ofFile (files path) = .ok c := by
    unfold ofFile
    rw [hfile, Option.bind_eq_bind, Option.bind_some, fromUTF8?_toUTF8]
    exact h
  show (ofFile (files path)).mapError _ = .ok c
  rw [mapError_eq_ok_iff]
  exact hread

def inspection (c : Config) (path : String) (tick window : Nat) : Command.Exit :=
  if tick * c.idleGraceTicks < Text.word64 then
    { code := 0
      stdout := Command.validLine path ++
        Command.timesLine c (tick * c.idleGraceTicks) (window / tick % Text.word32) ++ c.toText }
  else
    { code := 101, stdout := Command.validLine path }

theorem IsAccepted.inspect_eq (h : c.IsAccepted tick window)
    (hload : Command.loadConfig files (some path) = .ok c) :
    Command.inspect files path = .ok (c.inspection path tick window) := by
  unfold Command.inspect inspection
  rw [hload]
  have hgrace := graceSeconds_eq h.tickSeconds
  by_cases hfits : tick * c.idleGraceTicks < Text.word64
  · rw [if_pos hfits] at hgrace ⊢
    simp only [bind, Except.bind, hgrace, h.windowTicks_eq]
    rfl
  · rw [if_neg hfits] at hgrace ⊢
    simp only [bind, Except.bind, hgrace]
    rfl

/-- All figures of an accepted configuration can be told, its grace period exactly if the
seconds fit 64 bits.  The command that checks a configuration in a file ends well in this
case, and in no other. -/
theorem derived_figures (c : Config) :
    (c.validate = .ok () → ∃ tick window, c.tickSeconds = .ok tick ∧
      c.windowSeconds = .ok window ∧ 1 ≤ tick ∧ tick ≤ window ∧
      c.windowTicks = .ok (window / tick % Text.word32) ∧
      c.graceSeconds =
        if tick * c.idleGraceTicks < Text.word64 then .ok (tick * c.idleGraceTicks)
        else .error .graceOverflow) ∧
    ∀ (files : Command.Files) (path text : String),
      files path = some text.toUTF8 → ofText text = .ok c →
        ∃ tick window, c.tickSeconds = .ok tick ∧ c.windowSeconds = .ok window ∧
          Command.inspect files path = .ok (c.inspection path tick window) ∧
          ((c.inspection path tick window).code = 0 ↔ tick * c.idleGraceTicks < Text.word64) := by
  constructor
  · intro hc
    obtain ⟨tick, window, h⟩ := validate_eq_ok_iff.1 hc
    exact ⟨tick, window, h.tickSeconds, h.windowSeconds, h.tick_pos, h.tick_le,
      h.windowTicks_eq, graceSeconds_eq h.tickSeconds⟩
  · intro files path text hfile htext
    obtain ⟨tick, window, h⟩ := validate_eq_ok_iff.1 (validate_of_ofText htext)
    refine ⟨tick, window, h.tickSeconds, h.windowSeconds,
      h.inspect_eq (loadConfig_eq hfile htext), ?_⟩
    unfold inspection
    by_cases hfits : tick * c.idleGraceTicks < Text.word64
    · rw [if_pos hfits]
      exact iff_of_true rfl hfits
    · rw [if_neg hfits]
      exact iff_of_false nofun hfits

/-- Ticks of as many hours as the default number of them can be waited for. -/
def patient : Config where
  tickInterval := "170803185867681h"
  utilizationWindow := "170803185867681h"

def patientText : String :=
  "tick_interval = \"170803185867681h\"\nutilization_window = \"170803185867681h\"\n"

theorem derived_figures_patient :
    patient.validate = .ok () ∧ ofText patientText = .ok patient ∧
    patient.graceSeconds = .ok 18446744073709548000 ∧
    ∃ e, Command.inspect (fun _ => some patientText.toUTF8) "c.toml" = .ok e ∧ e.code = 0 := by
  have hc : patient.validate = .ok () := by decide +kernel
  have htext : ofText patientText = .ok patient := by decide +kernel
  have htick : patient.tickSeconds = .ok 614891469123651600 := by decide +kernel
  obtain ⟨hfigures, hcommand⟩ := derived_figures patient
  refine ⟨hc, htext, ?_, ?_⟩
  · obtain ⟨tick, window, htick', -, -, -, -, hgrace⟩ := hfigures hc
    obtain rfl : 614891469123651600 = tick := Except.ok.inj (htick.symm.trans htick')
    exact hgrace
  · obtain ⟨tick, window, htick', -, hinspect, hcode⟩ :=
      hcommand (fun _ => some patientText.toUTF8) "c.toml" patientText rfl htext
    obtain rfl : 614891469123651600 = tick := Except.ok.inj (htick.symm.trans htick')
    exact ⟨_, hinspect, hcode.2 (by decide)⟩

/-- Two ticks of `2 ^ 63` seconds are waited for. -/
def overlong : Config where
  tickInterval := "9223372036854775808s"
  idleGraceTicks := 2
  utilizationWindow := "9223372036854775808s"

def overlongText : String :=
  "tick_interval = \"9223372036854775808s\"\nidle_grace_ticks = 2\n" ++
    "utilization_window = \"9223372036854775808s\"\n"

/-- A configuration is accepted, but its grace period cannot be told, and the command that
checks it panics. -/
theorem grace_overflows :
    overlong.validate = .ok () ∧ ofText overlongText = .ok overlong ∧
    overlong.graceSeconds = .error .graceOverflow ∧
    Command.inspect (fun _ => some overlongText.toUTF8) "c.toml" =
      .ok { code := 101, stdout := Command.validLine "c.toml" } := by
  have htext : ofText overlongText = .ok overlong := by decide +kernel
  have hc : overlong.validate = .ok () := validate_of_ofText htext
  obtain ⟨tick, window, h⟩ := validate_eq_ok_iff.1 hc
  have htick : overlong.tickSeconds = .ok 9223372036854775808 := by decide +kernel
  obtain rfl : 9223372036854775808 = tick := Except.ok.inj (htick.symm.trans h.tickSeconds)
  refine ⟨hc, htext, graceSeconds_eq htick, ?_⟩
  exact h.inspect_eq (loadConfig_eq rfl htext)

end Config

end FleetSizing
