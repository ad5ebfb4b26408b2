import FleetSizing.Proofs.SimulatedFleet.Kinds
import FleetSizing.Proofs.SimulatedFleet.Sessions
/-!
# Scaling down while work waits

An instance counts as idle when no job is in flight at the end of a tick.  Where jobs still
wait, this happens only to an instance whose last job ended with the last second of the tick.
Such an instance may be given up although it has worked all the time.
-/

namespace FleetSizing

open SimulatedFleet

theorem completed_serve_pos {budget : Nat} {jobs : List Nat}
    (hrunning : (serve budget jobs).1.running = none) (hused : 0 < (serve budget jobs).1.used) :
    0 < (serve budget jobs).1.completed := by
  fun_induction serve budget jobs with
  | case1 budget => exact absurd hused (Nat.lt_irrefl _)
  | case2 job jobs => exact absurd hused (Nat.lt_irrefl _)
  | case3 budget job jobs hbudget hjob => cases hrunning
  | case4 budget job jobs hbudget hjob turn left heq ih => exact Nat.succ_pos _

theorem left_serve_toList {budget : Nat} (hbudget : 0 < budget) (running : Option Nat) :
    (serve budget running.toList).2 = [] := by
  cases running with
  | none => rfl
  | some job =>
      rw [Option.toList_some, serve, if_neg (Nat.pos_iff_ne_zero.1 hbudget)]
      split
      · rfl
      · rfl

theorem left_turns_nil {seconds : Nat} (hseconds : 0 < seconds) (instances : List Instance) :
    (turns seconds instances []).2 = [] := by
  induction instances with
  | nil => rfl
  | cons i instances ih =>
      have hleft : (i.turn seconds []).2 = [] := by
        rw [Instance.turn, List.append_nil]
        exact left_serve_toList hseconds i.running
      change (turns seconds instances (i.turn seconds []).2).2 = []
      rw [hleft, ih]

/-- The last job of a turn ends with the last second of the tick. -/
structure Turn.EndsWithTick (seconds : Nat) (t : Turn) : Prop where
  running : t.running = none
  used : t.used = seconds
  completed : 0 < t.completed

theorem idle_of_mem_turns {seconds : Nat} (hseconds : 0 < seconds) {instances : List Instance}
    {backlog : List Nat} {t : Turn} (ht : t ∈ (turns seconds instances backlog).1)
    (hused : t.used < seconds) : t.running = none ∧ (turns seconds instances backlog).2 = [] := by
  induction instances generalizing backlog with
  | nil => cases ht
  | cons i instances ih =>
      change _ ∧ (turns seconds instances (i.turn seconds backlog).2).2 = []
      rcases List.mem_cons.1 ht with rfl | ht
      · obtain ⟨hrunning, hleft⟩ := left_serve_of_used_lt hused
        change (i.turn seconds backlog).2 = [] at hleft
        rw [hleft]
        exact ⟨hrunning, left_turns_nil hseconds instances⟩
      · exact ih ht

theorem completed_pos_of_mem_turns {seconds : Nat} {instances : List Instance}
    {backlog : List Nat} {t : Turn} (ht : t ∈ (turns seconds instances backlog).1)
    (hrunning : t.running = none) (hused : 0 < t.used) : 0 < t.completed := by
  induction instances generalizing backlog with
  | nil => cases ht
  | cons i instances ih =>
      rcases List.mem_cons.1 ht with rfl | ht
      · exact completed_serve_pos hrunning hused
      · exact ih ht

/-- While work waits, no instance is free before the end of the tick. -/
theorem endsWithTick_of_mem_turns {seconds : Nat} (hseconds : 0 < seconds)
    {instances : List Instance} {backlog : List Nat}
    (hleft : (turns seconds instances backlog).2 ≠ []) {t : Turn}
    (ht : t ∈ (turns seconds instances backlog).1) (hrunning : t.running = none) :
    t.EndsWithTick seconds := by
  have hused : t.used = seconds := by
    refine Nat.le_antisymm (used_le_of_mem_turns ht) (Nat.not_lt.1 fun hlt => ?_)
    exact hleft (idle_of_mem_turns hseconds ht hlt).2
  have hpos : 0 < t.used := hused ▸ hseconds
  exact ⟨hrunning, hused, completed_pos_of_mem_turns ht hrunning hpos⟩

namespace Pool

variable {p : Pool} {seconds : Nat}

theorem endsWithTick_iff (hseconds : 0 < seconds) (hwaiting : (p.work seconds).backlog ≠ [])
    {e : Instance × Turn} (he : e ∈ p.workload seconds) :
    (e.1.after seconds e.2).isBusy = false ↔ e.2.EndsWithTick seconds := by
  change e.2.running.isSome = false ↔ _
  rw [Option.isSome_eq_false_iff, Option.isNone_iff_eq_none]
  exact ⟨endsWithTick_of_mem_turns hseconds hwaiting (List.of_mem_zip he).2, fun h => h.running⟩

theorem snapshots_work (p : Pool) (seconds : Nat) :
    (p.work seconds).snapshots = (p.workload seconds).map fun e =>
      { id := e.1.id, busy := (e.1.after seconds e.2).isBusy
        utilization := (e.1.after seconds e.2).window.average } := by
  rw [snapshots, instances_work, List.map_map]
  rfl

theorem length_workload (p : Pool) (seconds : Nat) : (p.workload seconds).length = p.size := by
  rw [size, ← p.map_fst_workload seconds, List.length_map]

/-- While work waits, a pool is scaled down only for instances whose last job has ended with
the tick: for a sole one at the end of the grace period, and for one of low utilization that
has company. -/
theorem exists_destroy_iff (hseconds : 0 < seconds) (hwaiting : (p.work seconds).backlog ≠ [])
    (c : Config) (t : IdleTracker) (kind : Kind) :
    (∃ id, .destroy kind id ∈ (c.evaluate t kind (p.work seconds).snapshots).2.actions) ↔
      ∃ e ∈ p.workload seconds, e.2.EndsWithTick seconds ∧
        ((p.size = 1 ∧ c.idleGraceTicks ≤ t.next e.1.id) ∨
          (2 ≤ p.size ∧ (e.1.after seconds e.2).window.average < c.destroyThreshold)) := by
  rw [Config.exists_destroy_iff, snapshots_work, List.length_map, length_workload]
  constructor
  · rintro (⟨s, hs, hidle, hgrace⟩ | ⟨hsize, s, hs, hspare⟩)
    · obtain ⟨e, he, rfl⟩ := List.map_eq_singleton_iff.1 hs
      have hmem : e ∈ p.workload seconds := he ▸ List.mem_singleton_self e
      have hsize : p.size = 1 := by rw [← length_workload p seconds, he, List.length_singleton]
      exact ⟨e, hmem, (endsWithTick_iff hseconds hwaiting hmem).1 hidle, Or.inl ⟨hsize, hgrace⟩⟩
    · obtain ⟨e, he, rfl⟩ := List.mem_map.1 hs
      have hidle := Config.busy_of_isSpare hspare
      rw [Config.isSpare, Bool.and_eq_true, decide_eq_true_iff] at hspare
      exact ⟨e, he, (endsWithTick_iff hseconds hwaiting he).1 hidle, Or.inr ⟨hsize, hspare.2⟩⟩
  · rintro ⟨e, he, hends, ⟨hsize, hgrace⟩ | ⟨hsize, haverage⟩⟩
    · have hidle := (endsWithTick_iff hseconds hwaiting he).2 hends
      obtain ⟨e', he'⟩ := List.length_eq_one_iff.1 ((length_workload p seconds).trans hsize)
      obtain rfl : e = e' := List.mem_singleton.1 (he' ▸ he)
      exact Or.inl ⟨_, List.map_eq_singleton_iff.2 ⟨e, he', rfl⟩, hidle, hgrace⟩
    · have hidle := (endsWithTick_iff hseconds hwaiting he).2 hends
      refine Or.inr ⟨hsize, _, List.mem_map.2 ⟨e, he, rfl⟩, ?_⟩
      rw [Config.isSpare, Bool.and_eq_true, decide_eq_true_iff, hidle]
      exact ⟨rfl, haverage⟩

end Pool

namespace SimulatedFleet

open Scaler

variable {f : SimulatedFleet} {kind : Kind} {p : Pool}

theorem IsSound.exists_destroy_iff (hf : f.IsSound) {s : Scaler} {now : Nat} {r : TickReport}
    (hr : (s.tick f now).result = .ok r) (hp : f.advance.pools.get? kind = some p) :
    (∃ d ∈ r.decisions, ∃ id, .destroy kind id ∈ d.actions) ↔
      ∃ id, .destroy kind id ∈ (s.config.evaluate s.idle kind p.snapshots).2.actions := by
  obtain ⟨r', hr', -, hdecisions⟩ := hf.tick s now
  obtain rfl : r = r' := Except.ok.inj (hr.symm.trans hr')
  rw [hdecisions]
  constructor
  · rintro ⟨d, hd, id, hid⟩
    obtain ⟨⟨kind', p'⟩, hentry, rfl⟩ := List.mem_map.1 hd
    have hkind : kind = kind' := by
      rcases Config.mem_actions hid with h | ⟨_, _, _, h⟩
      · cases h
      · exact (Action.destroy.inj h).1
    subst hkind
    obtain rfl : p = p' :=
      Option.some_inj.1 (hp.symm.trans (SortedMap.get?_eq_some_iff.2 hentry))
    exact ⟨id, hid⟩
  · rintro ⟨id, hid⟩
    exact ⟨_, List.mem_map.2 ⟨(kind, p), SortedMap.get?_eq_some_iff.1 hp, rfl⟩, id, hid⟩

end SimulatedFleet

/-- In every tick of every simulation, a kind with waiting work is scaled down exactly when
the last job of one of its instances has ended with the tick and that instance is a sole one
at the end of its grace period, or one of low utilization in a larger pool. -/
theorem scaled_down_while_waiting_iff (c : Config) (t : Trace) (hc : c.validate = .ok ())
    (ht : t.validate = .ok ()) (n : Nat) :
    ∃ s s' r, Simulation.new c t = .ok s ∧ s.run n = .ok s' ∧
      (s'.scaler.tick s'.fleet s'.now).result = .ok r ∧
      ∀ kind p, s'.fleet.atWork.pools.get? kind = some p →
        let seconds := s'.fleet.tickSeconds
        s'.fleet.advance.pools.get? kind = some (p.work seconds) ∧
        ((p.work seconds).backlog ≠ [] →
          ((∃ d ∈ r.decisions, ∃ id, .destroy kind id ∈ d.actions) ↔
            ∃ e ∈ p.workload seconds, e.2.EndsWithTick seconds ∧
              ((p.size = 1 ∧ c.idleGraceTicks ≤ s'.scaler.idle.next e.1.id) ∨
                (2 ≤ p.size ∧
                  (e.1.after seconds e.2).window.average < c.destroyThreshold)))) := by
  obtain ⟨s, hnew, hscaler, hs⟩ := Simulation.exists_new hc ht
  obtain ⟨s', hrun, hs', hconfig⟩ := Simulation.exists_run hs n
  obtain ⟨r, hr, -, -⟩ := hs'.tick s'.scaler s'.now
  have hc' : s'.scaler.config = c := by rw [hconfig, hscaler]
  refine ⟨s, s', r, hnew, hrun, hr, fun kind p hp => ?_⟩
  have hadvance := get?_advance hp
  refine ⟨hadvance, fun hwaiting => ?_⟩
  rw [hs'.exists_destroy_iff hr hadvance,
    Pool.exists_destroy_iff s'.fleet.tickSeconds_pos hwaiting, hc']

/-- Two jobs of the length of a tick. -/
def tightTrace : Trace := { jobs := [⟨"batch", 1, "2m", 2⟩] }

theorem tightTrace_second_tick : ∃ s s' r p,
    Simulation.new { idleGraceTicks := 1 } tightTrace = .ok s ∧ s.run 1 = .ok s' ∧
      (s'.scaler.tick s'.fleet s'.now).result = .ok r ∧
      s'.fleet.atWork.pools.get? "batch" = some p ∧
      (p.work s'.fleet.tickSeconds).backlog = [120] ∧ r.actions = [.destroy "batch" 1] := by
  have hrun : (do
      let s ← (Simulation.new { idleGraceTicks := 1 } tightTrace).toOption
      let s' ← (s.run 1).toOption
      let r ← (s'.scaler.tick s'.fleet s'.now).result.toOption
      let p ← s'.fleet.atWork.pools.get? "batch"
      return ((p.work s'.fleet.tickSeconds).backlog, r.actions)) =
        some ([120], [.destroy "batch" 1]) := by
    decide +kernel
  simp only [bind, Option.bind_eq_some_iff] at hrun
  obtain ⟨s, hs, s', hs', r, hr, p, hp, heq⟩ := hrun
  obtain ⟨hbacklog, hactions⟩ := Prod.mk.injEq .. ▸ Option.some_inj.1 heq
  exact ⟨s, s', r, p, eq_ok_of_toOption hs, eq_ok_of_toOption hs', eq_ok_of_toOption hr, hp,
    hbacklog, hactions⟩

theorem scaled_down_while_waiting_tight :
    Config.validate { idleGraceTicks := 1 } = .ok () ∧ tightTrace.validate = .ok () ∧
    ∃ s s' p, Simulation.new { idleGraceTicks := 1 } tightTrace = .ok s ∧ s.run 1 = .ok s' ∧
      s'.fleet.atWork.pools.get? "batch" = some p ∧
      (p.work s'.fleet.tickSeconds).backlog ≠ [] ∧
      ∃ e ∈ p.workload s'.fleet.tickSeconds, e.2.EndsWithTick s'.fleet.tickSeconds := by
  have hc : Config.validate { idleGraceTicks := 1 } = .ok () := by decide +kernel
  have ht : tightTrace.validate = .ok () := by decide +kernel
  obtain ⟨s, s', r, p, hs, hs', hr, hp, hbacklog, hactions⟩ := tightTrace_second_tick
  obtain ⟨s₁, s₁', r₁, h₁, h₁', hr₁, hiff⟩ :=
    scaled_down_while_waiting_iff { idleGraceTicks := 1 } tightTrace hc ht 1
  obtain rfl : s = s₁ := Except.ok.inj (hs.symm.trans h₁)
  obtain rfl : s' = s₁' := Except.ok.inj (hs'.symm.trans h₁')
  obtain rfl : r = r₁ := Except.ok.inj (hr.symm.trans hr₁)
  have hwaiting : (p.work s'.fleet.tickSeconds).backlog ≠ [] := hbacklog ▸ List.cons_ne_nil _ _
  have hdestroy : .destroy "batch" 1 ∈ r.actions := hactions ▸ List.mem_singleton_self _
  obtain ⟨d, hd, hid⟩ := List.mem_flatMap.1 hdestroy
  obtain ⟨e, he, hends, -⟩ := ((hiff "batch" p hp).2 hwaiting).1 ⟨d, hd, 1, hid⟩
  exact ⟨hc, ht, s, s', p, hs, hs', hp, hwaiting, e, he, hends⟩

/-- A sole instance that has worked all the time is retired while a job waits. -/
theorem retired_while_waiting :
    ¬ ∀ (c : Config) (t : Trace) (n : Nat) (s s' : Simulation) (r : TickReport) (kind : Kind)
      (p : Pool), c.validate = .ok () → t.validate = .ok () → Simulation.new c t = .ok s →
      s.run n = .ok s' → (s'.scaler.tick s'.fleet s'.now).result = .ok r →
      s'.fleet.advance.pools.get? kind = some p → p.backlog ≠ [] →
      ∀ id, .destroy kind id ∉ r.actions := by
  intro h
  obtain ⟨s, s', r, p, hs, hs', hr, hp, hbacklog, hactions⟩ := tightTrace_second_tick
  refine h { idleGraceTicks := 1 } tightTrace 1 s s' r "batch" (p.work s'.fleet.tickSeconds)
    (by decide +kernel) (by decide +kernel) hs hs' hr (get?_advance hp) ?_ 1 ?_
  · exact hbacklog ▸ List.cons_ne_nil _ _
  · exact hactions ▸ List.mem_singleton_self _

end FleetSizing
