import FleetSizing.Proofs.Metrics
import FleetSizing.Proofs.SimulatedFleet.Headcounts
import FleetSizing.Proofs.SimulatedFleet.Renaming
import FleetSizing.Proofs.SimulatedFleet.Schedule
import FleetSizing.Proofs.SimulatedFleet.Sessions
import Mathlib.Data.List.Sort
import Mathlib.Data.String.Basic
/-!
# The course of a simulation

Tick after tick, a simulation of a valid trace decides once for every kind of the trace and
for no other.  Each decision is made for the pool that the last tick has left, once the work
of this tick is done, and is carried out before the next tick.
-/

namespace FleetSizing

open Scaler SimulatedFleet

namespace Trace

theorem pairwise_insertKind {kind : Kind} {kinds : List Kind} (h : kinds.Pairwise (· < ·)) :
    (insertKind kind kinds).Pairwise (· < ·) := by
  induction kinds with
  | nil => exact List.pairwise_singleton ..
  | cons kind' kinds ih =>
      obtain ⟨hhead, htail⟩ := List.pairwise_cons.1 h
      unfold insertKind
      split
      next hlt =>
        refine List.pairwise_cons.2 ⟨fun k hk => ?_, h⟩
        rcases List.mem_cons.1 hk with rfl | hk
        · exact hlt
        · exact String.lt_trans hlt (hhead k hk)
      next hge =>
        split
        next => exact h
        next hne =>
          refine List.pairwise_cons.2 ⟨fun k hk => ?_, ih htail⟩
          rcases mem_insertKind_iff.1 hk with rfl | hk
          · exact lt_of_le_of_ne (not_lt.1 hge) (Ne.symm hne)
          · exact hhead k hk

theorem pairwise_allKinds (t : Trace) : t.allKinds.Pairwise (· < ·) := by
  unfold allKinds
  induction t.kinds ++ t.jobs.map (·.kind) with
  | nil => exact List.Pairwise.nil
  | cons kind kinds ih => exact pairwise_insertKind ih

end Trace

theorem SortedMap.keys_eq {β : Type} {m : SortedMap Kind β} {kinds : List Kind}
    (hkinds : kinds.Pairwise (· < ·)) (h : ∀ kind, kind ∈ m.keys ↔ kind ∈ kinds) :
    m.keys = kinds := by
  have hkeys : m.keys.Pairwise (· < ·) := m.pairwise_keys.imp compare_lt_iff_lt.1
  have hperm : m.keys.Perm kinds :=
    (List.perm_ext_iff_of_nodup m.nodup_keys (hkinds.imp LT.lt.ne)).2 h
  exact hperm.eq_of_pairwise (fun _ _ _ _ hab hba => absurd hba (lt_asymm hab)) hkeys hkinds

namespace TickReport

variable {r : TickReport} {kind : Kind} {d : Decision}

end TickReport

namespace Simulation

/-! ## Ticks -/

/-- The simulation after one more tick, if that succeeds. -/
def next (s : Simulation) : Simulation := s.step.toOption.getD s

/-- The simulation after `n` more ticks, as long as they succeed. -/
def after (s : Simulation) (n : Nat) : Simulation := next^[n] s

theorem after_succ (s : Simulation) (n : Nat) : s.after (n + 1) = (s.after n).next :=
  Function.iterate_succ_apply' ..

theorem next_eq {s : Simulation} {r : TickReport}
    (hr : (s.scaler.tick s.fleet s.now).result = .ok r) :
    s.next = { scaler := (s.scaler.tick s.fleet s.now).scaler
               fleet := (s.scaler.tick s.fleet s.now).fleet
               reports := s.reports.push r } := by
  rw [next, step_eq hr]
  rfl

theorem run_eq_after {s : Simulation} (hs : s.fleet.IsSound) (n : Nat) :
    s.run n = .ok (s.after n) := by
  induction n generalizing s with
  | zero => rfl
  | succ n ih =>
      obtain ⟨s', hstep, hs', -⟩ := exists_step hs
      have hnext : s.next = s' := by
        rw [next, hstep]
        rfl
      rw [run_succ hstep, ih hs', after, after, Function.iterate_succ_apply, hnext]

def poolRead (s : Simulation) (kind : Kind) : List Snapshot :=
  (s.fleet.advance.poolD kind).snapshots

def nextDecision (s : Simulation) (kind : Kind) : Decision :=
  (s.scaler.config.evaluate s.scaler.idle kind (s.poolRead kind)).2

def decisions (s : Simulation) (kind : Kind) : List Decision :=
  Metrics.decided s.reports.toList kind

def lastDecision (s : Simulation) (kind : Kind) : Option Decision :=
  s.reports.back?.bind (·.decisionFor kind)

def lastOutcome (s : Simulation) (kind : Kind) : Option Outcome :=
  (s.lastDecision kind).map (·.outcome)

theorem map_id_poolRead (s : Simulation) (kind : Kind) :
    (s.poolRead kind).map (·.id) = (s.fleet.poolD kind).ids := by
  rw [poolRead, Pool.map_id_snapshots, ids_poolD_advance]

theorem length_poolRead (s : Simulation) (kind : Kind) :
    (s.poolRead kind).length = (s.fleet.poolD kind).size := by
  rw [← Pool.length_ids, ← map_id_poolRead, List.length_map]

theorem poolSize_nextDecision (s : Simulation) (kind : Kind) :
    (s.nextDecision kind).poolSize = (s.fleet.poolD kind).size :=
  s.length_poolRead kind

theorem outcome_nextDecision_eq_coldStart_iff (s : Simulation) (kind : Kind) :
    (s.nextDecision kind).outcome = .coldStart ↔ (s.fleet.poolD kind).ids = [] := by
  rw [← map_id_poolRead, List.map_eq_nil_iff]
  exact Config.outcome_eq_coldStart_iff

/-! ## What holds after every tick -/

/-- What a simulation of the trace `t` under `c` has come to after `n` ticks. -/
structure HasCome (c : Config) (t : Trace) (n : Nat) (s : Simulation) : Prop where
  fleet : s.fleet.IsSound
  config : s.scaler.config = c
  tickSeconds : c.tickSeconds = .ok s.fleet.tickSeconds
  ticks : s.scaler.ticks = n
  tick : s.fleet.tick = n
  kinds : s.fleet.pools.keys = t.allKinds
  arrivals : ∀ a ∈ s.fleet.arrivals, ∃ job ∈ t.jobs, job.arrival = a
  headcount : ∀ kind, (s.fleet.poolD kind).headcount.IsSound

/-- A simulation starts without instances, work, reports and idle counts. -/
structure IsNew (c : Config) (t : Trace) (s : Simulation) : Prop extends HasCome c t 0 s where
  reports : s.reports = #[]
  idle : s.scaler.idle = {}
  pool : ∀ kind, s.fleet.poolD kind = {}

variable {c : Config} {t : Trace} {n : Nat} {s : Simulation} {kind : Kind}

theorem exists_new_isNew (hc : c.validate = .ok ()) (ht : t.validate = .ok ()) :
    ∃ s, new c t = .ok s ∧ s.IsNew c t := by
  obtain ⟨f, hf, hnew⟩ := exists_new_eq hc ht
  obtain ⟨htick, -, heq⟩ := ofConfig_eq_ok hf
  have hpools : f.pools = ∅ := congrArg pools heq
  have harrivals : f.arrivals = [] := congrArg SimulatedFleet.arrivals heq
  have habreast := isAbreast_load ht f
  rw [harrivals, List.append_nil] at habreast
  have hpool (kind : Kind) : (f.load t).1.poolD kind = {} := by
    rw [poolD_load, heq]
    rfl
  refine ⟨_, hnew, ⟨(isSound_ofConfig hf).load t, rfl, ?_, rfl, ?_, ?_, ?_, ?_⟩, rfl, rfl, hpool⟩
  · rw [htick, habreast.tickSeconds]
  · rw [habreast.tick]
    exact congrArg SimulatedFleet.tick heq
  · refine SortedMap.keys_eq t.pairwise_allKinds fun kind => ?_
    rw [mem_keys_load_iff, hpools]
    exact or_iff_right List.not_mem_nil
  · intro a ha
    rw [habreast.arrivals, (schedule_perm _).mem_iff] at ha
    exact List.mem_map.1 ha
  · intro kind
    rw [hpool]
    exact Headcount.isSound_empty

namespace HasCome

theorem keys_advance (h : s.HasCome c t n) : s.fleet.advance.pools.keys = t.allKinds := by
  refine SortedMap.keys_eq t.pairwise_allKinds fun kind => ?_
  rw [mem_keys_advance_iff, h.kinds, or_iff_left_iff_imp, List.mem_map]
  rintro ⟨a, ha, rfl⟩
  have hmem : a ∈ s.fleet.arrivals := (List.takeWhile_sublist _).subset ha
  obtain ⟨job, hjob, rfl⟩ := h.arrivals a hmem
  exact Trace.mem_allKinds_iff.2 (Or.inr (List.mem_map_of_mem hjob))

/-- The next tick succeeds, and reports its decision for each kind of the trace. -/
theorem exists_next (h : s.HasCome c t n) :
    ∃ r, (s.scaler.tick s.fleet s.now).result = .ok r ∧
      s.next = { scaler := (s.scaler.tick s.fleet s.now).scaler
                 fleet := (s.scaler.tick s.fleet s.now).fleet
                 reports := s.reports.push r } ∧
      r.tick = n + 1 ∧ r.now = (n + 1) * s.fleet.tickSeconds % Text.word64 ∧
      r.decisions.map (·.kind) = t.allKinds ∧
      ∀ kind ∈ t.allKinds, r.decisionFor kind = some (s.nextDecision kind) := by
  obtain ⟨r, hr, -⟩ := h.fleet.tick s.scaler s.now
  obtain ⟨visits, q, -, -, -, heq⟩ := tick_of_ok hr
  refine ⟨r, hr, next_eq hr, ?_, ?_, ?_, fun kind hkind => ?_⟩
  · rw [heq, h.ticks]
  · rw [heq, now, h.tick]
  · rw [map_kind_decisions hr]
    exact h.keys_advance
  · exact h.fleet.decisionFor_tick hr (h.keys_advance ▸ hkind)

theorem kindFor_summary (h : s.HasCome c t n) (hkind : kind ∈ t.allKinds) :
    s.summary.kindFor kind = some ((s.fleet.poolD kind).summary kind) := by
  obtain ⟨p, hp⟩ := Option.isSome_iff_exists.1 (SortedMap.mem_keys_iff.1 (h.kinds ▸ hkind))
  rw [summary, SimulatedFleet.kindFor_summary, poolD_of_get? hp, hp]
  rfl

theorem fleet_next (h : s.HasCome c t n) :
    s.next.fleet = (s.scaler.tick s.fleet s.now).fleet := by
  obtain ⟨r, -, hnext, -⟩ := h.exists_next
  rw [hnext]

protected theorem next (h : s.HasCome c t n) : s.next.HasCome c t (n + 1) := by
  obtain ⟨r, -, hnext, -⟩ := h.exists_next
  obtain ⟨-, -, hfleet, -⟩ := h.fleet.tick s.scaler s.now
  have habreast := (isAbreast_advance s.fleet).trans (isAbreast_tick h.fleet s.scaler s.now)
  have hheadcount := h.fleet.isSound_headcount_tick h.headcount s.scaler s.now
  rw [hnext]
  refine ⟨hfleet, h.config, ?_, ?_, ?_, ?_, fun a ha => ?_, hheadcount⟩
  · rw [habreast.tickSeconds]
    exact h.tickSeconds
  · exact congrArg (· + 1) h.ticks
  · rw [habreast.tick]
    exact congrArg (· + 1) h.tick
  · refine SortedMap.keys_eq t.pairwise_allKinds fun kind => ?_
    rw [mem_keys_tick_iff h.fleet, h.keys_advance]
  · rw [habreast.arrivals] at ha
    exact h.arrivals a ((List.dropWhile_sublist _).subset ha)

theorem after (h : s.HasCome c t 0) (n : Nat) : (s.after n).HasCome c t n := by
  induction n with
  | zero => exact h
  | succ n ih =>
      rw [after_succ]
      exact ih.next

theorem lastId_le_next (h : s.HasCome c t n) : s.fleet.lastId ≤ s.next.fleet.lastId := by
  rw [h.fleet_next]
  exact lastId_le_tick h.fleet ..

section

variable (h : s.HasCome c t n) (hkind : kind ∈ t.allKinds)

include h hkind

theorem lastDecision_next : s.next.lastDecision kind = some (s.nextDecision kind) := by
  obtain ⟨r, -, hnext, -, -, -, hdecision⟩ := h.exists_next
  rw [hnext, lastDecision, Array.back?_push]
  exact hdecision kind hkind

theorem lastOutcome_next :
    s.next.lastOutcome kind = some (s.nextDecision kind).outcome := by
  rw [lastOutcome, h.lastDecision_next hkind]
  rfl

theorem headcount_next :
    (s.next.fleet.poolD kind).headcount =
      (s.fleet.poolD kind).headcount.after (s.nextDecision kind) := by
  rw [h.fleet_next]
  exact h.fleet.headcount_poolD_tick s.scaler s.now (h.keys_advance ▸ hkind)
    (h.headcount kind).size_le_peak

theorem size_next :
    (s.next.fleet.poolD kind).size = (s.nextDecision kind).resultingPoolSize :=
  congrArg Headcount.size (h.headcount_next hkind)

theorem exists_poolD_next :
    ∃ last, s.fleet.lastId ≤ last ∧
      s.next.fleet.poolD kind = (Pool.applyAll s.fleet.windowTicks
        (s.fleet.advance.poolD kind, last) (s.nextDecision kind).actions).1 := by
  obtain ⟨last, hlast, hpool, -⟩ :=
    exists_poolD_tick h.fleet s.scaler s.now (h.keys_advance ▸ hkind)
  exact ⟨last, hlast, h.fleet_next ▸ hpool⟩

theorem get?_idle_next_iff {x : InstanceId} (hx : x ∈ (s.next.fleet.poolD kind).ids) (k : Nat) :
    s.next.scaler.idle.get? x = some k ↔
      idleSole? (s.poolRead kind) = some x ∧
        (s.nextDecision kind).outcome = .gracePeriod k := by
  obtain ⟨r, hr, hnext, -⟩ := h.exists_next
  have hidle : s.next.scaler.idle.get? x =
      (s.scaler.tick s.fleet s.now).scaler.idle.get? x := by
    rw [hnext]
  obtain ⟨last, hlast, hpool⟩ := h.exists_poolD_next hkind
  rw [hpool] at hx
  rw [hidle]
  rcases Pool.mem_ids_applyAll hx with hold | hnew
  · have hseen : x ∈ (s.scaler.tick s.fleet s.now).idleSoles ↔
        idleSole? (s.poolRead kind) = some x := h.fleet.mem_idleSoles_tick_iff_of_mem hold
    rw [get?_tick_of_ok hr, nextDecision, Config.outcome_eq_gracePeriod_iff]
    split
    next hmem =>
      rw [IdleTracker.kept_eq_some_iff, hseen.1 hmem]
      constructor
      · rintro ⟨rfl, hlt⟩
        exact ⟨rfl, x, rfl, rfl, hlt⟩
      · rintro ⟨-, y, hy, rfl, hlt⟩
        cases hy
        exact ⟨rfl, hlt⟩
    next hmem => exact iff_of_false nofun fun ⟨hsole, _⟩ => hmem (hseen.2 hsole)
  · -- A new instance has not been seen by the tick.
    rw [h.fleet.get?_idle_tick_of_lt (hlast.trans_lt hnew)]
    refine iff_of_false nofun fun ⟨hsole, _⟩ => ?_
    have hle := h.fleet.le_lastId_of_mem (s.map_id_poolRead kind ▸ mem_of_idleSole? hsole)
    exact absurd (hlast.trans_lt hnew) (Nat.not_lt.2 hle)

end

end HasCome

namespace IsNew

theorem monotone_lastId (h : s.IsNew c t) : Monotone fun n => (s.after n).fleet.lastId := by
  refine monotone_nat_of_le_succ fun n => ?_
  rw [after_succ]
  exact (h.toHasCome.after n).lastId_le_next

end IsNew

end Simulation

/-- Two jobs of one kind, and a kind that no job names. -/
def mixedTrace : Trace := { jobs := [⟨"web", 1, "3m", 2⟩], kinds := ["api"] }

end FleetSizing
