import FleetSizing.Proofs.Metrics
import Mathlib.Data.List.Induction
import Mathlib.Data.String.Basic
/-!
# Metrics as aggregates

Whatever reports are recorded, the metrics of a kind are aggregates of all decisions that were
made for it: sums, the last value, or the last value of some of the outcomes.  The order of
the reports matters to no sum, and reports without a decision for a kind do not matter to it.
-/

namespace FleetSizing

namespace Outcome

def average? : Outcome → Option Float
  | .grew average _ _ | .steady average => some average
  | .coldStart | .gracePeriod _ | .retired _ | .shrunk _ => none

def idleTicks : Outcome → Nat
  | .gracePeriod n => n
  | .coldStart | .retired _ | .shrunk _ | .grew .. | .steady _ => 0

end Outcome

/-- The metrics of a kind are the aggregates of its decisions, of which there are some. -/
structure KindMetrics.IsAggregate (m : KindMetrics) (ds : List Decision) : Prop where
  created : m.created = (ds.flatMap (·.actions)).countP Action.isCreate
  destroyed : m.destroyed = (ds.flatMap (·.actions)).countP Action.isDestroy
  retirements : m.retirements = ds.countP (·.outcome.isRetired)
  last : ∃ d, ds.getLast? = some d ∧ m.poolSize = d.resultingPoolSize ∧
    m.idleTicks = d.outcome.idleTicks
  average : m.average = ((ds.filterMap (·.outcome.average?)).getLast?).getD 0.0

namespace KindMetrics

variable {m : KindMetrics} {d : Decision}

theorem sumOf_countP (p : Action → Bool) (ds : List Decision) :
    sumOf (fun d => d.actions.countP p) ds = (ds.flatMap (·.actions)).countP p := by
  induction ds with
  | nil => rfl
  | cons d ds ih => rw [sumOf_cons, List.flatMap_cons, List.countP_append, ih]

theorem average_record : (m.record d).average = d.outcome.average?.getD m.average := by
  unfold record
  cases d.outcome <;> rfl

theorem idleTicks_record : (m.record d).idleTicks = d.outcome.idleTicks := by
  unfold record
  cases d.outcome <;> rfl

theorem average_recordAll (m : KindMetrics) (ds : List Decision) : (m.recordAll ds).average =
    ((ds.filterMap (·.outcome.average?)).getLast?).getD m.average := by
  induction ds using List.reverseRecOn with
  | nil => rfl
  | append_singleton ds d ih =>
      rw [recordAll_concat, average_record, ih, List.filterMap_append, List.getLast?_append]
      cases h : d.outcome.average? <;> simp [h]

theorem isAggregate_recordAll {ds : List Decision} (h : ds ≠ []) :
    (({} : KindMetrics).recordAll ds).IsAggregate ds where
  created := by
    rw [created_recordAll, Nat.zero_add]
    exact sumOf_countP _ ds
  destroyed := by
    rw [destroyed_recordAll, Nat.zero_add]
    exact sumOf_countP _ ds
  retirements := by rw [retirements_recordAll, Nat.zero_add]
  last := by
    obtain ⟨before, d, rfl⟩ := List.eq_nil_or_concat' ds |>.resolve_left h
    refine ⟨d, List.getLast?_concat, ?_, ?_⟩
    · rw [recordAll_concat]
      rfl
    · rw [recordAll_concat, idleTicks_record]
  average := average_recordAll _ ds

/-- The counters of a kind, which only ever grow. -/
def counters (m : KindMetrics) : Nat × Nat × Nat := (m.created, m.destroyed, m.retirements)

theorem counters_recordAll_perm {ds ds' : List Decision} (h : ds.Perm ds') (m : KindMetrics) :
    (m.recordAll ds).counters = (m.recordAll ds').counters := by
  unfold counters
  rw [created_recordAll, created_recordAll, sumOf_perm h, destroyed_recordAll,
    destroyed_recordAll, sumOf_perm h, retirements_recordAll, retirements_recordAll,
    h.countP_eq]

end KindMetrics

namespace Metrics

variable {reports reports' : List TickReport} {kind : Kind}

theorem decided_ne_nil_iff : decided reports kind ≠ [] ↔
    ∃ r ∈ reports, kind ∈ r.decisions.map (·.kind) := by
  have hmem (ds : List Decision) : ds.filter (·.kind = kind) ≠ [] ↔ kind ∈ ds.map (·.kind) := by
    simp [List.filter_eq_nil_iff]
  rw [decided, hmem, List.map_flatMap, List.mem_flatMap]

theorem mem_snapshot_iff {km : KindMetrics} : (kind, km) ∈ (ofReports reports).snapshot ↔
    decided reports kind ≠ [] ∧ ({} : KindMetrics).recordAll (decided reports kind) = km := by
  rw [decided_ne_nil_iff, ← mem_keys_ofReports_iff, ← kindD_ofReports]
  unfold snapshot
  rw [← SortedMap.get?_eq_some_iff]
  constructor
  · intro h
    have hkey : kind ∈ (ofReports reports).kinds.keys := by
      rw [SortedMap.mem_keys_iff, h]
      rfl
    exact ⟨hkey, Option.some.inj ((get?_of_mem_keys hkey).symm.trans h)⟩
  · rintro ⟨hkey, rfl⟩
    exact get?_of_mem_keys hkey

theorem pairwise_keys_snapshot (m : Metrics) : (m.snapshot.map (·.1)).Pairwise (· < ·) :=
  m.kinds.pairwise_keys.imp compare_lt_iff_lt.1

theorem decided_perm (h : reports.Perm reports') (kind : Kind) :
    (decided reports kind).Perm (decided reports' kind) :=
  (h.flatMap_right _).filter _

theorem decided_insert {before after : List TickReport} {r : TickReport}
    (h : ∀ d ∈ r.decisions, d.kind ≠ kind) :
    decided (before ++ r :: after) kind = decided (before ++ after) kind := by
  have hnone : r.decisions.filter (·.kind = kind) = [] := by
    simpa [List.filter_eq_nil_iff] using h
  have happend (rs rs' : List TickReport) :
      decided (rs ++ rs') kind = decided rs kind ++ decided rs' kind := by
    rw [decided, List.flatMap_append, List.filter_append]
    rfl
  rw [happend, happend, decided_cons, hnone, List.nil_append]

def counts (m : Metrics) : List (Kind × Nat × Nat × Nat) :=
  m.snapshot.map fun (kind, km) => (kind, km.counters)

theorem counts_perm (h : reports.Perm reports') :
    (ofReports reports).counts = (ofReports reports').counts := by
  have hmaps : (ofReports reports).kinds.map KindMetrics.counters =
      (ofReports reports').kinds.map KindMetrics.counters := by
    apply SortedMap.ext_get?
    intro kind
    rw [SortedMap.get?_map, SortedMap.get?_map]
    have hperm := decided_perm h kind
    apply Option.ext
    intro counters
    have hmap (rs : List TickReport) :
        ((ofReports rs).kinds.get? kind).map KindMetrics.counters = some counters ↔
          decided rs kind ≠ [] ∧
            (({} : KindMetrics).recordAll (decided rs kind)).counters = counters := by
      simp only [Option.map_eq_some_iff, SortedMap.get?_eq_some_iff]
      constructor
      · rintro ⟨km, hkm, rfl⟩
        obtain ⟨hne, rfl⟩ := mem_snapshot_iff.1 hkm
        exact ⟨hne, rfl⟩
      · rintro ⟨hne, rfl⟩
        exact ⟨_, mem_snapshot_iff.2 ⟨hne, rfl⟩, rfl⟩
    rw [hmap, hmap, KindMetrics.counters_recordAll_perm hperm, ne_eq, ne_eq,
      ← List.length_eq_zero_iff, ← List.length_eq_zero_iff, hperm.length_eq]
  exact congrArg SortedMap.toList hmaps

/-- Metrics are aggregates of the reports they were made from.  They list the kinds that were
decided for, in increasing order, each with the aggregates of its decisions.  Reports in
another order come to the same counts, and a report changes nothing for the kinds that it
does not mention, wherever it stands. -/
theorem metrics_aggregate_reports (reports : List TickReport) :
    (ofReports reports).ticks = reports.length ∧
    ((ofReports reports).snapshot.map (·.1)).Pairwise (· < ·) ∧
    (∀ kind, kind ∈ (ofReports reports).snapshot.map (·.1) ↔
      ∃ r ∈ reports, ∃ d ∈ r.decisions, d.kind = kind) ∧
    (∀ entry ∈ (ofReports reports).snapshot, entry.2.IsAggregate (decided reports entry.1)) ∧
    (∀ reports', reports.Perm reports' → (ofReports reports').ticks = (ofReports reports).ticks ∧
      (ofReports reports').counts = (ofReports reports).counts) ∧
    ∀ before after, reports = before ++ after → ∀ r kind, (∀ d ∈ r.decisions, d.kind ≠ kind) →
      ∀ km, (kind, km) ∈ (ofReports (before ++ r :: after)).snapshot ↔
        (kind, km) ∈ (ofReports reports).snapshot := by
  refine ⟨ticks_ofReports reports, pairwise_keys_snapshot _, fun kind => ?_, ?_, ?_, ?_⟩
  · have hkeys := mem_keys_ofReports_iff reports kind
    simp only [List.mem_map] at hkeys
    exact hkeys
  · rintro ⟨kind, km⟩ hentry
    obtain ⟨hne, rfl⟩ := mem_snapshot_iff.1 hentry
    exact KindMetrics.isAggregate_recordAll hne
  · intro reports' hperm
    rw [ticks_ofReports, ticks_ofReports, hperm.length_eq]
    exact ⟨rfl, (counts_perm hperm).symm⟩
  · rintro before after rfl r kind hr km
    rw [mem_snapshot_iff, mem_snapshot_iff, decided_insert hr]

def busyTick : TickReport where
  tick := 1
  now := 120
  decisions :=
    [⟨"web", 0, .coldStart, [.create "web"]⟩, ⟨"batch", 1, .retired 3, [.destroy "batch" 3]⟩,
     ⟨"web", 1, .grew 0.95 1.8 1, [.create "web"]⟩]
  trackedIdle := 0

/-- A tick without a decision for the other kind. -/
def quietTick : TickReport where
  tick := 2
  now := 240
  decisions := [⟨"web", 3, .gracePeriod 7, [.destroy "web" 5, .destroy "web" 6]⟩]
  trackedIdle := 1

theorem metrics_aggregate_reports_busy :
    [busyTick, quietTick].Perm [quietTick, busyTick] ∧
    (∀ d ∈ quietTick.decisions, d.kind ≠ "batch") ∧
    (∃ km, ("web", km) ∈ (ofReports [busyTick, quietTick]).snapshot ∧ km.created = 2 ∧
      km.destroyed = 2 ∧ km.poolSize = 1 ∧ km.idleTicks = 7 ∧ km.average = 0.95) ∧
    (ofReports [quietTick, busyTick]).counts = (ofReports [busyTick, quietTick]).counts ∧
    ∀ km, ("batch", km) ∈ (ofReports [busyTick, quietTick]).snapshot ↔
      ("batch", km) ∈ (ofReports [busyTick]).snapshot := by
  have hperm : [busyTick, quietTick].Perm [quietTick, busyTick] := .swap ..
  have hquiet : ∀ d ∈ quietTick.decisions, d.kind ≠ "batch" := by decide
  obtain ⟨-, -, hkinds, haggregate, hcounts, -⟩ := metrics_aggregate_reports [busyTick, quietTick]
  obtain ⟨-, -, -, -, -, hinsert⟩ := metrics_aggregate_reports [busyTick]
  obtain ⟨⟨_, km⟩, hkm, rfl⟩ := List.mem_map.1 ((hkinds "web").2
    ⟨busyTick, List.mem_cons_self .., _, List.mem_cons_self .., rfl⟩)
  have h := haggregate _ hkm
  obtain ⟨d, hd, hsize, hidle⟩ := h.last
  obtain rfl : ⟨"web", 3, .gracePeriod 7, [.destroy "web" 5, .destroy "web" 6]⟩ = d :=
    Option.some.inj hd
  exact ⟨hperm, hquiet, ⟨km, hkm, h.created, h.destroyed, hsize, hidle, h.average⟩, (hcounts _ hperm).2,
    hinsert [busyTick] [] rfl quietTick "batch" hquiet⟩

end Metrics

end FleetSizing
