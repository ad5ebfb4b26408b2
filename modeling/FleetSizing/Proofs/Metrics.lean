import FleetSizing.Metrics.Basic
import FleetSizing.SortedMap.Lemmas
/-!
# What reports add up to

The metrics of a kind are told by the decisions for this kind, in whatever reports they
stand: its counters are sums over all of them, its gauges are read off the last one.
-/

namespace FleetSizing

def Outcome.isRetired : Outcome → Bool
  | .retired _ => true
  | .coldStart | .gracePeriod _ | .shrunk _ | .grew .. | .steady _ => false

namespace KindMetrics

def recordAll (m : KindMetrics) (ds : List Decision) : KindMetrics := ds.foldl record m

theorem recordAll_concat (m : KindMetrics) (ds : List Decision) (d : Decision) :
    m.recordAll (ds ++ [d]) = (m.recordAll ds).record d := by
  rw [recordAll, List.foldl_append]
  rfl

theorem created_recordAll (m : KindMetrics) (ds : List Decision) :
    (m.recordAll ds).created = m.created + sumOf (·.creates) ds :=
  sumOf_foldl (fun _ _ => rfl) m ds

theorem destroyed_recordAll (m : KindMetrics) (ds : List Decision) :
    (m.recordAll ds).destroyed = m.destroyed + sumOf (·.destroys) ds :=
  sumOf_foldl (fun _ _ => rfl) m ds

theorem retirements_recordAll (m : KindMetrics) (ds : List Decision) :
    (m.recordAll ds).retirements = m.retirements + ds.countP (·.outcome.isRetired) := by
  induction ds generalizing m with
  | nil => rfl
  | cons d ds ih =>
      have hrecord : (m.record d).retirements =
          m.retirements + if d.outcome.isRetired then 1 else 0 := by
        unfold record
        cases d.outcome <;> rfl
      show ((m.record d).recordAll ds).retirements = _
      rw [ih, hrecord, List.countP_cons]
      omega

end KindMetrics

namespace Metrics

def decided (reports : List TickReport) (kind : Kind) : List Decision :=
  (reports.flatMap (·.decisions)).filter (·.kind = kind)

theorem decided_cons (r : TickReport) (reports : List TickReport) (kind : Kind) :
    decided (r :: reports) kind =
      r.decisions.filter (·.kind = kind) ++ decided reports kind := by
  rw [decided, List.flatMap_cons, List.filter_append]
  rfl

/-- The metrics of a kind, those of no decision for an unknown one. -/
def kindD (m : Metrics) (kind : Kind) : KindMetrics := (m.kinds.get? kind).getD {}

theorem get?_of_mem_keys {m : Metrics} {kind : Kind} (h : kind ∈ m.kinds.keys) :
    m.kinds.get? kind = some (m.kindD kind) := by
  obtain ⟨km, hkm⟩ := Option.isSome_iff_exists.1 (SortedMap.mem_keys_iff.1 h)
  rw [kindD, hkm, Option.getD_some]

theorem kindD_record (m : Metrics) (r : TickReport) (kind : Kind) :
    (m.record r).kindD kind =
      (m.kindD kind).recordAll (r.decisions.filter (·.kind = kind)) := by
  have hfold (ds : List Decision) (kinds : SortedMap Kind KindMetrics) :
      ((ds.foldl (fun ms d => ms.upsert d.kind {} (·.record d)) kinds).get? kind).getD {} =
        ((kinds.get? kind).getD {}).recordAll (ds.filter (·.kind = kind)) := by
    induction ds generalizing kinds with
    | nil => rfl
    | cons d ds ih =>
        rw [List.foldl_cons, ih, SortedMap.get?_upsert]
        by_cases hd : kind = d.kind
        · rw [if_pos hd, List.filter_cons_of_pos (by simp [hd]), hd]
          rfl
        · rw [if_neg hd, List.filter_cons_of_neg (by simpa using Ne.symm hd)]
  exact hfold r.decisions m.kinds

theorem mem_keys_record_iff (m : Metrics) (r : TickReport) (kind : Kind) :
    kind ∈ (m.record r).kinds.keys ↔
      kind ∈ m.kinds.keys ∨ kind ∈ r.decisions.map (·.kind) := by
  have hfold (ds : List Decision) (kinds : SortedMap Kind KindMetrics) :
      kind ∈ (ds.foldl (fun ms d => ms.upsert d.kind {} (·.record d)) kinds).keys ↔
        kind ∈ kinds.keys ∨ kind ∈ ds.map (·.kind) := by
    induction ds generalizing kinds with
    | nil => simp
    | cons d ds ih =>
        rw [List.foldl_cons, ih, SortedMap.mem_keys_upsert_iff, List.map_cons, List.mem_cons,
          or_comm (a := kind = _), or_assoc]
  exact hfold r.decisions m.kinds

theorem ticks_foldl_record (m : Metrics) (reports : List TickReport) :
    (reports.foldl record m).ticks = m.ticks + reports.length := by
  induction reports generalizing m with
  | nil => rfl
  | cons r reports ih =>
      rw [List.foldl_cons, ih, List.length_cons]
      simp [record]
      omega

theorem kindD_foldl_record (m : Metrics) (reports : List TickReport) (kind : Kind) :
    (reports.foldl record m).kindD kind = (m.kindD kind).recordAll (decided reports kind) := by
  induction reports generalizing m with
  | nil => rfl
  | cons r reports ih =>
      rw [List.foldl_cons, ih, kindD_record, decided_cons, KindMetrics.recordAll,
        KindMetrics.recordAll, ← List.foldl_append]
      rfl

theorem mem_keys_foldl_record_iff (m : Metrics) (reports : List TickReport) (kind : Kind) :
    kind ∈ (reports.foldl record m).kinds.keys ↔
      kind ∈ m.kinds.keys ∨ ∃ r ∈ reports, kind ∈ r.decisions.map (·.kind) := by
  induction reports generalizing m with
  | nil => simp
  | cons r reports ih =>
      rw [List.foldl_cons, ih, mem_keys_record_iff, or_assoc]
      simp

theorem ticks_ofReports (reports : List TickReport) :
    (ofReports reports).ticks = reports.length := by
  rw [ofReports, ticks_foldl_record, Nat.zero_add]

theorem kindD_ofReports (reports : List TickReport) (kind : Kind) :
    (ofReports reports).kindD kind = ({} : KindMetrics).recordAll (decided reports kind) :=
  kindD_foldl_record {} reports kind

theorem mem_keys_ofReports_iff (reports : List TickReport) (kind : Kind) :
    kind ∈ (ofReports reports).kinds.keys ↔
      ∃ r ∈ reports, kind ∈ r.decisions.map (·.kind) := by
  rw [ofReports, mem_keys_foldl_record_iff]
  exact or_iff_right List.not_mem_nil

end Metrics

end FleetSizing
