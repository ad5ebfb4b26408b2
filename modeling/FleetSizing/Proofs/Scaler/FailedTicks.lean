import FleetSizing.Fleet.Script
import FleetSizing.Proofs.Scaler.Ticks
import Mathlib.Data.List.Dedup
import Mathlib.Data.List.Perm.Subperm
/-!
# Ticks that fail

After a tick that succeeds, every tracked instance is the whole pool of a kind as that
was read last.  A tick that fails stops before it forgets what it has not settled, so
that this may break: exactly for the instances that were tracked before, and that the
pools read since then show in another light.
-/

namespace FleetSizing.Scaler

open IdleTracker

variable {φ : Type} [Fleet φ]

def lastRead (calls : List Call) (kind : Kind) : Option (Option (List InstanceId)) :=
  (reads calls).reverse.lookup kind

theorem lastRead_append (calls calls' : List Call) (kind : Kind) :
    lastRead (calls ++ calls') kind = (lastRead calls' kind).or (lastRead calls kind) := by
  unfold lastRead
  rw [reads_append, List.reverse_append, List.lookup_append]

theorem mem_reads_of_lastRead {calls : List Call} {kind : Kind}
    {ids : Option (List InstanceId)} (h : lastRead calls kind = some ids) :
    (kind, ids) ∈ reads calls := by
  obtain ⟨before, after, heq, -⟩ := List.lookup_eq_some_iff.1 h
  rw [← List.mem_reverse, heq]
  exact List.mem_append_right _ (List.mem_cons_self ..)

theorem lastRead_of_mem {calls : List Call} (hnodup : ((reads calls).map (·.1)).Nodup)
    {kind : Kind} {ids : Option (List InstanceId)} (h : (kind, ids) ∈ reads calls) :
    lastRead calls kind = some ids := by
  obtain ⟨before, after, heq⟩ := List.append_of_mem (List.mem_reverse.2 h)
  refine List.lookup_eq_some_iff.2 ⟨before, after, heq, fun entry hentry => ?_⟩
  rw [← List.nodup_reverse, ← List.map_reverse, heq, List.map_append, List.nodup_append] at hnodup
  have hne := hnodup.2.2 entry.1 (List.mem_map_of_mem hentry) kind (List.mem_cons_self ..)
  exact bne_iff_ne.2 hne.symm

/-- Every tracked instance is the whole pool of a kind as that was read last. -/
def UpToDate (idle : IdleTracker) (calls : List Call) : Prop :=
  ∀ x, idle.get? x ≠ none → ∃ kind, lastRead calls kind = some (some [x])

theorem UpToDate.size_le {idle : IdleTracker} {calls : List Call} (h : UpToDate idle calls) :
    idle.size ≤ ((reads calls).map (·.1)).dedup.length := by
  let first (kind : Kind) : Option InstanceId := (lastRead calls kind).join.bind List.head?
  have hsub : idle.counts.keys ⊆ ((reads calls).map (·.1)).dedup.filterMap first := by
    intro x hx
    obtain ⟨kind, hkind⟩ := h x (mem_keys_iff.1 hx)
    refine List.mem_filterMap.2 ⟨kind, List.mem_dedup.2 ?_, by simp [first, hkind]⟩
    exact List.mem_map_of_mem (f := (·.1)) (mem_reads_of_lastRead hkind)
  calc
    idle.size = idle.counts.keys.length := by
      rw [SortedMap.keys, List.length_map]
      rfl
    _ ≤ (((reads calls).map (·.1)).dedup.filterMap first).length :=
      (List.Nodup.subperm idle.counts.nodup_keys hsub).length_le
    _ ≤ ((reads calls).map (·.1)).dedup.length := List.length_filterMap_le ..

variable {s : Scaler} {fleet : φ} {now : Nat}

theorem exists_reads_tick (s : Scaler) (fleet : φ) (now : Nat) :
    ∃ visits : List Visit, ∃ failed : List (Kind × Option (List InstanceId)),
      (s.tick fleet now).pools = visits.map (·.2) ∧
      reads (s.tick fleet now).calls =
        visits.map (fun v => (v.1, some (v.2.map (·.id)))) ++ failed ∧
      (reads (s.tick fleet now).calls).map (·.1) <+: Fleet.kinds (Fleet.sync fleet now) ∧
      if (s.tick fleet now).result.isOk then failed = [] else failed.length = 1 := by
  cases hresult : (s.tick fleet now).result with
  | ok r =>
      obtain ⟨visits, q, hvisits, hlisted, htick, -⟩ := tick_of_ok hresult
      have hreads : reads q.calls = visits.map fun v => (v.1, some (v.2.map (·.id))) :=
        hvisits.reads_eq
      refine ⟨visits, [], ?_, ?_, ?_, rfl⟩
      · rw [htick]
        exact hvisits.pools_eq
      · rw [htick, List.append_nil]
        exact hreads
      · rw [htick, ← hlisted]
        change (reads q.calls).map _ <+: _
        rw [hreads, List.map_map]
        exact List.prefix_rfl
  | error e =>
      obtain ⟨visits, q, kind, rest, hvisits, hlisted, -, htick⟩ := tick_of_error hresult
      have hreads : reads (q.noteRead kind).calls =
          visits.map (fun v => (v.1, some (v.2.map (·.id)))) ++
            [(kind, Fleet.pool? q.fleet kind)] := by
        change reads (q.calls ++ _) = _
        rw [reads_append, hvisits.reads_eq]
        rfl
      refine ⟨visits, [(kind, Fleet.pool? q.fleet kind)], ?_, ?_, ?_, rfl⟩
      · rw [htick]
        exact hvisits.pools_eq
      · rw [htick]
        exact hreads
      · rw [htick, hlisted]
        change (reads (q.noteRead kind).calls).map _ <+: _
        rw [hreads, List.map_append, List.map_map]
        exact ⟨rest, by simp [Function.comp_def]⟩

theorem nodup_reads_tick (hkinds : (Fleet.kinds (Fleet.sync fleet now)).Nodup) :
    ((reads (s.tick fleet now).calls).map (·.1)).Nodup := by
  obtain ⟨visits, failed, -, -, hprefix, -⟩ := exists_reads_tick s fleet now
  exact hkinds.sublist hprefix.sublist

theorem lastRead_of_mem_pools (hkinds : (Fleet.kinds (Fleet.sync fleet now)).Nodup)
    {pool : List Snapshot} (hpool : pool ∈ (s.tick fleet now).pools) :
    ∃ kind, lastRead (s.tick fleet now).calls kind = some (some (pool.map (·.id))) := by
  obtain ⟨visits, failed, hpools, hreads, -, -⟩ := exists_reads_tick s fleet now
  rw [hpools] at hpool
  obtain ⟨v, hv, rfl⟩ := List.mem_map.1 hpool
  refine ⟨v.1, lastRead_of_mem (nodup_reads_tick hkinds) ?_⟩
  rw [hreads]
  exact List.mem_append_left _ (List.mem_map.2 ⟨v, hv, rfl⟩)

theorem exists_lastRead_of_mem_idleSoles (hkinds : (Fleet.kinds (Fleet.sync fleet now)).Nodup)
    (calls : List Call) {x : InstanceId} (hx : x ∈ (s.tick fleet now).idleSoles) :
    ∃ kind, lastRead (calls ++ (s.tick fleet now).calls) kind = some (some [x]) := by
  obtain ⟨pool, hpool, hsole⟩ := List.mem_filterMap.1 hx
  obtain ⟨kind, hkind⟩ := lastRead_of_mem_pools hkinds hpool
  refine ⟨kind, ?_⟩
  rw [lastRead_append, hkind, ids_of_idleSole? hsole, Option.some_or]

theorem upToDate_tick_of_ok {r : TickReport} (h : (s.tick fleet now).result = .ok r)
    (hkinds : (Fleet.kinds (Fleet.sync fleet now)).Nodup) (calls : List Call) :
    UpToDate (s.tick fleet now).scaler.idle (calls ++ (s.tick fleet now).calls) := by
  intro x hx
  exact exists_lastRead_of_mem_idleSoles hkinds calls ((tracked_tick_iff h).1 hx).1

theorem size_tick_le_of_ok {r : TickReport} (h : (s.tick fleet now).result = .ok r) :
    (s.tick fleet now).scaler.idle.size ≤ (Fleet.kinds (Fleet.sync fleet now)).length := by
  obtain ⟨visits, q, hvisits, hlisted, htick, hr⟩ := tick_of_ok h
  have hdecisions : r.decisions.length = visits.length := by
    rw [hr, hvisits.decisions_eq]
    exact List.length_map ..
  calc
    (s.tick fleet now).scaler.idle.size
        = r.decisions.countP fun d => d.outcome.isGracePeriod := by
      rw [← trackedIdle_eq_size h, trackedIdle_of_ok h]
    _ ≤ r.decisions.length := List.countP_le_length
    _ = (Fleet.kinds (Fleet.sync fleet now)).length := by
      rw [hdecisions, ← hlisted, List.length_map]

theorem lastRead_eq_iff_getLast? {e : ScaleError} (h : (s.tick fleet now).result = .error e)
    (hkinds : (Fleet.kinds (Fleet.sync fleet now)).Nodup) {x : InstanceId}
    (hx : x ∉ (s.tick fleet now).pools.flatten.map (·.id)) (kind : Kind) :
    lastRead (s.tick fleet now).calls kind = some (some [x]) ↔
      (reads (s.tick fleet now).calls).getLast? = some (kind, some [x]) := by
  obtain ⟨visits, failed, hpools, hreads, -, hfailed⟩ := exists_reads_tick s fleet now
  have hlength : failed.length = 1 := by
    rw [h] at hfailed
    exact hfailed
  obtain ⟨entry, rfl⟩ := List.length_eq_one_iff.1 hlength
  have hlast : (reads (s.tick fleet now).calls).getLast? = some entry := by
    rw [hreads, List.getLast?_concat]
  rw [hlast, Option.some_inj]
  constructor
  · intro hlook
    have hmem := mem_reads_of_lastRead hlook
    rw [hreads] at hmem
    rcases List.mem_append.1 hmem with hmem | hmem
    · obtain ⟨v, hv, heq⟩ := List.mem_map.1 hmem
      have hids : v.2.map (·.id) = [x] := Option.some_inj.1 (congrArg Prod.snd heq)
      refine absurd ?_ hx
      rw [hpools]
      refine List.mem_map.2 ?_
      obtain ⟨i, hi, hix⟩ := List.mem_map.1 (hids ▸ List.mem_singleton_self x)
      exact ⟨i, List.mem_flatten.2 ⟨v.2, List.mem_map_of_mem hv, hi⟩, hix⟩
    · exact (List.mem_singleton.1 hmem).symm
  · rintro rfl
    refine lastRead_of_mem (nodup_reads_tick hkinds) ?_
    rw [hreads]
    exact List.mem_append_right _ (List.mem_singleton_self _)

/-- A tick that fails leaves no count that is out of date, but for the instances that were
tracked before and are in no pool that it has settled.  Their counts stay, and are out of
date unless the instance is still the whole of a pool that the tick did not read, or of the
pool that it failed at. -/
theorem upToDate_tick_of_error_iff {e : ScaleError} (h : (s.tick fleet now).result = .error e)
    (hkinds : (Fleet.kinds (Fleet.sync fleet now)).Nodup) (calls : List Call) :
    UpToDate (s.tick fleet now).scaler.idle (calls ++ (s.tick fleet now).calls) ↔
      ∀ x, s.idle.get? x ≠ none → x ∉ (s.tick fleet now).pools.flatten.map (·.id) →
        ∃ kind,
          (lastRead (s.tick fleet now).calls kind = none ∧
            lastRead calls kind = some (some [x])) ∨
          (reads (s.tick fleet now).calls).getLast? = some (kind, some [x]) := by
  have hread {x : InstanceId} (hx : x ∉ (s.tick fleet now).pools.flatten.map (·.id))
      (kind : Kind) :
      lastRead (calls ++ (s.tick fleet now).calls) kind = some (some [x]) ↔
        (lastRead (s.tick fleet now).calls kind = none ∧
          lastRead calls kind = some (some [x])) ∨
        (reads (s.tick fleet now).calls).getLast? = some (kind, some [x]) := by
    rw [lastRead_append, Option.or_eq_some_iff, lastRead_eq_iff_getLast? h hkinds hx]
    exact or_comm
  constructor
  · -- What was not settled keeps its count, and must therefore be up to date.
    intro hup x htracked hx
    have hkept := get?_tick_of_error h x
    rw [if_neg hx] at hkept
    obtain ⟨kind, hkind⟩ := hup x (hkept ▸ htracked)
    exact ⟨kind, (hread hx kind).1 hkind⟩
  · intro hstale x htracked
    rw [get?_tick_of_error h] at htracked
    split at htracked
    next =>
      -- What was settled and is tracked was counted in this tick.
      refine exists_lastRead_of_mem_idleSoles hkinds calls ?_
      by_contra hsole
      rw [if_neg hsole] at htracked
      exact htracked rfl
    next hx =>
      obtain ⟨kind, hkind⟩ := hstale x htracked hx
      exact ⟨kind, (hread hx kind).2 hkind⟩

/-! ## Runs in which ticks may fail -/

def callsOf (s : Scaler) (frames : List (φ × Nat)) : List Call :=
  (s.history frames).flatMap (·.calls)

theorem callsOf_concat (s : Scaler) (frames : List (φ × Nat)) (fleet : φ) (now : Nat) :
    s.callsOf (frames ++ [(fleet, now)]) =
      s.callsOf frames ++ ((s.after frames).tick fleet now).calls := by
  unfold callsOf
  rw [history_concat, List.flatMap_append, List.flatMap_singleton]

/-- After the last tick of any run, if it succeeds, every tracked instance is the whole pool
of a kind as that was read last, and there are no more of them than kinds.  If it fails, this
holds exactly when every instance that was tracked before it, and is in no pool that it has
settled, is still the whole of a pool that it did not read or of the pool it failed at. -/
theorem upToDate_after (c : Config) (before : List (φ × Nat)) (fleet : φ) (now : Nat)
    (hkinds : (Fleet.kinds (Fleet.sync fleet now)).Nodup) :
    let s := after { config := c } before
    let t := s.tick fleet now
    let idle := (after { config := c } (before ++ [(fleet, now)])).idle
    let calls := callsOf { config := c } (before ++ [(fleet, now)])
    (t.result.isOk = true →
      UpToDate idle calls ∧ idle.size ≤ (Fleet.kinds (Fleet.sync fleet now)).length) ∧
    (t.result.isOk = false →
      (UpToDate idle calls ↔
        ∀ x, s.idle.get? x ≠ none → x ∉ t.pools.flatten.map (·.id) →
          ∃ kind,
            (lastRead t.calls kind = none ∧
              lastRead (callsOf { config := c } before) kind = some (some [x])) ∨
            (reads t.calls).getLast? = some (kind, some [x]))) ∧
    (UpToDate idle calls → idle.size ≤ ((reads calls).map (·.1)).dedup.length) := by
  intro s t idle calls
  have hidle : idle = t.scaler.idle := by rw [← after_concat]
  have hcalls : calls = callsOf { config := c } before ++ t.calls := callsOf_concat ..
  refine ⟨fun hok => ?_, fun herror => ?_, fun h => h.size_le⟩
  · obtain ⟨r, hr⟩ := exists_ok_of_isOk hok
    rw [hidle, hcalls]
    exact ⟨upToDate_tick_of_ok hr hkinds _, size_tick_le_of_ok hr⟩
  · cases hresult : t.result with
    | ok r =>
        rw [hresult] at herror
        cases herror
    | error e =>
        rw [hidle, hcalls]
        exact upToDate_tick_of_error_iff hresult hkinds _

def calmScript : Script := { ahead := [[("web", some [⟨1, false, 0.0⟩])]] }

/-- A scripted fleet that lists a kind without a pool before the one of the idle instance. -/
def brokenScript : Script := { ahead := [[("db", none), ("web", some [⟨1, false, 0.0⟩])]] }

/-- A scripted fleet in which the idle instance has company that overstates its load. -/
def crowdedScript : Script :=
  { ahead := [[("web", some [⟨1, false, 0.0⟩, ⟨2, false, 1.5⟩])]] }

/-- A failure before the pool of the tracked instance is read does no harm. -/
theorem upToDate_after_failure_elsewhere :
    (Fleet.kinds (Fleet.sync brokenScript 120)).Nodup ∧
    UpToDate (after { config := {} } ([(calmScript, 60)] ++ [(brokenScript, 120)])).idle
      (callsOf { config := {} } ([(calmScript, 60)] ++ [(brokenScript, 120)])) := by
  have hkinds : (Fleet.kinds (Fleet.sync brokenScript 120)).Nodup := by decide +kernel
  obtain ⟨-, herror, -⟩ := upToDate_after {} [(calmScript, 60)] brokenScript 120 hkinds
  refine ⟨hkinds, (herror (by decide +kernel)).2 fun x hx _ => ⟨"web", Or.inl ?_⟩⟩
  have hkeys : (after { config := {} } [(calmScript, 60)]).idle.counts.keys = [1] := by
    decide +kernel
  obtain rfl : x = 1 := List.mem_singleton.1 (hkeys ▸ mem_keys_iff.2 hx)
  decide +kernel

/-- A failure at the pool of the tracked instance leaves a count that is out of date. -/
theorem not_upToDate_after_failure :
    (∀ frame ∈ [(calmScript, 60), (crowdedScript, 120)],
      (Fleet.kinds (Fleet.sync frame.1 frame.2)).Nodup) ∧
    ¬ UpToDate (after { config := {} } [(calmScript, 60), (crowdedScript, 120)]).idle
      (callsOf { config := {} } [(calmScript, 60), (crowdedScript, 120)]) := by
  refine ⟨by decide +kernel, fun h => ?_⟩
  obtain ⟨kind, hkind⟩ := h 1 (by decide +kernel)
  have hreads : reads (callsOf { config := {} } [(calmScript, 60), (crowdedScript, 120)]) =
      [("web", some [1]), ("web", some [1, 2])] := by
    decide +kernel
  obtain rfl : kind = "web" := by
    have hmem := mem_reads_of_lastRead hkind
    rw [hreads] at hmem
    rcases List.mem_cons.1 hmem with heq | hmem
    · exact congrArg Prod.fst heq
    · exact congrArg Prod.fst (List.mem_singleton.1 hmem)
  rw [lastRead, hreads] at hkind
  exact absurd hkind (by decide)

end FleetSizing.Scaler
