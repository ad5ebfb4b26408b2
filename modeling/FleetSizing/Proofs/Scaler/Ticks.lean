import FleetSizing.Proofs.Scaler.Visits
/-!
# What a tick leaves behind

A tick starts from the idle counts of the tick before.  One that succeeds keeps the
counts of the idle sole instances that it has read and no others.  One that fails leaves
the counts of whatever it has not settled as they were.
-/

namespace FleetSizing

def Call.read? : Call → Option (Kind × Option (List InstanceId))
  | .read kind ids => some (kind, ids)
  | .sync _ | .request _ => none

namespace Fleet

variable {φ : Type} [Fleet φ]

def perform (fleet : φ) : Call → φ
  | .sync now => sync fleet now
  | .read _ _ => fleet
  | .request (.create kind) => create fleet kind
  | .request (.destroy kind id) => destroy fleet kind id

/-- The fleet after calls that were made on it one after the other. -/
def replay (fleet : φ) (calls : List Call) : φ := calls.foldl perform fleet

theorem replay_append (fleet : φ) (calls calls' : List Call) :
    replay fleet (calls ++ calls') = replay (replay fleet calls) calls' := List.foldl_append ..

theorem replay_requests (fleet : φ) (actions : List Action) :
    replay fleet (actions.map .request) = applyAll fleet actions := by
  induction actions generalizing fleet with
  | nil => rfl
  | cons a actions ih => cases a <;> exact ih _

end Fleet

namespace Scaler

open IdleTracker

variable {φ : Type} [Fleet φ]

def reads (calls : List Call) : List (Kind × Option (List InstanceId)) :=
  calls.filterMap Call.read?

theorem reads_append (calls calls' : List Call) :
    reads (calls ++ calls') = reads calls ++ reads calls' := List.filterMap_append ..

theorem Visits.reads_eq {c : Config} {p q : Progress φ} {visits : List Visit}
    (h : Visits c p visits q) :
    reads q.calls = reads p.calls ++ visits.map fun v => (v.1, some (v.2.map (·.id))) := by
  induction h with
  | nil p => simp
  | @cons p q kind pool visits hread hrest ih =>
      have hrequests (actions : List Action) : reads (actions.map .request) = [] := by
        simp [reads, Call.read?, List.filterMap_map, Function.comp_def]
      rw [ih]
      change reads ((p.calls ++ [.read kind (Fleet.pool? p.fleet kind)]) ++ _) ++ _ = _
      rw [reads_append, reads_append, hrequests, pool?_of_readPool hread, List.append_nil,
        List.append_assoc]
      rfl

theorem Visits.fleet_eq_replay {c : Config} {p q : Progress φ} {visits : List Visit}
    (h : Visits c p visits q) {fleet : φ} (hp : p.fleet = Fleet.replay fleet p.calls) :
    q.fleet = Fleet.replay fleet q.calls := by
  induction h with
  | nil p => exact hp
  | @cons p q kind pool visits hread hrest ih =>
      let actions := (c.evaluate p.idle kind pool).2.actions
      apply ih
      calc
        Fleet.applyAll p.fleet actions
          = Fleet.replay (Fleet.replay fleet (p.noteRead kind).calls) (actions.map .request) := by
            rw [Fleet.replay_requests, Progress.noteRead, Fleet.replay_append, ← hp]
            rfl
        _ = Fleet.replay fleet ((p.noteRead kind).calls ++ actions.map .request) :=
            (Fleet.replay_append ..).symm

/-- A tick after the fleet has been brought up to date, before the first visit. -/
def start (s : Scaler) (fleet : φ) (now : Nat) : Progress φ :=
  { idle := s.idle, fleet := Fleet.sync fleet now, calls := [.sync now] }

def Tick.idleSoles (t : Tick φ) : List InstanceId := t.pools.filterMap idleSole?

variable {s : Scaler} {fleet : φ} {now : Nat}

theorem tick_of_visitAll_ok {q : Progress φ}
    (h : visitAll s.config (s.start fleet now) (Fleet.kinds (Fleet.sync fleet now)) =
      (q, .ok ())) :
    s.tick fleet now =
      { scaler := { s with idle := q.idle.retain q.idleSoles, ticks := s.ticks + 1 }
        fleet := q.fleet, calls := q.calls, pools := q.pools
        result := .ok { tick := s.ticks + 1, now, decisions := q.decisions
                        trackedIdle := (q.idle.retain q.idleSoles).size } } := by
  unfold start at h
  unfold tick
  simp only [h]
  rfl

theorem tick_of_visitAll_error {q : Progress φ} {e : ScaleError}
    (h : visitAll s.config (s.start fleet now) (Fleet.kinds (Fleet.sync fleet now)) =
      (q, .error e)) :
    s.tick fleet now =
      { scaler := { s with idle := q.idle, ticks := s.ticks + 1 }
        fleet := q.fleet, calls := q.calls, pools := q.pools, result := .error e } := by
  unfold start at h
  unfold tick
  simp only [h]
  rfl

theorem tick_of_ok {r : TickReport} (h : (s.tick fleet now).result = .ok r) :
    ∃ visits q, Visits s.config (s.start fleet now) visits q ∧
      visits.map (·.1) = Fleet.kinds (Fleet.sync fleet now) ∧
      s.tick fleet now =
        { scaler := { s with idle := q.idle.retain q.idleSoles, ticks := s.ticks + 1 }
          fleet := q.fleet, calls := q.calls, pools := q.pools, result := .ok r } ∧
      r = { tick := s.ticks + 1, now, decisions := q.decisions
            trackedIdle := (q.idle.retain q.idleSoles).size } := by
  rcases visitAll_cases s.config (s.start fleet now) (Fleet.kinds (Fleet.sync fleet now)) with
    ⟨visits, q, hvisits, hkinds, heq⟩ | ⟨visits, q, kind, rest, e, hvisits, hkinds, he, heq⟩
  · rw [tick_of_visitAll_ok heq] at h ⊢
    cases h
    exact ⟨visits, q, hvisits, hkinds, rfl, rfl⟩
  · rw [tick_of_visitAll_error heq] at h
    cases h

theorem tick_of_error {e : ScaleError} (h : (s.tick fleet now).result = .error e) :
    ∃ visits q kind rest, Visits s.config (s.start fleet now) visits q ∧
      Fleet.kinds (Fleet.sync fleet now) = visits.map (·.1) ++ kind :: rest ∧
      readPool q.fleet q.seen kind = .error e ∧
      s.tick fleet now =
        { scaler := { s with idle := q.idle, ticks := s.ticks + 1 }
          fleet := q.fleet, calls := (q.noteRead kind).calls, pools := q.pools
          result := .error e } := by
  rcases visitAll_cases s.config (s.start fleet now) (Fleet.kinds (Fleet.sync fleet now)) with
    ⟨visits, q, hvisits, hkinds, heq⟩ | ⟨visits, q, kind, rest, e', hvisits, hkinds, he, heq⟩
  · rw [tick_of_visitAll_ok heq] at h
    cases h
  · rw [tick_of_visitAll_error heq] at h ⊢
    cases h
    exact ⟨visits, q, kind, rest, hvisits, hkinds, he, rfl⟩

theorem fleet_tick_eq_replay (s : Scaler) (fleet : φ) (now : Nat) :
    (s.tick fleet now).fleet = Fleet.replay fleet (s.tick fleet now).calls := by
  have hstart : (s.start fleet now).fleet = Fleet.replay fleet (s.start fleet now).calls := rfl
  rcases visitAll_cases s.config (s.start fleet now) (Fleet.kinds (Fleet.sync fleet now)) with
    ⟨visits, q, h, -, heq⟩ | ⟨visits, q, kind, rest, e, h, -, -, heq⟩
  · have hq := h.fleet_eq_replay hstart
    rw [tick_of_visitAll_ok heq]
    exact hq
  · have hq := h.fleet_eq_replay hstart
    rw [tick_of_visitAll_error heq, Progress.noteRead, Fleet.replay_append, ← hq]
    rfl

theorem fleet_tick_of_invariant {P : φ → Prop} (hsync : P (Fleet.sync fleet now))
    (happly : ∀ g a, P g → P (Fleet.apply g a)) : P (s.tick fleet now).fleet := by
  have happlyAll (actions : List Action) {g : φ} (hg : P g) : P (Fleet.applyAll g actions) := by
    induction actions generalizing g with
    | nil => exact hg
    | cons a actions ih => exact ih (happly g a hg)
  have hvisits {p q : Progress φ} {visits : List Visit} (h : Visits s.config p visits q)
      (hp : P p.fleet) : P q.fleet := by
    induction h with
    | nil p => exact hp
    | cons hread hrest ih => exact ih (happlyAll _ hp)
  have hstart : P (s.start fleet now).fleet := hsync
  rcases visitAll_cases s.config (s.start fleet now) (Fleet.kinds (Fleet.sync fleet now)) with
    ⟨visits, q, h, -, heq⟩ | ⟨visits, q, kind, rest, e, h, -, -, heq⟩
  · have hq := hvisits h hstart
    rw [tick_of_visitAll_ok heq]
    exact hq
  · have hq := hvisits h hstart
    rw [tick_of_visitAll_error heq]
    exact hq

theorem config_tick (s : Scaler) (fleet : φ) (now : Nat) :
    (s.tick fleet now).scaler.config = s.config := rfl

/-! ## Idle counts -/

theorem get?_tick_of_ok {r : TickReport} (h : (s.tick fleet now).result = .ok r)
    (x : InstanceId) :
    (s.tick fleet now).scaler.idle.get? x =
      if x ∈ (s.tick fleet now).idleSoles then kept s.config.idleGraceTicks (s.idle.next x)
      else none := by
  obtain ⟨visits, q, hvisits, hkinds, htick, hr⟩ := tick_of_ok h
  have hpools : q.pools = visits.map (·.2) := hvisits.pools_eq
  have hidle := hvisits.get?_idle x
  rw [htick]
  change (q.idle.retain (q.pools.filterMap idleSole?)).get? x =
    if x ∈ q.pools.filterMap idleSole? then _ else none
  rw [get?_retain, hpools]
  by_cases hsole : x ∈ (visits.map (·.2)).filterMap idleSole?
  · have hmem : x ∈ visitedIds visits := by
      obtain ⟨pool, hpool, hx⟩ := List.mem_filterMap.1 hsole
      obtain ⟨v, hv, rfl⟩ := List.mem_map.1 hpool
      exact List.mem_flatMap.2 ⟨v, hv, mem_of_idleSole? hx⟩
    rw [if_pos hmem, if_pos hsole] at hidle
    rw [if_pos hsole, if_pos hsole, hidle]
    rfl
  · rw [if_neg hsole, if_neg hsole]

theorem get?_tick_congr {s' : Scaler} {fleet' : φ} {now' : Nat} {r r' : TickReport}
    {x x' : InstanceId} (h : (s.tick fleet now).result = .ok r)
    (h' : (s'.tick fleet' now').result = .ok r') (hconfig : s.config = s'.config)
    (hidle : s.idle.get? x = s'.idle.get? x')
    (hsole : x ∈ (s.tick fleet now).idleSoles ↔ x' ∈ (s'.tick fleet' now').idleSoles) :
    (s.tick fleet now).scaler.idle.get? x = (s'.tick fleet' now').scaler.idle.get? x' := by
  rw [get?_tick_of_ok h, get?_tick_of_ok h']
  simp only [hsole, hconfig, next, hidle]

theorem tracked_tick_iff {r : TickReport} (h : (s.tick fleet now).result = .ok r)
    {x : InstanceId} :
    (s.tick fleet now).scaler.idle.get? x ≠ none ↔
      x ∈ (s.tick fleet now).idleSoles ∧ s.idle.next x < s.config.idleGraceTicks := by
  rw [get?_tick_of_ok h]
  unfold kept
  by_cases hsole : x ∈ (s.tick fleet now).idleSoles <;>
    by_cases hlt : s.idle.next x < s.config.idleGraceTicks <;> simp [hsole, hlt]

theorem get?_tick_of_error {e : ScaleError} (h : (s.tick fleet now).result = .error e)
    (x : InstanceId) :
    (s.tick fleet now).scaler.idle.get? x =
      if x ∈ (s.tick fleet now).pools.flatten.map (·.id) then
        if x ∈ (s.tick fleet now).idleSoles then kept s.config.idleGraceTicks (s.idle.next x)
        else none
      else s.idle.get? x := by
  obtain ⟨visits, q, kind, rest, hvisits, hkinds, he, htick⟩ := tick_of_error h
  have hseen : q.pools.flatten.map (·.id) = visitedIds visits := hvisits.seen_eq
  have hpools : q.pools = visits.map (·.2) := hvisits.pools_eq
  have hidle := hvisits.get?_idle x
  rw [htick]
  change q.idle.get? x = if x ∈ q.pools.flatten.map (·.id) then
    if x ∈ q.pools.filterMap idleSole? then _ else none else _
  rw [hseen, hpools, hidle]
  rfl

/-! ## Decisions -/

/-- A grace period of `n` ticks is decided for the instance `x`, the whole of a pool. -/
def Tick.Spares (t : Tick φ) (r : TickReport) (x : InstanceId) (n : Nat) : Prop :=
  ∃ d, ([x], d) ∈ (t.pools.map fun pool => pool.map (·.id)).zip r.decisions ∧
    d.outcome = .gracePeriod n

theorem exists_visits_of_ok {r : TickReport} (h : (s.tick fleet now).result = .ok r) :
    ∃ visits : List Visit, (visitedIds visits).Nodup ∧
      (s.tick fleet now).pools = visits.map (·.2) ∧
      r.decisions = visits.map fun v => (s.config.evaluate s.idle v.1 v.2).2 := by
  obtain ⟨visits, q, hvisits, hkinds, htick, hr⟩ := tick_of_ok h
  refine ⟨visits, ?_, ?_, ?_⟩
  · have hnodup := hvisits.nodup_seen List.nodup_nil
    rwa [hvisits.seen_eq] at hnodup
  · rw [htick]
    exact hvisits.pools_eq
  · rw [hr]
    exact hvisits.decisions_eq

theorem map_kind_decisions {r : TickReport} (h : (s.tick fleet now).result = .ok r) :
    r.decisions.map (·.kind) = Fleet.kinds (Fleet.sync fleet now) := by
  obtain ⟨visits, q, hvisits, hkinds, -, rfl⟩ := tick_of_ok h
  have hdecisions := hvisits.decisions_eq
  rw [← hkinds, hdecisions, List.map_append, List.map_map]
  rfl

theorem spares_iff {r : TickReport} (h : (s.tick fleet now).result = .ok r) (x : InstanceId)
    (n : Nat) :
    (s.tick fleet now).Spares r x n ↔
      x ∈ (s.tick fleet now).idleSoles ∧ s.idle.next x = n ∧ n < s.config.idleGraceTicks := by
  obtain ⟨visits, -, hpools, hdecisions⟩ := exists_visits_of_ok h
  unfold Tick.Spares Tick.idleSoles
  rw [hpools, hdecisions, List.map_map, List.zip_map', List.mem_filterMap]
  constructor
  · rintro ⟨d, hd, houtcome⟩
    obtain ⟨v, hv, heq⟩ := List.mem_map.1 hd
    obtain ⟨hids, rfl⟩ := Prod.mk.injEq .. ▸ heq
    obtain ⟨y, hy, hnext, hlt⟩ := Config.outcome_eq_gracePeriod_iff.1 houtcome
    have hyx : [y] = [x] := (ids_of_idleSole? hy).symm.trans hids
    cases hyx
    exact ⟨⟨v.2, List.mem_map_of_mem hv, hy⟩, hnext, hlt⟩
  · rintro ⟨⟨pool, hpool, hsole⟩, hnext, hlt⟩
    obtain ⟨v, hv, rfl⟩ := List.mem_map.1 hpool
    refine ⟨(s.config.evaluate s.idle v.1 v.2).2, List.mem_map.2 ⟨v, hv, ?_⟩, ?_⟩
    · exact Prod.ext (ids_of_idleSole? hsole) rfl
    · exact Config.outcome_eq_gracePeriod_iff.2 ⟨x, hsole, hnext, hlt⟩

theorem retired_iff {r : TickReport} (h : (s.tick fleet now).result = .ok r) (x : InstanceId) :
    (∃ d ∈ r.decisions, d.outcome = .retired x) ↔
      x ∈ (s.tick fleet now).idleSoles ∧ s.config.idleGraceTicks ≤ s.idle.next x := by
  obtain ⟨visits, -, hpools, hdecisions⟩ := exists_visits_of_ok h
  unfold Tick.idleSoles
  rw [hpools, hdecisions]
  simp only [List.mem_map, List.mem_filterMap, exists_exists_and_eq_and,
    Config.outcome_eq_retired_iff]
  constructor
  · rintro ⟨v, hv, hsole, hge⟩
    exact ⟨⟨v, hv, hsole⟩, hge⟩
  · rintro ⟨⟨v, hv, hsole⟩, hge⟩
    exact ⟨v, hv, hsole, hge⟩

theorem trackedIdle_eq_size {r : TickReport} (h : (s.tick fleet now).result = .ok r) :
    r.trackedIdle = (s.tick fleet now).scaler.idle.size := by
  obtain ⟨visits, q, hvisits, hkinds, htick, hr⟩ := tick_of_ok h
  rw [htick, hr]

theorem trackedIdle_of_ok {r : TickReport} (h : (s.tick fleet now).result = .ok r) :
    r.trackedIdle = r.decisions.countP fun d => d.outcome.isGracePeriod := by
  obtain ⟨visits, hnodup, hpools, hdecisions⟩ := exists_visits_of_ok h
  let spared (v : Visit) : Option InstanceId :=
    (idleSole? v.2).filter fun x => s.idle.next x < s.config.idleGraceTicks
  have hspared_iff (v : Visit) (x : InstanceId) : spared v = some x ↔
      idleSole? v.2 = some x ∧ s.idle.next x < s.config.idleGraceTicks := by
    rw [Option.filter_eq_some_iff, decide_eq_true_iff]
  have hnodup' : (visits.filterMap spared).Nodup :=
    nodup_filterMap hnodup fun v x hx => mem_of_idleSole? ((hspared_iff v x).1 hx).1
  have hmem (x : InstanceId) :
      (s.tick fleet now).scaler.idle.get? x ≠ none ↔ x ∈ visits.filterMap spared := by
    rw [tracked_tick_iff h, Tick.idleSoles, hpools, List.mem_filterMap, List.mem_filterMap]
    constructor
    · rintro ⟨⟨pool, hpool, hsole⟩, hlt⟩
      obtain ⟨v, hv, rfl⟩ := List.mem_map.1 hpool
      exact ⟨v, hv, (hspared_iff v x).2 ⟨hsole, hlt⟩⟩
    · rintro ⟨v, hv, hx⟩
      obtain ⟨hsole, hlt⟩ := (hspared_iff v x).1 hx
      exact ⟨⟨v.2, List.mem_map_of_mem hv, hsole⟩, hlt⟩
  have hcount (v : Visit) : (s.config.evaluate s.idle v.1 v.2).2.outcome.isGracePeriod = true ↔
      (spared v).isSome = true := by
    simp only [Outcome.isGracePeriod_iff, Config.outcome_eq_gracePeriod_iff,
      Option.isSome_iff_exists, hspared_iff]
    constructor
    · rintro ⟨n, x, hsole, rfl, hlt⟩
      exact ⟨x, hsole, hlt⟩
    · rintro ⟨x, hsole, hlt⟩
      exact ⟨_, x, hsole, rfl, hlt⟩
  calc
    r.trackedIdle = (s.tick fleet now).scaler.idle.size := trackedIdle_eq_size h
    _ = (visits.filterMap spared).length := IdleTracker.size_eq_length hnodup' hmem
    _ = visits.countP fun v => (spared v).isSome := List.length_filterMap_eq_countP ..
    _ = visits.countP fun v => (s.config.evaluate s.idle v.1 v.2).2.outcome.isGracePeriod :=
      List.countP_congr fun v _ => (hcount v).symm
    _ = r.decisions.countP fun d => d.outcome.isGracePeriod := by
      rw [hdecisions, List.countP_map]
      rfl

/-! ## Runs -/

theorem exists_ok_of_isOk {ε α : Type} {result : Except ε α} (h : result.isOk = true) :
    ∃ a, result = .ok a := by
  cases result with
  | ok a => exact ⟨a, rfl⟩
  | error e => cases h

/-- The ticks of a scaler, each on a fleet and at a clock value of its own. -/
def history (s : Scaler) : List (φ × Nat) → List (Tick φ)
  | [] => []
  | (fleet, now) :: frames =>
    s.tick fleet now :: history (s.tick fleet now).scaler frames

def after (s : Scaler) (frames : List (φ × Nat)) : Scaler :=
  frames.foldl (fun s frame => (s.tick frame.1 frame.2).scaler) s

theorem after_concat (s : Scaler) (frames : List (φ × Nat)) (fleet : φ) (now : Nat) :
    s.after (frames ++ [(fleet, now)]) = ((s.after frames).tick fleet now).scaler := by
  unfold after
  rw [List.foldl_append]
  rfl

theorem history_concat (s : Scaler) (frames : List (φ × Nat)) (fleet : φ) (now : Nat) :
    s.history (frames ++ [(fleet, now)]) =
      s.history frames ++ [(s.after frames).tick fleet now] := by
  induction frames generalizing s with
  | nil => rfl
  | cons frame frames ih => exact congrArg _ (ih (s.tick frame.1 frame.2).scaler)

theorem config_after (s : Scaler) (frames : List (φ × Nat)) :
    (s.after frames).config = s.config := by
  induction frames generalizing s with
  | nil => rfl
  | cons frame frames ih => exact ih (s.tick frame.1 frame.2).scaler

end Scaler

end FleetSizing
