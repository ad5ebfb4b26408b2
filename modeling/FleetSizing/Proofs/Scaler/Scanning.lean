import FleetSizing.Proofs.Scaler.Ticks
import Mathlib.Data.List.Induction
/-!
# What a tick looks at

A tick goes through its kinds in rounds.  In the round of a kind it looks at the answer
for the pool and then at the members one by one, and it fails at the first place where it
finds something wrong.  Here the rounds are laid out as if nothing were wrong with any
place, and a tick is shown to stop at the first place that is.
-/

namespace FleetSizing.Scaler

open IdleTracker

variable {φ : Type} [Fleet φ]

/-- What a tick looks at: the answer for the pool of a kind, or a member of a pool. -/
inductive Place where
  | pool (kind : Kind) (ids : Option (List InstanceId))
  | member (s : Snapshot)

namespace Place

def id? : Place → Option InstanceId
  | .pool _ _ => none
  | .member s => some s.id

/-- What is wrong with a place after the instances `seen`.  That an instance was seen
before counts more than its utilization. -/
def defect (seen : List InstanceId) : Place → Option ScaleError
  | .pool kind none => some (.kindVanished kind)
  | .pool _ (some _) => none
  | .member s =>
    if s.id ∈ seen then some (.duplicateInstance s.id)
    else if isFraction s.utilization then none
    else some (.utilizationOutOfRange s.id s.utilization)

theorem defect_congr {seen seen' : List InstanceId} (h : ∀ x, x ∈ seen ↔ x ∈ seen')
    (p : Place) : p.defect seen = p.defect seen' := by
  cases p with
  | pool kind ids => cases ids <;> rfl
  | member s => simp only [defect, h]

end Place

def idsOf (places : List Place) : List InstanceId := places.filterMap Place.id?

/-- What is wrong with the place at a position, in view of the places before it. -/
def defectAt (places : List Place) (i : Nat) : Option ScaleError :=
  places[i]?.bind (·.defect (idsOf (places.take i)))

structure IsFirstDefect (places : List Place) (i : Nat) (e : ScaleError) : Prop where
  defect : defectAt places i = some e
  before : ∀ j < i, defectAt places j = none

/-- The first thing wrong with places that are looked at after the instances `seen`. -/
def firstDefect (seen : List InstanceId) : List Place → Option ScaleError
  | [] => none
  | p :: places => (p.defect seen).or (firstDefect (p.id?.toList ++ seen) places)

theorem firstDefect_congr {seen seen' : List InstanceId} (h : ∀ x, x ∈ seen ↔ x ∈ seen')
    (places : List Place) : firstDefect seen places = firstDefect seen' places := by
  induction places generalizing seen seen' with
  | nil => rfl
  | cons p places ih =>
      have hcons : ∀ x, x ∈ p.id?.toList ++ seen ↔ x ∈ p.id?.toList ++ seen' := by
        intro x
        simp only [List.mem_append, h]
      rw [firstDefect, firstDefect, Place.defect_congr h, ih hcons]

theorem firstDefect_append (seen : List InstanceId) (places places' : List Place) :
    firstDefect seen (places ++ places') =
      (firstDefect seen places).or (firstDefect (seen ++ idsOf places) places') := by
  induction places generalizing seen with
  | nil => simp [firstDefect, idsOf]
  | cons p places ih =>
      have hseen : ∀ x, x ∈ p.id?.toList ++ seen ++ idsOf places ↔
          x ∈ seen ++ idsOf (p :: places) := by
        intro x
        cases hp : p.id? with
        | none => simp [idsOf, hp]
        | some y => simp [idsOf, hp, or_left_comm]
      rw [List.cons_append, firstDefect, firstDefect, ih, firstDefect_congr hseen, Option.or_assoc]

theorem firstDefect_concat (places : List Place) (p : Place) :
    firstDefect [] (places ++ [p]) = (firstDefect [] places).or (p.defect (idsOf places)) := by
  rw [firstDefect_append]
  simp [firstDefect]

theorem defectAt_append_left {places places' : List Place} {i : Nat} (h : i < places.length) :
    defectAt (places ++ places') i = defectAt places i := by
  unfold defectAt
  rw [List.getElem?_append_left h, List.take_append_of_le_length (Nat.le_of_lt h)]

theorem defectAt_concat (places : List Place) (p : Place) :
    defectAt (places ++ [p]) places.length = p.defect (idsOf places) := by
  simp [defectAt]

theorem lt_length_of_defectAt {places : List Place} {i : Nat} {e : ScaleError}
    (h : defectAt places i = some e) : i < places.length := by
  by_contra hi
  simp [defectAt, List.getElem?_eq_none (Nat.le_of_not_lt hi)] at h

namespace IsFirstDefect

variable {places places' : List Place} {i j : Nat} {e e' : ScaleError}

theorem append (h : IsFirstDefect places i e) (places' : List Place) :
    IsFirstDefect (places ++ places') i e := by
  have hi := lt_length_of_defectAt h.defect
  constructor
  · rw [defectAt_append_left hi]
    exact h.defect
  · intro j hj
    rw [defectAt_append_left (by omega)]
    exact h.before j hj

theorem unique (h : IsFirstDefect places i e) (h' : IsFirstDefect places j e') :
    i = j ∧ e = e' := by
  have hij : i = j := by
    rcases Nat.lt_trichotomy i j with hlt | heq | hlt
    · exact absurd h.defect (by simp [h'.before i hlt])
    · exact heq
    · exact absurd h'.defect (by simp [h.before j hlt])
  subst hij
  exact ⟨rfl, Option.some_inj.1 (h.defect.symm.trans h'.defect)⟩

end IsFirstDefect

theorem defectAt_eq_none {places : List Place} (h : firstDefect [] places = none) (i : Nat) :
    defectAt places i = none := by
  induction places using List.reverseRecOn with
  | nil => rfl
  | append_singleton places p ih =>
      rw [firstDefect_concat, Option.or_eq_none_iff] at h
      rcases Nat.lt_trichotomy i places.length with hi | rfl | hi
      · rw [defectAt_append_left hi]
        exact ih h.1
      · rw [defectAt_concat]
        exact h.2
      · have hout : (places ++ [p])[i]? = none := by
          apply List.getElem?_eq_none
          simp
          omega
        simp [defectAt, hout]

theorem exists_isFirstDefect {places : List Place} {e : ScaleError}
    (h : firstDefect [] places = some e) : ∃ i, IsFirstDefect places i e := by
  induction places using List.reverseRecOn with
  | nil => simp [firstDefect] at h
  | append_singleton places p ih =>
      rw [firstDefect_concat, Option.or_eq_some_iff] at h
      rcases h with h | ⟨hnone, hp⟩
      · obtain ⟨i, hi⟩ := ih h
        exact ⟨i, hi.append [p]⟩
      · refine ⟨places.length, ?_, ?_⟩
        · rw [defectAt_concat]
          exact hp
        · intro j hj
          rw [defectAt_append_left hj]
          exact defectAt_eq_none hnone j

section

variable {fleet : φ} {seen : List InstanceId}

theorem members_eq_error_iff {ids : List InstanceId} {e : ScaleError} :
    members fleet seen ids = .error e ↔
      firstDefect seen (ids.map fun id => .member (Fleet.snapshot fleet id)) = some e := by
  induction ids generalizing seen with
  | nil => simp [members, firstDefect]
  | cons id ids ih =>
      have hid : (Fleet.snapshot fleet id).id = id := rfl
      rw [List.map_cons, firstDefect, Place.defect, hid]
      unfold members
      by_cases hseen : id ∈ seen
      · simp [hseen, throw, throwThe, MonadExceptOf.throw, bind, Except.bind]
      · by_cases hfraction : isFraction (Fleet.snapshot fleet id).utilization = true
        · have hrest : firstDefect ((Place.member (Fleet.snapshot fleet id)).id?.toList ++ seen)
              (ids.map fun id => .member (Fleet.snapshot fleet id)) = some e ↔
                members fleet (id :: seen) ids = .error e := ih.symm
          simp only [hseen, hfraction, if_false, if_true, Option.none_or, hrest]
          cases members fleet (id :: seen) ids <;>
            simp [bind, Except.bind, pure, Except.pure]
        · simp [hseen, hfraction, throw, throwThe, MonadExceptOf.throw, bind, Except.bind]

end

/-! ## Rounds -/

/-- The round of a kind, with the fleet at the time when the pool is read. -/
structure Round (φ : Type) where
  kind : Kind
  fleet : φ

namespace Round

variable (r : Round φ)

def ids : Option (List InstanceId) := Fleet.pool? r.fleet r.kind

def pool : List Snapshot := (r.ids.getD []).map (Fleet.snapshot r.fleet)

def decision (c : Config) (idle : IdleTracker) : Decision := (c.evaluate idle r.kind r.pool).2

def places : List Place := .pool r.kind r.ids :: r.pool.map .member

/-- What the fleet is asked for if nothing is wrong: the pool, then the requests. -/
def calls (c : Config) (idle : IdleTracker) : List Call :=
  .read r.kind r.ids :: (r.decision c idle).actions.map .request

end Round

/-- The rounds of kinds as they are if nothing is wrong with any place: each of them finds
the fleet that the requests for all earlier kinds have left. -/
def rounds (c : Config) (idle : IdleTracker) : φ → List Kind → List (Round φ)
  | _, [] => []
  | fleet, kind :: kinds =>
    let r : Round φ := ⟨kind, fleet⟩
    r :: rounds c idle (Fleet.applyAll fleet (r.decision c idle).actions) kinds

/-- Each round finds the fleet as the calls in the rounds before it have made it. -/
theorem fleet_eq_replay_of_rounds {c : Config} {idle : IdleTracker} {fleet : φ}
    {kinds : List Kind} {before after : List (Round φ)} {r : Round φ}
    (h : rounds c idle fleet kinds = before ++ r :: after) :
    r.fleet = Fleet.replay fleet (before.flatMap (·.calls c idle)) := by
  induction kinds generalizing fleet before with
  | nil => simp [rounds] at h
  | cons kind kinds ih =>
      cases before with
      | nil =>
          obtain ⟨rfl, -⟩ := List.cons_eq_cons.1 h
          rfl
      | cons r₀ before =>
          obtain ⟨rfl, hrest⟩ := List.cons_eq_cons.1 h
          rw [ih hrest, List.flatMap_cons, Fleet.replay_append, ← Fleet.replay_requests]
          rfl

def placesOf (rs : List (Round φ)) : List Place := rs.flatMap (·.places)

theorem firstDefect_places_iff {r : Round φ} {seen : List InstanceId} {e : ScaleError} :
    firstDefect seen r.places = some e ↔ readPool r.fleet seen r.kind = .error e := by
  unfold readPool
  cases hids : Fleet.pool? r.fleet r.kind with
  | none => simp [Round.places, Round.ids, hids, firstDefect, Place.defect]
  | some ids =>
      have hread : r.ids = some ids := hids
      have hpool : r.pool.map Place.member =
          ids.map fun id => .member (Fleet.snapshot r.fleet id) := by
        simp [Round.pool, hread]
      rw [Round.places, hread, hpool]
      exact members_eq_error_iff.symm

theorem pool_eq_of_readPool {r : Round φ} {seen : List InstanceId} {pool : List Snapshot}
    (h : readPool r.fleet seen r.kind = .ok pool) : r.pool = pool := by
  obtain ⟨ids, hids, -, rfl⟩ := readPool_eq_ok_iff.1 h
  have hread : r.ids = some ids := hids
  simp [Round.pool, hread]

theorem idsOf_places (r : Round φ) : idsOf r.places = r.pool.map (·.id) := by
  unfold idsOf Round.places
  rw [List.filterMap_cons, List.filterMap_map]
  exact congrFun List.filterMap_eq_map' _

theorem idsOf_placesOf (rs : List (Round φ)) :
    idsOf (placesOf rs) = rs.flatMap fun r => r.pool.map (·.id) := by
  induction rs with
  | nil => rfl
  | cons r rs ih =>
      have happend : idsOf (placesOf (r :: rs)) = idsOf r.places ++ idsOf (placesOf rs) := by
        simp [idsOf, placesOf]
      rw [happend, ih, idsOf_places]
      rfl

/-- What visits have done to a tick is told by the first rounds, in which nothing is wrong. -/
theorem Visits.exists_rounds {c : Config} {p q : Progress φ} {visits : List Visit}
    (h : Visits c p visits q) {idle : IdleTracker}
    (hidle : ∀ x ∈ visitedIds visits, p.idle.get? x = idle.get? x) (rest : List Kind) :
    ∃ before : List (Round φ),
      rounds c idle p.fleet (visits.map (·.1) ++ rest) = before ++ rounds c idle q.fleet rest ∧
      before.map (·.pool) = visits.map (·.2) ∧
      q.calls = p.calls ++ before.flatMap (·.calls c idle) ∧
      firstDefect p.seen (placesOf before) = none := by
  induction h with
  | nil p => exact ⟨[], rfl, rfl, by simp, rfl⟩
  | @cons p q kind pool visits hread hrest ih =>
      let r : Round φ := ⟨kind, p.fleet⟩
      have hpool : r.pool = pool := pool_eq_of_readPool hread
      have hids : r.ids = some (pool.map (·.id)) := pool?_of_readPool hread
      have hdecision : r.decision c idle = (c.evaluate p.idle kind pool).2 := by
        rw [Round.decision, hpool]
        refine Config.evaluate_congr fun x hx => (hidle x ?_).symm
        rw [visitedIds_cons]
        exact List.mem_append_left _ hx
      have hlater : ∀ x ∈ visitedIds visits,
          ((p.noteRead kind).settle c kind pool).idle.get? x = idle.get? x := by
        intro x hx
        rw [get?_settle, if_neg (not_mem_of_mem_rest hrest hx)]
        apply hidle
        rw [visitedIds_cons]
        exact List.mem_append_right _ hx
      obtain ⟨before, hrounds, hpools, hcalls, hfine⟩ := ih hlater
      refine ⟨r :: before, ?_, ?_, ?_, ?_⟩
      · change r :: rounds c idle (Fleet.applyAll p.fleet (r.decision c idle).actions) _ = _
        rw [hdecision]
        exact congrArg (r :: ·) hrounds
      · rw [List.map_cons, List.map_cons, hpools, hpool]
      · have hround : r.calls c idle = .read kind (Fleet.pool? p.fleet kind) ::
            (c.evaluate p.idle kind pool).2.actions.map .request := by
          rw [Round.calls, hdecision]
          rfl
        have hsettle : ((p.noteRead kind).settle c kind pool).calls =
            p.calls ++ .read kind (Fleet.pool? p.fleet kind) ::
              (c.evaluate p.idle kind pool).2.actions.map .request :=
          List.append_assoc ..
        rw [hcalls, List.flatMap_cons, hround, hsettle, List.append_assoc]
      · have hr : firstDefect p.seen r.places = none := by
          rw [Option.eq_none_iff_forall_ne_some]
          intro e he
          have herror : readPool p.fleet p.seen kind = .error e := firstDefect_places_iff.1 he
          rw [hread] at herror
          cases herror
        have hseen : p.seen ++ idsOf r.places =
            ((p.noteRead kind).settle c kind pool).seen := by
          rw [idsOf_places, hpool, seen_settle]
        change firstDefect p.seen (r.places ++ placesOf before) = none
        rw [firstDefect_append, hr, hseen, hfine]
        rfl

/-! ## Ticks -/

/-- The rounds that a tick goes through as long as nothing is wrong. -/
def roundsOf (s : Scaler) (fleet : φ) (now : Nat) : List (Round φ) :=
  rounds s.config s.idle (Fleet.sync fleet now) (Fleet.kinds (Fleet.sync fleet now))

section

variable {s : Scaler} {fleet : φ} {now : Nat}

theorem rounds_of_tick_ok {r : TickReport} (h : (s.tick fleet now).result = .ok r) :
    firstDefect [] (placesOf (s.roundsOf fleet now)) = none ∧
    (s.tick fleet now).calls =
      .sync now :: (s.roundsOf fleet now).flatMap (·.calls s.config s.idle) := by
  obtain ⟨visits, q, hvisits, hkinds, htick, -⟩ := tick_of_ok h
  obtain ⟨before, hrounds, -, hcalls, hfine⟩ := hvisits.exists_rounds (fun _ _ => rfl) []
  have hall : s.roundsOf fleet now = before := by
    rw [hkinds, List.append_nil, rounds, List.append_nil] at hrounds
    exact hrounds
  rw [hall, htick]
  exact ⟨hfine, hcalls⟩

/-- What a failed tick has done. -/
structure HasStopped (s : Scaler) (fleet : φ) (now : Nat) (before : List (Round φ))
    (r : Round φ) : Prop where
  /-- The kinds before the failing one were decided for, and this one was only read. -/
  calls : (s.tick fleet now).calls =
    .sync now :: (before.flatMap (·.calls s.config s.idle) ++ [.read r.kind r.ids])
  left : (s.tick fleet now).fleet = r.fleet
  idle : ∀ x, (∀ r' ∈ before, x ∉ r'.pool.map (·.id)) →
    (s.tick fleet now).scaler.idle.get? x = s.idle.get? x

theorem exists_hasStopped {e : ScaleError} (h : (s.tick fleet now).result = .error e) :
    ∃ before r after, s.roundsOf fleet now = before ++ r :: after ∧
      firstDefect [] (placesOf before) = none ∧
      firstDefect (idsOf (placesOf before)) r.places = some e ∧
      s.HasStopped fleet now before r := by
  obtain ⟨visits, q, kind, rest, hvisits, hkinds, hread, htick⟩ := tick_of_error h
  obtain ⟨before, hrounds, hpools, hcalls, hfine⟩ :=
    hvisits.exists_rounds (fun _ _ => rfl) (kind :: rest)
  rw [← hkinds] at hrounds
  have hids : visitedIds visits = before.flatMap fun r => r.pool.map (·.id) := by
    have hflat := congrArg (List.flatMap (List.map Snapshot.id)) hpools
    rw [List.flatMap_map, List.flatMap_map] at hflat
    exact hflat.symm
  have hseen : q.seen = idsOf (placesOf before) := by
    rw [hvisits.seen_eq, idsOf_placesOf, ← hids]
    rfl
  refine ⟨before, ⟨kind, q.fleet⟩, _, hrounds, hfine, ?_, ?_, ?_, ?_⟩
  · rw [firstDefect_places_iff, ← hseen]
    exact hread
  · rw [htick]
    change q.calls ++ [_] = _
    rw [hcalls]
    rfl
  · rw [htick]
  · intro x hx
    have hnot : x ∉ visitedIds visits := by
      rw [hids]
      intro hmem
      obtain ⟨r', hr', hxr'⟩ := List.mem_flatMap.1 hmem
      exact hx r' hr' hxr'
    have hidle := hvisits.get?_idle x
    rw [if_neg hnot] at hidle
    rw [htick]
    exact hidle

/-- A tick that fails stops in the round of the first defect. -/
theorem exists_isFirstDefect_of_error {e : ScaleError}
    (h : (s.tick fleet now).result = .error e) :
    ∃ i before r after, IsFirstDefect (placesOf (s.roundsOf fleet now)) i e ∧
      s.roundsOf fleet now = before ++ r :: after ∧
      (placesOf before).length ≤ i ∧ i < (placesOf before).length + r.places.length ∧
      s.HasStopped fleet now before r := by
  obtain ⟨before, r, after, hrs, hfine, hdefect, hstopped⟩ := exists_hasStopped h
  have hfirst : firstDefect [] (placesOf before ++ r.places) = some e := by
    rw [firstDefect_append, hfine, Option.none_or]
    exact hdefect
  obtain ⟨i, hi⟩ := exists_isFirstDefect hfirst
  have hlt := lt_length_of_defectAt hi.defect
  rw [List.length_append] at hlt
  have hge : (placesOf before).length ≤ i := by
    by_contra hcontra
    have hnone := hi.defect
    rw [defectAt_append_left (by omega), defectAt_eq_none hfine] at hnone
    cases hnone
  have hplaces : placesOf (s.roundsOf fleet now) =
      placesOf before ++ r.places ++ placesOf after := by
    rw [hrs]
    simp [placesOf]
  refine ⟨i, before, r, after, ?_, hrs, hge, hlt, hstopped⟩
  rw [hplaces]
  exact hi.append _

theorem result_eq_error_of_isFirstDefect {i : Nat} {e : ScaleError}
    (h : IsFirstDefect (placesOf (s.roundsOf fleet now)) i e) :
    (s.tick fleet now).result = .error e := by
  cases hresult : (s.tick fleet now).result with
  | ok r =>
      have hnone := h.defect
      rw [defectAt_eq_none (rounds_of_tick_ok hresult).1] at hnone
      cases hnone
  | error e' =>
      obtain ⟨j, -, -, -, hj, -⟩ := exists_isFirstDefect_of_error hresult
      rw [(h.unique hj).2]

end

/-- A tick fails just if something is wrong with a place that it would look at, and then with
what is wrong at the first such place.  Up to there it has carried out the decisions for the
kinds before, and it does nothing more: the idle counts of instances outside the pools of
these kinds stay as they were.  Each round finds the fleet, and the tick leaves it, as the
calls up to then have made it. -/
theorem tick_stops_at_first_defect (s : Scaler) (fleet : φ) (now : Nat) :
    let rs := s.roundsOf fleet now
    let t := s.tick fleet now
    (t.result.isOk = false ↔ ∃ i e, defectAt (placesOf rs) i = some e) ∧
    (∀ e, t.result = .error e ↔ ∃ i, IsFirstDefect (placesOf rs) i e) ∧
    (∀ i e, IsFirstDefect (placesOf rs) i e →
      ∃ before r after, rs = before ++ r :: after ∧
        (placesOf before).length ≤ i ∧ i < (placesOf before).length + r.places.length ∧
        s.HasStopped fleet now before r) ∧
    (t.result.isOk = true →
      t.calls = .sync now :: rs.flatMap (·.calls s.config s.idle)) ∧
    (∀ before r after, rs = before ++ r :: after →
      r.fleet = Fleet.replay fleet (.sync now :: before.flatMap (·.calls s.config s.idle))) ∧
    t.fleet = Fleet.replay fleet t.calls ∧
    t.scaler.ticks = s.ticks + 1 := by
  intro rs t
  refine ⟨?_, fun e => ⟨fun he => ?_, ?_⟩, fun i e hi => ?_, fun hok => ?_,
    fun before r after hrs => fleet_eq_replay_of_rounds hrs, fleet_tick_eq_replay s fleet now, rfl⟩
  · cases hresult : t.result with
    | ok r =>
        simp [defectAt_eq_none (rounds_of_tick_ok hresult).1, Except.isOk, Except.toBool, rs]
    | error e =>
        obtain ⟨i, -, -, -, hi, -⟩ := exists_isFirstDefect_of_error hresult
        simp only [Except.isOk, Except.toBool, true_iff]
        exact ⟨i, e, hi.defect⟩
  · obtain ⟨i, -, -, -, hi, -⟩ := exists_isFirstDefect_of_error he
    exact ⟨i, hi⟩
  · rintro ⟨i, hi⟩
    exact result_eq_error_of_isFirstDefect hi
  · obtain ⟨j, before, r, after, hj, hrest⟩ :=
      exists_isFirstDefect_of_error (result_eq_error_of_isFirstDefect hi)
    rw [(hi.unique hj).1]
    exact ⟨before, r, after, hrest⟩
  · obtain ⟨r, hr⟩ := exists_ok_of_isOk hok
    exact (rounds_of_tick_ok hr).2

/-- A fleet whose kinds share one pool.  It carries out every request, gives a new instance
the first id that is free, and overstates the load from the second instance on. -/
structure SharedPool where
  kinds : List Kind
  pool : List InstanceId := []
  created : Nat := 0
  clock : Nat := 0
deriving DecidableEq

instance : Fleet SharedPool where
  kinds f := f.kinds
  pool? f _ := some f.pool
  create f _ := { f with pool := f.pool ++ [f.pool.length + 1], created := f.created + 1 }
  destroy f _ id := { f with pool := f.pool.erase id }
  sync f now := { f with clock := now }
  utilization f _ := if f.created ≤ 1 then 0.0 else 1.5
  isBusy _ _ := false

/-- The instance that one kind starts is retired by the next one, and its successor is found
to have the same id. -/
theorem tick_stops_at_first_defect_reused :
    let s : Scaler := { config := { idleGraceTicks := 1 } }
    let fleet : SharedPool := { kinds := ["api", "batch", "db", "web", "zoo"] }
    let calls : List Call :=
      [.sync 60, .read "api" (some []), .request (.create "api"),
        .read "batch" (some [1]), .request (.destroy "batch" 1),
        .read "db" (some []), .request (.create "db"), .read "web" (some [1])]
    IsFirstDefect (placesOf (s.roundsOf fleet 60)) 5 (.duplicateInstance 1) ∧
    (s.tick fleet 60).result = .error (.duplicateInstance 1) ∧
    (s.tick fleet 60).calls = calls ∧
    (s.tick fleet 60).fleet = Fleet.replay fleet calls ∧
    Fleet.replay fleet calls = { fleet with pool := [1], created := 2, clock := 60 } ∧
    ∃ before r after, s.roundsOf fleet 60 = before ++ r :: after ∧
      r.fleet = Fleet.replay fleet (.sync 60 :: before.flatMap (·.calls s.config s.idle)) ∧
      s.HasStopped fleet 60 before r := by
  intro s fleet calls
  have hfirst : IsFirstDefect (placesOf (s.roundsOf fleet 60)) 5 (.duplicateInstance 1) :=
    ⟨by decide +kernel, by decide +kernel⟩
  have hcalls : (s.tick fleet 60).calls = calls := by decide +kernel
  obtain ⟨-, herror, hstop, -, hround, hleft, -⟩ := tick_stops_at_first_defect s fleet 60
  obtain ⟨before, r, after, hrs, -, -, hstopped⟩ := hstop 5 _ hfirst
  exact ⟨hfirst, (herror _).2 ⟨5, hfirst⟩, hcalls, hcalls ▸ hleft, by decide +kernel,
    before, r, after, hrs, hround before r after hrs, hstopped⟩

end FleetSizing.Scaler
