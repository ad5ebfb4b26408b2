import FleetSizing.Proofs.Scaler.Judgement
import Mathlib.Data.List.Nodup
/-!
# Visits

A tick is a sequence of visits, each of which reads the pool of a kind and settles it.
What the visits so far have read, decided and left of the idle counts is told by the
pools that they have read and by the idle counts at the start.
-/

namespace FleetSizing.Scaler

open IdleTracker

variable {φ : Type} [Fleet φ]

/-- Nothing is wrong with a pool of these instances after the instances `seen`. -/
structure IsReadable (fleet : φ) (seen ids : List InstanceId) : Prop where
  nodup : ids.Nodup
  fresh : ∀ id ∈ ids, id ∉ seen
  isFraction : ∀ id ∈ ids, isFraction (Fleet.utilization fleet id) = true

theorem isReadable_cons_iff {fleet : φ} {seen ids : List InstanceId} {id : InstanceId} :
    IsReadable fleet seen (id :: ids) ↔
      id ∉ seen ∧ isFraction (Fleet.utilization fleet id) = true ∧
        IsReadable fleet (id :: seen) ids := by
  constructor
  · rintro ⟨hnodup, hfresh, hfraction⟩
    obtain ⟨hid, hids⟩ := List.nodup_cons.1 hnodup
    refine ⟨hfresh id (List.mem_cons_self ..), hfraction id (List.mem_cons_self ..), hids, ?_, ?_⟩
    · intro x hx hmem
      rcases List.mem_cons.1 hmem with rfl | hseen
      · exact hid hx
      · exact hfresh x (List.mem_cons_of_mem _ hx) hseen
    · intro x hx
      exact hfraction x (List.mem_cons_of_mem _ hx)
  · rintro ⟨hid, hvalue, hnodup, hfresh, hfraction⟩
    refine ⟨List.nodup_cons.2 ⟨fun hmem => ?_, hnodup⟩, ?_, ?_⟩
    · exact hfresh id hmem (List.mem_cons_self ..)
    · intro x hx hseen
      rcases List.mem_cons.1 hx with rfl | hx
      · exact hid hseen
      · exact hfresh x hx (List.mem_cons_of_mem _ hseen)
    · intro x hx
      rcases List.mem_cons.1 hx with rfl | hx
      · exact hvalue
      · exact hfraction x hx

theorem members_eq_ok_iff {fleet : φ} {seen ids : List InstanceId} {pool : List Snapshot} :
    members fleet seen ids = .ok pool ↔
      IsReadable fleet seen ids ∧ pool = ids.map (Fleet.snapshot fleet) := by
  induction ids generalizing seen pool with
  | nil =>
      have hnil : IsReadable fleet seen [] := ⟨List.nodup_nil, nofun, nofun⟩
      simp [members, hnil, eq_comm]
  | cons id ids ih =>
      have hvalue : (Fleet.snapshot fleet id).utilization = Fleet.utilization fleet id := rfl
      rw [isReadable_cons_iff]
      unfold members
      by_cases hseen : id ∈ seen
      · simp [hseen, throw, throwThe, MonadExceptOf.throw, bind, Except.bind]
      cases hfraction : isFraction (Fleet.utilization fleet id) with
      | false =>
          simp [hseen, hvalue, hfraction, throw, throwThe, MonadExceptOf.throw, bind,
            Except.bind]
      | true =>
          simp only [hseen, hvalue, hfraction, if_false, bind, Except.bind, pure, Except.pure,
            Bool.not_true, Bool.false_eq_true]
          cases hrest : members fleet (id :: seen) ids with
          | error e =>
              have hnot : ¬ IsReadable fleet (id :: seen) ids := by
                intro hread
                have h := ih.2 ⟨hread, rfl⟩
                rw [hrest] at h
                cases h
              simp [hnot]
          | ok rest =>
              obtain ⟨hread, rfl⟩ := ih.1 hrest
              simp [hread, eq_comm]

theorem readPool_eq_ok_iff {fleet : φ} {seen : List InstanceId} {kind : Kind}
    {pool : List Snapshot} :
    readPool fleet seen kind = .ok pool ↔
      ∃ ids, Fleet.pool? fleet kind = some ids ∧ IsReadable fleet seen ids ∧
        pool = ids.map (Fleet.snapshot fleet) := by
  unfold readPool
  cases Fleet.pool? fleet kind with
  | none => simp
  | some ids => simp [members_eq_ok_iff]

theorem map_id_snapshot (fleet : φ) (ids : List InstanceId) :
    (ids.map (Fleet.snapshot fleet)).map (·.id) = ids := by
  rw [List.map_map]
  exact List.map_id ids

theorem pool?_of_readPool {fleet : φ} {seen : List InstanceId} {kind : Kind}
    {pool : List Snapshot} (h : readPool fleet seen kind = .ok pool) :
    Fleet.pool? fleet kind = some (pool.map (·.id)) := by
  obtain ⟨ids, hids, -, rfl⟩ := readPool_eq_ok_iff.1 h
  rw [hids, map_id_snapshot]

theorem isReadable_of_readPool {fleet : φ} {seen : List InstanceId} {kind : Kind}
    {pool : List Snapshot} (h : readPool fleet seen kind = .ok pool) :
    IsReadable fleet seen (pool.map (·.id)) := by
  obtain ⟨ids, -, hread, rfl⟩ := readPool_eq_ok_iff.1 h
  rwa [map_id_snapshot]

/-! ## Sequences of visits -/

abbrev Visit := Kind × List Snapshot

def visitedIds (visits : List Visit) : List InstanceId :=
  visits.flatMap fun v => v.2.map (·.id)

theorem visitedIds_cons (v : Visit) (visits : List Visit) :
    visitedIds (v :: visits) = v.2.map (·.id) ++ visitedIds visits := rfl

theorem nodup_filterMap {visits : List Visit} (h : (visitedIds visits).Nodup)
    {f : Visit → Option InstanceId} (hf : ∀ v x, f v = some x → x ∈ v.2.map (·.id)) :
    (visits.filterMap f).Nodup := by
  refine (List.nodup_flatMap.1 h).2.filterMap f ?_
  rintro v w hdisjoint x hx y hy rfl
  exact hdisjoint (hf v x hx) (hf w x hy)

theorem seen_settle (c : Config) (p : Progress φ) (kind : Kind) (pool : List Snapshot) :
    ((p.noteRead kind).settle c kind pool).seen = p.seen ++ pool.map (·.id) := by
  change (p.pools ++ [pool]).flatten.map (·.id) = _
  rw [List.flatten_append, List.flatten_singleton, List.map_append]
  rfl

/-- The visits lead from one state of a tick to another. -/
inductive Visits (c : Config) : Progress φ → List Visit → Progress φ → Prop where
  | nil (p : Progress φ) : Visits c p [] p
  | cons {p q : Progress φ} {kind : Kind} {pool : List Snapshot} {visits : List Visit}
      (hread : readPool p.fleet p.seen kind = .ok pool)
      (hrest : Visits c ((p.noteRead kind).settle c kind pool) visits q) :
      Visits c p ((kind, pool) :: visits) q

/-- A tick ends after visits to all kinds, or in a read that fails. -/
theorem visitAll_cases (c : Config) (p : Progress φ) (kinds : List Kind) :
    (∃ visits q, Visits c p visits q ∧ visits.map (·.1) = kinds ∧
      visitAll c p kinds = (q, .ok ())) ∨
    ∃ visits q kind rest e, Visits c p visits q ∧ kinds = visits.map (·.1) ++ kind :: rest ∧
      readPool q.fleet q.seen kind = .error e ∧
      visitAll c p kinds = (q.noteRead kind, .error e) := by
  induction kinds generalizing p with
  | nil => exact Or.inl ⟨[], p, .nil p, rfl, rfl⟩
  | cons kind kinds ih =>
      unfold visitAll
      cases hread : readPool p.fleet p.seen kind with
      | error e => exact Or.inr ⟨[], p, kind, kinds, e, .nil p, rfl, hread, rfl⟩
      | ok pool =>
          rcases ih ((p.noteRead kind).settle c kind pool) with
            ⟨visits, q, hvisits, rfl, heq⟩ | ⟨visits, q, kind', rest, e, hvisits, rfl, he, heq⟩
          · exact Or.inl ⟨_, q, .cons hread hvisits, rfl, heq⟩
          · exact Or.inr ⟨_, q, kind', rest, e, .cons hread hvisits, rfl, he, heq⟩

theorem visitAll_of_visits {c : Config} {p q : Progress φ} {visits : List Visit}
    (h : Visits c p visits q) : visitAll c p (visits.map (·.1)) = (q, .ok ()) := by
  induction h with
  | nil p => rfl
  | cons hread hrest ih =>
      rw [List.map_cons, visitAll, hread]
      exact ih

namespace Visits

variable {c : Config} {p q : Progress φ} {visits : List Visit}

theorem pools_eq (h : Visits c p visits q) : q.pools = p.pools ++ visits.map (·.2) := by
  induction h with
  | nil p => simp
  | cons hread hrest ih =>
      rw [ih]
      exact List.append_assoc ..

theorem seen_eq (h : Visits c p visits q) : q.seen = p.seen ++ visitedIds visits := by
  unfold Progress.seen visitedIds
  rw [h.pools_eq, List.flatten_append, List.map_append, ← List.flatMap_def, List.map_flatMap]

theorem nodup_seen (h : Visits c p visits q) (hp : p.seen.Nodup) : q.seen.Nodup := by
  induction h with
  | nil p => exact hp
  | @cons p q kind pool visits hread hrest ih =>
      apply ih
      have hpool := isReadable_of_readPool hread
      rw [seen_settle, List.nodup_append]
      refine ⟨hp, hpool.nodup, ?_⟩
      rintro x hx y hy rfl
      exact hpool.fresh x hy hx

theorem not_mem_seen (h : Visits c p visits q) {x : InstanceId} (hx : x ∈ visitedIds visits) :
    x ∉ p.seen := by
  induction h with
  | nil p => cases hx
  | @cons p q kind pool visits hread hrest ih =>
      rcases List.mem_append.1 hx with hx | hx
      · exact (isReadable_of_readPool hread).fresh x hx
      · intro hseen
        refine ih hx ?_
        rw [seen_settle]
        exact List.mem_append_left _ hseen

theorem not_mem_of_mem_rest {kind : Kind} {pool : List Snapshot}
    (hrest : Visits c ((p.noteRead kind).settle c kind pool) visits q) {x : InstanceId}
    (hx : x ∈ visitedIds visits) : x ∉ pool.map (·.id) := by
  intro hpool
  refine hrest.not_mem_seen hx ?_
  rw [seen_settle]
  exact List.mem_append_right _ hpool

theorem get?_settle (kind : Kind) (pool : List Snapshot) (x : InstanceId) :
    ((p.noteRead kind).settle c kind pool).idle.get? x =
      if x ∈ pool.map (·.id) then
        if idleSole? pool = some x then kept c.idleGraceTicks (p.idle.next x) else none
      else p.idle.get? x :=
  Config.get?_judge x

/-- What visits leave of the idle counts: idle sole instances that were read are counted,
the others that were read are forgotten, and the rest stays. -/
theorem get?_idle (h : Visits c p visits q) (x : InstanceId) :
    q.idle.get? x =
      if x ∈ visitedIds visits then
        if x ∈ (visits.map (·.2)).filterMap idleSole? then
          kept c.idleGraceTicks (p.idle.next x)
        else none
      else p.idle.get? x := by
  induction h with
  | nil p => rfl
  | @cons p q kind pool visits hread hrest ih =>
      rw [ih, visitedIds_cons]
      have hsettle := get?_settle (c := c) (p := p) kind pool x
      by_cases hvisits : x ∈ visitedIds visits
      · -- What is read later was not in this pool, so that its count is the one at the start.
        have hpool := not_mem_of_mem_rest hrest hvisits
        have hsole : idleSole? pool ≠ some x := fun h => hpool (mem_of_idleSole? h)
        rw [if_neg hpool] at hsettle
        simp only [hvisits, next_eq hsettle, List.mem_append, or_true, if_true, List.map_cons,
          List.mem_filterMap, List.mem_cons, exists_eq_or_imp, hsole, false_or]
      · have hlater : x ∉ (visits.map (·.2)).filterMap idleSole? := by
          intro hmem
          obtain ⟨pool', hpool', hx⟩ := List.mem_filterMap.1 hmem
          obtain ⟨v, hv, rfl⟩ := List.mem_map.1 hpool'
          exact hvisits (List.mem_flatMap.2 ⟨v, hv, mem_of_idleSole? hx⟩)
        rw [if_neg hvisits, hsettle]
        rw [List.mem_filterMap] at hlater
        simp only [hvisits, List.mem_append, or_false, List.map_cons, List.mem_filterMap,
          List.mem_cons, exists_eq_or_imp, hlater]

theorem decisions_eq (h : Visits c p visits q) :
    q.decisions = p.decisions ++ visits.map fun v => (c.evaluate p.idle v.1 v.2).2 := by
  induction h with
  | nil p => simp
  | @cons p q kind pool visits hread hrest ih =>
      have hlater : visits.map (fun v => (c.evaluate
          ((p.noteRead kind).settle c kind pool).idle v.1 v.2).2) =
            visits.map fun v => (c.evaluate p.idle v.1 v.2).2 := by
        refine List.map_congr_left fun v hv => Config.evaluate_congr fun x hx => ?_
        have hx' : x ∈ visitedIds visits := List.mem_flatMap.2 ⟨v, hv, hx⟩
        rw [get?_settle, if_neg (not_mem_of_mem_rest hrest hx')]
      rw [ih, hlater]
      exact List.append_assoc ..

theorem get?_idle_of_readPool (h : Visits c p visits q) {kind : Kind} {pool : List Snapshot}
    (hread : readPool q.fleet q.seen kind = .ok pool) {x : InstanceId}
    (hx : x ∈ pool.map (·.id)) : q.idle.get? x = p.idle.get? x := by
  have hfresh := (isReadable_of_readPool hread).fresh x hx
  rw [h.seen_eq, List.mem_append, not_or] at hfresh
  rw [h.get?_idle, if_neg hfresh.2]

theorem exists_split {before after : List Visit} {v : Visit}
    (h : Visits c p (before ++ v :: after) q) :
    ∃ m, Visits c p before m ∧ readPool m.fleet m.seen v.1 = .ok v.2 ∧
      Visits c ((m.noteRead v.1).settle c v.1 v.2) after q := by
  induction before generalizing p with
  | nil =>
      cases h with
      | cons hread hrest => exact ⟨p, .nil p, hread, hrest⟩
  | cons w before ih =>
      cases h with
      | cons hread hrest =>
          obtain ⟨m, hbefore, hv, hafter⟩ := ih hrest
          exact ⟨m, .cons hread hbefore, hv, hafter⟩

end Visits

end FleetSizing.Scaler
