import FleetSizing.Proofs.SimulatedFleet.Kinds
/-!
# Fleets with a directory

A simulated fleet can be kept as two maps: each pool lists the ids of its instances, and a
directory of all instances tells the kind and the state of each.  Every operation then acts
on both maps.  As long as they agree on which instance belongs to which kind, they show a
fleet whose pools hold their instances, and the operations on both commute with that view.
-/

namespace FleetSizing

namespace SortedMap

variable {α β γ : Type} [Ord α]

/-- Changes each value by what `f` makes of it and its key. -/
def mapEntries (f : α → β → γ) (m : SortedMap α β) : SortedMap α γ :=
  ⟨m.toList.map fun a => (a.1, f a.1 a.2), m.sorted.map _ fun _ _ h => h⟩

variable [Std.LawfulEqOrd α]

theorem get?_mapEntries (f : α → β → γ) (m : SortedMap α β) (k : α) :
    (m.mapEntries f).get? k = (m.get? k).map (f k) := by
  refine Option.ext fun v => ?_
  rw [get?_eq_some_iff, Option.map_eq_some_iff]
  simp only [get?_eq_some_iff, mapEntries, List.mem_map, Prod.mk.injEq]
  constructor
  · rintro ⟨a, ha, rfl, rfl⟩
    exact ⟨a.2, ha, rfl⟩
  · rintro ⟨w, hw, rfl⟩
    exact ⟨(k, w), hw, rfl, rfl⟩

variable [Std.TransOrd α]

theorem toList_insert_of_lt {m : SortedMap α β} {k : α} (h : ∀ k' ∈ m.keys, compare k' k = .lt)
    (v : β) : (m.insert k v).toList = m.toList ++ [(k, v)] := by
  have hupdate (entries : List (α × β)) (hentries : ∀ a ∈ entries, compare a.1 k = .lt) :
      update k (fun _ => some v) entries = entries ++ [(k, v)] := by
    induction entries with
    | nil => rfl
    | cons a entries ih =>
        obtain ⟨ha, hrest⟩ := List.forall_mem_cons.1 hentries
        have hgt : compare k a.1 = .gt := Std.OrientedCmp.gt_iff_lt.2 ha
        simp only [update, hgt, ih hrest, List.cons_append]
  exact hupdate m.toList fun a ha => h a.1 (List.mem_map_of_mem ha)

variable [DecidableEq α]

theorem toList_erase (m : SortedMap α β) (k : α) :
    (m.erase k).toList = m.toList.filter (·.1 ≠ k) := by
  have heq : m.erase k = m.filter fun k' _ => k' ≠ k := by
    refine ext_get? fun k' => ?_
    rw [get?_erase, get?_filter]
    by_cases hk : k' = k
    · rw [if_pos hk]
      cases m.get? k' <;> simp [hk, Option.filter]
    · rw [if_neg hk]
      cases m.get? k' <;> simp [hk, Option.filter]
  rw [heq]
  rfl

end SortedMap

/-! ## Directories -/

/-- An instance in a directory. -/
structure Resident where
  kind : Kind
  running : Option Nat := none
  window : Window

def Resident.toInstance (id : InstanceId) (r : Resident) : Instance where
  id := id
  running := r.running
  window := r.window

/-- The state of one kind, with the ids of its instances only. -/
structure Roster where
  /-- The ids of the instances, the oldest first. -/
  ids : List InstanceId := []
  /-- The remaining seconds of the waiting jobs, the next one first. -/
  backlog : List Nat := []
  created : Nat := 0
  destroyed : Nat := 0
  /-- The largest number of instances there have been. -/
  peak : Nat := 0
  submitted : Nat := 0
  completed : Nat := 0

namespace Roster

def pool (p : Roster) (members : List Instance) : Pool where
  instances := members
  backlog := p.backlog
  created := p.created
  destroyed := p.destroyed
  peak := p.peak
  submitted := p.submitted
  completed := p.completed

def enlist (p : Roster) (id : InstanceId) : Roster :=
  { p with
    ids := p.ids ++ [id]
    created := p.created + 1
    peak := max p.peak (p.ids.length + 1) }

theorem pool_enlist {p : Roster} {members : List Instance} (h : p.ids.length = members.length)
    (id : InstanceId) (capacity : Nat) :
    (p.enlist id).pool (members ++ [{ id, window := .ofCapacity capacity }]) =
      (p.pool members).add id capacity := by
  unfold enlist
  rw [h]
  rfl

def strike (p : Roster) (id : InstanceId) (r : Resident) : Roster :=
  { p with
    ids := p.ids.filter (· ≠ id)
    destroyed := p.destroyed + 1
    backlog := r.running.toList ++ p.backlog }

theorem pool_strike {p : Roster} {members : List Instance} {id : InstanceId} {r : Resident}
    (h : members.find? (·.id = id) = some (r.toInstance id)) :
    (p.strike id r).pool (members.filter (·.id ≠ id)) = (p.pool members).remove id := by
  have hfind : (p.pool members).find? id = some (r.toInstance id) := h
  rw [Pool.remove, hfind]
  rfl

def submit (p : Roster) (seconds count : Nat) : Roster :=
  { p with
    backlog := p.backlog ++ List.replicate count seconds
    submitted := p.submitted + count }

def work (p : Roster) (seconds : Nat) (members : List Instance) : Roster :=
  { p with
    backlog := (turns seconds members p.backlog).2
    completed := p.completed + sumOf (·.completed) (turns seconds members p.backlog).1 }

end Roster

structure Directory where
  tickSeconds : Nat
  tickSeconds_pos : 0 < tickSeconds
  windowTicks : Nat
  pools : SortedMap Kind Roster := ∅
  /-- All instances, in the order of their ids. -/
  instances : SortedMap InstanceId Resident := ∅
  arrivals : List Arrival := []
  lastId : InstanceId := 0
  tick : Nat := 0

/-- The turn of one instance, which takes jobs from the backlog of its kind. -/
def Resident.work (seconds : Nat) (pools : SortedMap Kind Roster) (r : Resident) :
    SortedMap Kind Roster × Resident :=
  match pools.get? r.kind with
  | none => (pools, r)
  | some p =>
    let (turn, backlog) := serve seconds (r.running.toList ++ p.backlog)
    (pools.insert r.kind { p with backlog, completed := p.completed + turn.completed },
      { r with
        running := turn.running
        window := r.window.record (Float.ofNat turn.used / Float.ofNat seconds) })

/-- The turns of all instances, in the order of their ids. -/
def workAll (seconds : Nat) : SortedMap Kind Roster → List (InstanceId × Resident) →
    SortedMap Kind Roster × List (InstanceId × Resident)
  | pools, [] => (pools, [])
  | pools, (id, r) :: rest =>
    let (pools, r) := r.work seconds pools
    let (pools, rest) := workAll seconds pools rest
    (pools, (id, r) :: rest)

theorem Resident.kind_work (seconds : Nat) (pools : SortedMap Kind Roster) (r : Resident) :
    (r.work seconds pools).2.kind = r.kind := by
  unfold work
  split <;> rfl

theorem map_workAll (seconds : Nat) (pools : SortedMap Kind Roster)
    (entries : List (InstanceId × Resident)) :
    (workAll seconds pools entries).2.map (fun e => (e.1, e.2.kind)) =
      entries.map fun e => (e.1, e.2.kind) := by
  induction entries generalizing pools with
  | nil => rfl
  | cons e entries ih =>
      obtain ⟨id, r⟩ := e
      refine List.cons_eq_cons.2 ⟨Prod.ext rfl (r.kind_work seconds pools), ih _⟩

theorem map_fst_workAll (seconds : Nat) (pools : SortedMap Kind Roster)
    (entries : List (InstanceId × Resident)) :
    (workAll seconds pools entries).2.map (·.1) = entries.map (·.1) := by
  have hids := congrArg (List.map (·.1)) (map_workAll seconds pools entries)
  rwa [List.map_map, List.map_map] at hids

namespace Directory

/-- The empty directory with the tick and the window of a configuration. -/
def ofConfig (c : Config) : Except ConfigError Directory := do
  let f ← SimulatedFleet.ofConfig c
  return { tickSeconds := f.tickSeconds, tickSeconds_pos := f.tickSeconds_pos,
           windowTicks := f.windowTicks }

def register (d : Directory) (kind : Kind) : Directory :=
  { d with pools := d.pools.upsert kind {} id }

def load (d : Directory) (t : Trace) : Directory × Except TraceError Unit :=
  let d := t.allKinds.foldl register d
  match t.arrivals with
  | .error e => (d, .error e)
  | .ok arrivals => ({ d with arrivals := SimulatedFleet.schedule (arrivals ++ d.arrivals) }, .ok ())

def create (d : Directory) (kind : Kind) : Directory :=
  let id := d.lastId + 1
  { d with
    pools := d.pools.upsert kind {} (·.enlist id)
    instances := d.instances.insert id { kind, window := .ofCapacity d.windowTicks }
    lastId := id }

/-- Removes an instance, whatever kind is named, from the pool of its own kind. -/
def destroy (d : Directory) (id : InstanceId) : Directory :=
  match d.instances.get? id with
  | none => d
  | some r =>
    { d with
      pools := d.pools.upsert r.kind {} (·.strike id r)
      instances := d.instances.erase id }

def submit (d : Directory) (a : Arrival) : Directory :=
  { d with pools := d.pools.upsert a.kind {} (·.submit a.seconds a.count) }

def receive (d : Directory) : Directory :=
  let isDue (a : Arrival) : Bool := a.tick ≤ d.tick
  (d.arrivals.takeWhile isDue).foldl submit { d with arrivals := d.arrivals.dropWhile isDue }

def work (d : Directory) : Directory :=
  { d with
    pools := (workAll d.tickSeconds d.pools d.instances.toList).1
    instances :=
      ⟨(workAll d.tickSeconds d.pools d.instances.toList).2, by
        have hkeys := map_fst_workAll d.tickSeconds d.pools d.instances.toList
        have hsorted := d.instances.pairwise_keys
        rw [SortedMap.keys, ← hkeys] at hsorted
        exact List.pairwise_map.1 hsorted⟩ }

def advance (d : Directory) : Directory := { d with tick := d.tick + 1 }.receive.work

instance : Fleet Directory where
  kinds d := d.pools.keys
  pool? d kind := (d.pools.get? kind).map (·.ids)
  create d kind := d.create kind
  destroy d _ id := d.destroy id
  sync d _ := d.advance
  utilization d id := ((d.instances.get? id).map (·.window.average)).getD 0.0
  isBusy d id := (d.instances.get? id).any (·.running.isSome)

/-! ## The view of a directory -/

/-- The instances of a kind, the oldest first. -/
def membersOf (kind : Kind) (entries : List (InstanceId × Resident)) : List Instance :=
  (entries.filter (·.2.kind = kind)).map fun e => e.2.toInstance e.1

def members (d : Directory) (kind : Kind) : List Instance := membersOf kind d.instances.toList

def view (d : Directory) : SimulatedFleet where
  tickSeconds := d.tickSeconds
  tickSeconds_pos := d.tickSeconds_pos
  windowTicks := d.windowTicks
  pools := d.pools.mapEntries fun kind p => p.pool (d.members kind)
  arrivals := d.arrivals
  lastId := d.lastId
  tick := d.tick

/-- The pool of a kind in its directory form, an empty one for an unknown kind. -/
def rosterD (d : Directory) (kind : Kind) : Roster := (d.pools.get? kind).getD {}

/-- The two maps agree on the instances of each kind, and the ids are those given so far. -/
structure IsConsistent (d : Directory) : Prop where
  listed : ∀ kind, (d.rosterD kind).ids = (d.members kind).map (·.id)
  given : ∀ id ∈ d.instances.keys, 1 ≤ id ∧ id ≤ d.lastId

variable {d : Directory} {kind : Kind} {id : InstanceId}

theorem get?_view (d : Directory) (kind : Kind) :
    d.view.pools.get? kind = (d.pools.get? kind).map (·.pool (d.members kind)) :=
  SortedMap.get?_mapEntries ..

theorem IsConsistent.poolD_view (hd : d.IsConsistent) (kind : Kind) :
    d.view.poolD kind = (d.rosterD kind).pool (d.members kind) := by
  have hlisted := hd.listed kind
  unfold SimulatedFleet.poolD rosterD at *
  rw [get?_view]
  cases hp : d.pools.get? kind with
  | none =>
      rw [hp] at hlisted
      rw [List.map_eq_nil_iff.1 hlisted.symm]
      rfl
  | some p => rfl

theorem membersOf_cons (kind : Kind) (id : InstanceId) (r : Resident)
    (entries : List (InstanceId × Resident)) :
    membersOf kind ((id, r) :: entries) =
      if r.kind = kind then r.toInstance id :: membersOf kind entries
      else membersOf kind entries := by
  unfold membersOf
  by_cases hkind : r.kind = kind <;> simp [hkind]

theorem map_id_membersOf (kind : Kind) (entries : List (InstanceId × Resident)) :
    (membersOf kind entries).map (·.id) = (entries.filter (·.2.kind = kind)).map (·.1) := by
  rw [membersOf, List.map_map]
  rfl

theorem pairwise_members (d : Directory) (kind : Kind) :
    ((d.members kind).map (·.id)).Pairwise (· < ·) := by
  rw [members, map_id_membersOf]
  refine List.Pairwise.sublist (List.filter_sublist.map _) ?_
  exact d.instances.pairwise_keys.imp compare_lt_iff_lt.1

theorem mem_map_id_members_iff :
    id ∈ (d.members kind).map (·.id) ↔ ∃ r, d.instances.get? id = some r ∧ r.kind = kind := by
  rw [members, map_id_membersOf]
  simp only [List.mem_map, List.mem_filter, SortedMap.get?_eq_some_iff, decide_eq_true_iff]
  constructor
  · rintro ⟨⟨_, r⟩, ⟨hmem, hkind⟩, rfl⟩
    exact ⟨r, hmem, hkind⟩
  · rintro ⟨r, hmem, hkind⟩
    exact ⟨(id, r), ⟨hmem, hkind⟩, rfl⟩

theorem IsConsistent.length_ids (hd : d.IsConsistent) (kind : Kind) :
    (d.rosterD kind).ids.length = (d.members kind).length := by
  rw [hd.listed, List.length_map]

end Directory

end FleetSizing
