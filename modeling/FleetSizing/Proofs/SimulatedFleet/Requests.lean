import FleetSizing.Proofs.SimulatedFleet.Kinds
import FleetSizing.Proofs.SimulatedFleet.Ticks
/-!
# The requests of a tick

A tick carries out the decision for a kind when it visits this kind.  The visits before it
and after it leave the pool of the kind alone, but may create instances of other kinds, so
that the ids of new instances depend on them.
-/

namespace FleetSizing

namespace Pool

/-- What a request does to the pool that it concerns, and to the id of the latest instance. -/
def apply (capacity : Nat) (e : Pool × InstanceId) : Action → Pool × InstanceId
  | .create _ => (e.1.add (e.2 + 1) capacity, e.2 + 1)
  | .destroy _ id => (e.1.remove id, e.2)

def applyAll (capacity : Nat) (e : Pool × InstanceId) (actions : List Action) :
    Pool × InstanceId :=
  actions.foldl (apply capacity) e

end Pool

namespace SimulatedFleet

open Scaler

variable {f g : SimulatedFleet} {kind : Kind} {c : Config} {s : Scaler} {now : Nat}

theorem poolD_applyAll (f : SimulatedFleet) {kind : Kind} {actions : List Action}
    (h : ∀ kind', .create kind' ∈ actions → kind' = kind) :
    ((Fleet.applyAll f actions).poolD kind, (Fleet.applyAll f actions).lastId) =
      Pool.applyAll f.windowTicks (f.poolD kind, f.lastId) actions := by
  induction actions generalizing f with
  | nil => rfl
  | cons a actions ih =>
      have hrest : ∀ kind', .create kind' ∈ actions → kind' = kind :=
        fun kind' hmem => h kind' (List.mem_cons_of_mem _ hmem)
      refine (ih _ hrest).trans ?_
      cases a with
      | create kind' =>
          obtain rfl := h kind' (List.mem_cons_self ..)
          change Pool.applyAll _ ((f.create kind').poolD kind', f.lastId + 1) actions = _
          rw [poolD_create, if_pos rfl]
          rfl
      | destroy kind' id =>
          change Pool.applyAll _ ((f.destroy id).poolD kind, f.lastId) actions = _
          rw [poolD_destroy]
          rfl

theorem isAbreast_applyAll (f : SimulatedFleet) (actions : List Action) :
    f.IsAbreast (Fleet.applyAll f actions) := by
  induction actions generalizing f with
  | nil => exact .refl f
  | cons a actions ih =>
      have happly : f.IsAbreast (Fleet.apply f a) := by
        cases a with
        | create kind => exact ⟨rfl, rfl, rfl, rfl⟩
        | destroy kind id => exact ⟨rfl, rfl, rfl, rfl⟩
      exact happly.trans (ih _)

theorem lastId_le_applyAll (f : SimulatedFleet) (actions : List Action) :
    f.lastId ≤ (Fleet.applyAll f actions).lastId := by
  induction actions generalizing f with
  | nil => exact Nat.le_refl _
  | cons a actions ih =>
      refine Nat.le_trans ?_ (ih (Fleet.apply f a))
      cases a with
      | create kind => exact Nat.le_succ _
      | destroy kind id => exact Nat.le_refl _

theorem IsSound.of_readPool (hf : f.IsSound) {seen : List InstanceId} {pool : List Snapshot}
    (h : readPool f seen kind = .ok pool) :
    ∃ p, f.pools.get? kind = some p ∧ pool = p.snapshots := by
  obtain ⟨ids, hids, -, rfl⟩ := readPool_eq_ok_iff.1 h
  change (f.pools.get? kind).map (·.ids) = some ids at hids
  obtain ⟨p, hp, rfl⟩ := Option.map_eq_some_iff.1 hids
  refine ⟨p, hp, ?_⟩
  rw [Pool.ids, Pool.snapshots, List.map_map]
  exact List.map_congr_left fun i hi => hf.snapshot_eq hp hi

/-- What visits leave alone. -/
structure VisitFrame (f g : SimulatedFleet) (kinds : List Kind) : Prop where
  isSound : g.IsSound
  isAbreast : f.IsAbreast g
  lastId_le : f.lastId ≤ g.lastId
  get?_eq : ∀ kind ∉ kinds, g.pools.get? kind = f.pools.get? kind

theorem visitFrame {p q : Progress SimulatedFleet} {visits : List Visit}
    (h : Visits c p visits q) (hp : p.fleet.IsSound) :
    VisitFrame p.fleet q.fleet (visits.map (·.1)) := by
  induction h with
  | nil p => exact ⟨hp, .refl _, Nat.le_refl _, fun _ _ => rfl⟩
  | @cons p q kind pool visits hread hrest ih =>
      obtain ⟨pool, hpool, rfl⟩ := hp.of_readPool hread
      obtain ⟨hsound, habreast, hlast, hget⟩ := ih (hp.applyAll _)
      refine ⟨hsound, (isAbreast_applyAll ..).trans habreast,
        (lastId_le_applyAll ..).trans hlast, fun kind' hkind' => ?_⟩
      rw [List.map_cons, List.mem_cons, not_or] at hkind'
      rw [hget kind' hkind'.2]
      exact get?_applyAll (fun a ha => hp.concerns hpool ha) hkind'.1

def requests (f : SimulatedFleet) (s : Scaler) (kind : Kind) : List Action :=
  (s.config.evaluate s.idle kind (f.advance.poolD kind).snapshots).2.actions

theorem kind_of_create_mem_requests (f : SimulatedFleet) (s : Scaler) (kind kind' : Kind)
    (h : .create kind' ∈ f.requests s kind) : kind' = kind := by
  rcases Config.mem_actions h with heq | ⟨s, -, -, heq⟩
  · exact Action.create.inj heq
  · cases heq

theorem isAbreast_tick (hf : f.IsSound) (s : Scaler) (now : Nat) :
    f.advance.IsAbreast (s.tick f now).fleet := by
  obtain ⟨q, hvisits, heq, -⟩ := hf.exists_visits_tick s now
  rw [tick_of_visitAll_ok heq]
  exact (visitFrame hvisits hf.advance).isAbreast

theorem lastId_le_tick (hf : f.IsSound) (s : Scaler) (now : Nat) :
    f.lastId ≤ (s.tick f now).fleet.lastId := by
  obtain ⟨q, hvisits, heq, -⟩ := hf.exists_visits_tick s now
  rw [tick_of_visitAll_ok heq, ← lastId_advance]
  exact (visitFrame hvisits hf.advance).lastId_le

theorem poolD_tick_of_not_mem (hf : f.IsSound) (hkind : kind ∉ f.advance.pools.keys)
    (s : Scaler) (now : Nat) : (s.tick f now).fleet.poolD kind = f.advance.poolD kind := by
  obtain ⟨q, hvisits, heq, -⟩ := hf.exists_visits_tick s now
  rw [tick_of_visitAll_ok heq]
  exact poolD_eq_of_get? ((visitFrame hvisits hf.advance).get?_eq kind (by simpa using hkind))

theorem mem_keys_tick_iff (hf : f.IsSound) (s : Scaler) (now : Nat) (kind : Kind) :
    kind ∈ (s.tick f now).fleet.pools.keys ↔ kind ∈ f.advance.pools.keys := by
  obtain ⟨q, hvisits, heq, -⟩ := hf.exists_visits_tick s now
  constructor
  · contrapose
    intro hkind
    have hsame := (visitFrame hvisits hf.advance).get?_eq kind (by simpa using hkind)
    rw [tick_of_visitAll_ok heq, SortedMap.mem_keys_iff, hsame, ← SortedMap.mem_keys_iff]
    exact hkind
  · intro hkind
    let P (g : SimulatedFleet) : Prop := kind ∈ g.pools.keys
    have hsync : P (Fleet.sync f now) := hkind
    refine fleet_tick_of_invariant hsync fun g a hg => ?_
    cases a with
    | create kind' => exact SortedMap.mem_keys_upsert_iff.2 (Or.inr hg)
    | destroy kind' id =>
        change kind ∈ (g.pools.map _).keys
        rwa [SortedMap.keys_map]

theorem IsSound.mem_idleSoles_tick_iff (hf : f.IsSound) {x : InstanceId} :
    x ∈ (s.tick f now).idleSoles ↔
      ∃ kind ∈ f.advance.pools.keys, idleSole? (f.advance.poolD kind).snapshots = some x := by
  obtain ⟨q, hvisits, heq, -⟩ := hf.exists_visits_tick s now
  have hpools : q.pools = _ := hvisits.pools_eq
  rw [tick_of_visitAll_ok heq, Tick.idleSoles, hpools]
  simp [start]

theorem mem_ids_of_idleSole? {p : Pool} {x : InstanceId} (h : idleSole? p.snapshots = some x) :
    x ∈ p.ids :=
  p.map_id_snapshots ▸ mem_of_idleSole? h

theorem IsSound.mem_idleSoles_tick_iff_of_mem (hf : f.IsSound) {x : InstanceId}
    (hx : x ∈ (f.advance.poolD kind).ids) :
    x ∈ (s.tick f now).idleSoles ↔ idleSole? (f.advance.poolD kind).snapshots = some x := by
  obtain ⟨p, hp, hxp⟩ := get?_of_mem_poolD hx
  rw [hf.mem_idleSoles_tick_iff]
  constructor
  · rintro ⟨kind', -, hsole⟩
    obtain ⟨p', hp', hxp'⟩ := get?_of_mem_poolD (mem_ids_of_idleSole? hsole)
    obtain rfl := hf.advance.disjoint kind' p' hp' kind p hp x hxp' hxp
    exact hsole
  · intro hsole
    exact ⟨kind, SortedMap.mem_keys_iff.2 (Option.isSome_iff_exists.2 ⟨p, hp⟩), hsole⟩

theorem IsSound.le_lastId_of_mem (hf : f.IsSound) {x : InstanceId}
    (hx : x ∈ (f.poolD kind).ids) : x ≤ f.lastId := by
  obtain ⟨p, hp, hxp⟩ := get?_of_mem_poolD hx
  exact hf.le_lastId kind p hp x hxp

theorem IsSound.get?_idle_tick_of_lt (hf : f.IsSound) {x : InstanceId} (hx : f.lastId < x) :
    (s.tick f now).scaler.idle.get? x = none := by
  obtain ⟨r, hr, -⟩ := hf.tick s now
  rw [get?_tick_of_ok hr, if_neg]
  rw [hf.mem_idleSoles_tick_iff]
  rintro ⟨kind, -, hsole⟩
  have hle := hf.advance.le_lastId_of_mem (mem_ids_of_idleSole? hsole)
  rw [lastId_advance] at hle
  exact absurd hx (Nat.not_lt.2 hle)

/-- A tick carries out the requests for a kind on its pool as the sync has left it.  New
instances are counted on from the latest one at the visit. -/
theorem exists_poolD_tick (hf : f.IsSound) (s : Scaler) (now : Nat)
    (hkind : kind ∈ f.advance.pools.keys) :
    ∃ last, f.lastId ≤ last ∧
      (s.tick f now).fleet.poolD kind =
        (Pool.applyAll f.windowTicks (f.advance.poolD kind, last) (f.requests s kind)).1 ∧
      (Pool.applyAll f.windowTicks (f.advance.poolD kind, last) (f.requests s kind)).2 ≤
        (s.tick f now).fleet.lastId := by
  obtain ⟨q, hvisits, heq, -⟩ := hf.exists_visits_tick s now
  obtain ⟨before, after, hkeys⟩ := List.append_of_mem hkind
  have hnodup := f.advance.pools.nodup_keys
  rw [hkeys, List.nodup_append, List.nodup_cons] at hnodup
  obtain ⟨-, ⟨hafter, -⟩, hbefore⟩ := hnodup
  rw [hkeys, List.map_append, List.map_cons] at hvisits
  obtain ⟨m, hvisits₁, hread, hvisits₂⟩ := hvisits.exists_split
  have hframe₁ : VisitFrame f.advance m.fleet _ := visitFrame hvisits₁ hf.advance
  have hframe₂ := visitFrame hvisits₂ (hframe₁.isSound.applyAll _)
  -- The visit finds the pool as the sync has left it, and decides by the idle counts of the start.
  have hpool : m.fleet.poolD kind = f.advance.poolD kind := by
    have hunlisted : kind ∉ before :=
      fun hmem => hbefore kind hmem kind (List.mem_cons_self ..) rfl
    exact poolD_eq_of_get? (hframe₁.get?_eq kind (by simpa using hunlisted))
  have hactions : (s.config.evaluate m.idle kind (f.advance.poolD kind).snapshots).2.actions =
      f.requests s kind :=
    congrArg Decision.actions
      (Config.evaluate_congr fun x hx => hvisits₁.get?_idle_of_readPool hread hx)
  have hsettled := poolD_applyAll m.fleet (kind_of_create_mem_requests f s kind)
  rw [hpool, hframe₁.isAbreast.windowTicks, (isAbreast_advance f).windowTicks] at hsettled
  refine ⟨m.fleet.lastId, lastId_advance f ▸ hframe₁.lastId_le, ?_, ?_⟩
  · rw [tick_of_visitAll_ok heq, ← hsettled]
    refine poolD_eq_of_get? ((hframe₂.get?_eq kind ?_).trans ?_)
    · simpa using hafter
    · rw [← hactions]
      rfl
  · rw [tick_of_visitAll_ok heq, ← hsettled, ← hactions]
    exact hframe₂.lastId_le

theorem poolD_tick_of_keys (hf : f.IsSound) (s : Scaler) (now : Nat)
    (hkeys : f.advance.pools.keys = [kind]) :
    ((s.tick f now).fleet.poolD kind, (s.tick f now).fleet.lastId) =
      Pool.applyAll f.windowTicks (f.advance.poolD kind, f.lastId) (f.requests s kind) := by
  obtain ⟨q, hvisits, heq, -⟩ := hf.exists_visits_tick s now
  rw [hkeys] at hvisits
  cases hvisits with
  | cons hread hrest =>
      cases hrest
      have hsettled := poolD_applyAll f.advance (kind_of_create_mem_requests f s kind)
      rw [lastId_advance, (isAbreast_advance f).windowTicks] at hsettled
      rw [tick_of_visitAll_ok heq]
      exact hsettled

end SimulatedFleet

end FleetSizing
