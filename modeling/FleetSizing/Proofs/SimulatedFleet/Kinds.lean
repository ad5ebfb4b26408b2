import FleetSizing.Proofs.SimulatedFleet.Soundness
/-!
# The pool of one kind

What is done with a fleet is told kind by kind: each operation acts on the pool of a kind
as if there were no other, but for the ids that it gives to new instances.  In a tick the
pool of a kind receives the arrivals of this kind that are due, and then works on them.
-/

namespace FleetSizing

def Pool.receive (p : Pool) (arrivals : List Arrival) : Pool :=
  arrivals.foldl (fun p a => p.submit a.seconds a.count) p

theorem Pool.ids_receive (p : Pool) (arrivals : List Arrival) :
    (p.receive arrivals).ids = p.ids := by
  induction arrivals generalizing p with
  | nil => rfl
  | cons a arrivals ih => exact ih (p.submit a.seconds a.count)

namespace SimulatedFleet

variable {f g : SimulatedFleet} {kind : Kind} {p : Pool}

theorem poolD_upsert (f : SimulatedFleet) (kind kind' : Kind) (change : Pool → Pool) :
    poolD { f with pools := f.pools.upsert kind' {} change } kind =
      if kind = kind' then change (f.poolD kind) else f.poolD kind := by
  unfold poolD
  rw [SortedMap.get?_upsert]
  split
  next heq => rw [Option.getD_some, heq]
  next => rfl

theorem poolD_map (f : SimulatedFleet) (kind : Kind) {change : Pool → Pool}
    (hempty : change {} = {}) :
    poolD { f with pools := f.pools.map change } kind = change (f.poolD kind) := by
  unfold poolD
  rw [SortedMap.get?_map]
  cases f.pools.get? kind with
  | none => exact hempty.symm
  | some p => rfl

theorem poolD_register (f : SimulatedFleet) (kind kind' : Kind) :
    (f.register kind').poolD kind = f.poolD kind := by
  rw [register, poolD_upsert, id_eq, ite_self]

theorem poolD_create (f : SimulatedFleet) (kind kind' : Kind) :
    (f.create kind').poolD kind =
      if kind = kind' then (f.poolD kind).add (f.lastId + 1) f.windowTicks
      else f.poolD kind :=
  poolD_upsert f kind kind' _

theorem poolD_destroy (f : SimulatedFleet) (kind : Kind) (id : InstanceId) :
    (f.destroy id).poolD kind = (f.poolD kind).remove id :=
  poolD_map f kind rfl

theorem poolD_submit (f : SimulatedFleet) (kind : Kind) (a : Arrival) :
    (f.submit a).poolD kind =
      if kind = a.kind then (f.poolD kind).submit a.seconds a.count else f.poolD kind :=
  poolD_upsert f kind a.kind _

theorem poolD_work (f : SimulatedFleet) (kind : Kind) :
    f.work.poolD kind = (f.poolD kind).work f.tickSeconds :=
  poolD_map f kind rfl

theorem poolD_foldl_register (f : SimulatedFleet) (kinds : List Kind) (kind : Kind) :
    (kinds.foldl register f).poolD kind = f.poolD kind := by
  induction kinds generalizing f with
  | nil => rfl
  | cons k kinds ih => rw [List.foldl_cons, ih, poolD_register]

theorem poolD_load (f : SimulatedFleet) (t : Trace) (kind : Kind) :
    (f.load t).1.poolD kind = f.poolD kind := by
  have hregistered := poolD_foldl_register f t.allKinds kind
  unfold load
  split
  · exact hregistered
  · exact hregistered

/-! ## Time -/

/-- Fleets that have come equally far: they differ in nothing but their pools. -/
structure IsAbreast (f g : SimulatedFleet) : Prop where
  tickSeconds : g.tickSeconds = f.tickSeconds
  windowTicks : g.windowTicks = f.windowTicks
  arrivals : g.arrivals = f.arrivals
  tick : g.tick = f.tick

theorem IsAbreast.refl (f : SimulatedFleet) : f.IsAbreast f := ⟨rfl, rfl, rfl, rfl⟩

theorem IsAbreast.symm (h : f.IsAbreast g) : g.IsAbreast f :=
  ⟨h.tickSeconds.symm, h.windowTicks.symm, h.arrivals.symm, h.tick.symm⟩

theorem IsAbreast.trans {h : SimulatedFleet} (hfg : f.IsAbreast g) (hgh : g.IsAbreast h) :
    f.IsAbreast h where
  tickSeconds := hgh.tickSeconds.trans hfg.tickSeconds
  windowTicks := hgh.windowTicks.trans hfg.windowTicks
  arrivals := hgh.arrivals.trans hfg.arrivals
  tick := hgh.tick.trans hfg.tick

theorem isAbreast_foldl_submit (f : SimulatedFleet) (arrivals : List Arrival) :
    f.IsAbreast (arrivals.foldl submit f) := by
  induction arrivals generalizing f with
  | nil => exact .refl f
  | cons a arrivals ih =>
      have hsubmit : f.IsAbreast (f.submit a) := ⟨rfl, rfl, rfl, rfl⟩
      exact hsubmit.trans (ih (f.submit a))

theorem isAbreast_foldl_register (f : SimulatedFleet) (kinds : List Kind) :
    f.IsAbreast (kinds.foldl register f) := by
  induction kinds generalizing f with
  | nil => exact .refl f
  | cons kind kinds ih =>
      have hregister : f.IsAbreast (f.register kind) := ⟨rfl, rfl, rfl, rfl⟩
      exact hregister.trans (ih (f.register kind))

theorem lastId_foldl_submit (f : SimulatedFleet) (arrivals : List Arrival) :
    (arrivals.foldl submit f).lastId = f.lastId := by
  induction arrivals generalizing f with
  | nil => rfl
  | cons a arrivals ih => exact ih (f.submit a)

theorem lastId_foldl_register (f : SimulatedFleet) (kinds : List Kind) :
    (kinds.foldl register f).lastId = f.lastId := by
  induction kinds generalizing f with
  | nil => rfl
  | cons kind kinds ih => exact ih (f.register kind)

theorem lastId_load (f : SimulatedFleet) (t : Trace) : (f.load t).1.lastId = f.lastId := by
  have hregistered := lastId_foldl_register f t.allKinds
  unfold load
  split
  · exact hregistered
  · exact hregistered

theorem poolD_foldl_submit (f : SimulatedFleet) (arrivals : List Arrival) (kind : Kind) :
    (arrivals.foldl submit f).poolD kind =
      (f.poolD kind).receive (arrivals.filter (·.kind = kind)) := by
  induction arrivals generalizing f with
  | nil => rfl
  | cons a arrivals ih =>
      rw [List.foldl_cons, ih, poolD_submit]
      by_cases hkind : kind = a.kind
      · rw [if_pos hkind, List.filter_cons_of_pos (by simp [hkind])]
        rfl
      · rw [if_neg hkind, List.filter_cons_of_neg (by simpa using Ne.symm hkind)]

theorem mem_keys_foldl_submit_iff (f : SimulatedFleet) (arrivals : List Arrival) (kind : Kind) :
    kind ∈ (arrivals.foldl submit f).pools.keys ↔
      kind ∈ f.pools.keys ∨ kind ∈ arrivals.map (·.kind) := by
  induction arrivals generalizing f with
  | nil => simp
  | cons a arrivals ih =>
      have hsubmit : kind ∈ (f.submit a).pools.keys ↔ kind = a.kind ∨ kind ∈ f.pools.keys :=
        SortedMap.mem_keys_upsert_iff
      rw [List.foldl_cons, ih, hsubmit, List.map_cons, List.mem_cons, or_comm (a := kind = _),
        or_assoc]

theorem mem_keys_foldl_register_iff (f : SimulatedFleet) (kinds : List Kind) (kind : Kind) :
    kind ∈ (kinds.foldl register f).pools.keys ↔ kind ∈ f.pools.keys ∨ kind ∈ kinds := by
  induction kinds generalizing f with
  | nil => simp
  | cons k kinds ih =>
      have hregister : kind ∈ (f.register k).pools.keys ↔ kind = k ∨ kind ∈ f.pools.keys :=
        SortedMap.mem_keys_upsert_iff
      rw [List.foldl_cons, ih, hregister, List.mem_cons, or_comm (a := kind = _), or_assoc]

theorem mem_keys_load_iff (f : SimulatedFleet) (t : Trace) (kind : Kind) :
    kind ∈ (f.load t).1.pools.keys ↔ kind ∈ f.pools.keys ∨ kind ∈ t.allKinds := by
  have hregistered := mem_keys_foldl_register_iff f t.allKinds kind
  unfold load
  split
  · exact hregistered
  · exact hregistered

/-- What joins the backlogs in the next tick. -/
def due (f : SimulatedFleet) : List Arrival :=
  f.arrivals.takeWhile fun a => a.tick ≤ f.tick + 1

def later (f : SimulatedFleet) : List Arrival :=
  f.arrivals.dropWhile fun a => a.tick ≤ f.tick + 1

theorem due_append_later (f : SimulatedFleet) : f.due ++ f.later = f.arrivals :=
  List.takeWhile_append_dropWhile

/-- The fleet in its next tick, when what is due has arrived and the work begins. -/
def atWork (f : SimulatedFleet) : SimulatedFleet := { f with tick := f.tick + 1 }.receive

theorem isAbreast_atWork (f : SimulatedFleet) :
    IsAbreast { f with tick := f.tick + 1, arrivals := f.later } f.atWork :=
  isAbreast_foldl_submit ..

theorem poolD_atWork (f : SimulatedFleet) (kind : Kind) :
    f.atWork.poolD kind = (f.poolD kind).receive (f.due.filter (·.kind = kind)) :=
  poolD_foldl_submit ..

theorem tickSeconds_atWork (f : SimulatedFleet) : f.atWork.tickSeconds = f.tickSeconds :=
  (isAbreast_atWork f).tickSeconds

theorem get?_advance (hp : f.atWork.pools.get? kind = some p) :
    f.advance.pools.get? kind = some (p.work f.tickSeconds) := by
  change (f.atWork.pools.map (·.work f.atWork.tickSeconds)).get? kind = _
  rw [SortedMap.get?_map, hp, tickSeconds_atWork, Option.map_some]

theorem isAbreast_advance (f : SimulatedFleet) :
    IsAbreast { f with tick := f.tick + 1, arrivals := f.later } f.advance :=
  (isAbreast_atWork f).trans ⟨rfl, rfl, rfl, rfl⟩

theorem lastId_advance (f : SimulatedFleet) : f.advance.lastId = f.lastId :=
  lastId_foldl_submit ..

theorem mem_keys_advance_iff (f : SimulatedFleet) (kind : Kind) :
    kind ∈ f.advance.pools.keys ↔ kind ∈ f.pools.keys ∨ kind ∈ f.due.map (·.kind) := by
  change kind ∈ (f.atWork.pools.map _).keys ↔ _
  rw [SortedMap.keys_map]
  exact mem_keys_foldl_submit_iff ..

theorem poolD_advance (f : SimulatedFleet) (kind : Kind) :
    f.advance.poolD kind = (f.atWork.poolD kind).work f.tickSeconds := by
  rw [← tickSeconds_atWork]
  exact poolD_work f.atWork kind

theorem ids_poolD_advance (f : SimulatedFleet) (kind : Kind) :
    (f.advance.poolD kind).ids = (f.poolD kind).ids := by
  rw [poolD_advance, Pool.ids_work, poolD_atWork, Pool.ids_receive]

end SimulatedFleet

end FleetSizing
