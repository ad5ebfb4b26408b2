import FleetSizing.Proofs.Scaler.Ticks
import FleetSizing.Proofs.SimulatedFleet.Soundness
/-!
# Ticks on simulated fleets

What is decided for a kind leaves the pools of the other kinds alone.  A tick therefore
finds every pool as the sync has left it, and reads them all without an error.
-/

namespace FleetSizing

namespace SimulatedFleet

open Scaler

variable {f : SimulatedFleet} {kind : Kind}

/-- A request for a kind that names no instance of another kind. -/
def Concerns (f : SimulatedFleet) (kind : Kind) (a : Action) : Prop :=
  a = .create kind ∨ ∃ id, a = .destroy kind id ∧
    ∀ kind' ≠ kind, ∀ p, f.pools.get? kind' = some p → id ∉ p.ids

theorem get?_apply {a : Action} (ha : f.Concerns kind a) {kind' : Kind} (hne : kind' ≠ kind) :
    (Fleet.apply f a).pools.get? kind' = f.pools.get? kind' := by
  rcases ha with rfl | ⟨id, rfl, hid⟩
  · change (f.create kind).pools.get? kind' = _
    rw [create, SortedMap.get?_upsert, if_neg hne]
  · change (f.pools.map (·.remove id)).get? kind' = _
    rw [SortedMap.get?_map]
    cases hp : f.pools.get? kind' with
    | none => rfl
    | some p => rw [Option.map_some, Pool.remove_of_not_mem (hid kind' hne p hp)]

theorem IsSound.apply (hf : f.IsSound) (a : Action) : (Fleet.apply f a).IsSound := by
  cases a with
  | create kind => exact hf.create kind
  | destroy kind id => exact hf.destroy id

theorem IsSound.applyAll (hf : f.IsSound) (actions : List Action) :
    (Fleet.applyAll f actions).IsSound := by
  induction actions generalizing f with
  | nil => exact hf
  | cons a actions ih => exact ih (hf.apply a)

theorem get?_applyAll {actions : List Action} (h : ∀ a ∈ actions, f.Concerns kind a)
    {kind' : Kind} (hne : kind' ≠ kind) :
    (Fleet.applyAll f actions).pools.get? kind' = f.pools.get? kind' := by
  induction actions generalizing f with
  | nil => rfl
  | cons a actions ih =>
      have ha := h a (List.mem_cons_self ..)
      have hactions : ∀ b ∈ actions, (Fleet.apply f a).Concerns kind b := by
        intro b hb
        rcases h b (List.mem_cons_of_mem _ hb) with rfl | ⟨id, rfl, hid⟩
        · exact Or.inl rfl
        · refine Or.inr ⟨id, rfl, fun k hk p hp => hid k hk p ?_⟩
          rwa [get?_apply ha hk] at hp
      exact (ih hactions).trans (get?_apply ha hne)

theorem IsSound.concerns (hf : f.IsSound) {p : Pool} (hp : f.pools.get? kind = some p)
    {c : Config} {t : IdleTracker} {a : Action}
    (ha : a ∈ (c.evaluate t kind p.snapshots).2.actions) : f.Concerns kind a := by
  rcases Config.mem_actions ha with rfl | ⟨s, hs, -, rfl⟩
  · exact Or.inl rfl
  · refine Or.inr ⟨s.id, rfl, fun kind' hne p' hp' hid' => hne ?_⟩
    have hid : s.id ∈ p.ids := p.map_id_snapshots ▸ List.mem_map_of_mem hs
    exact hf.disjoint kind' p' hp' kind p hp s.id hid' hid

theorem poolD_eq_of_get? {g : SimulatedFleet} (h : g.pools.get? kind = f.pools.get? kind) :
    g.poolD kind = f.poolD kind := by
  rw [poolD, h, poolD]

theorem exists_visits (c : Config) {p : Progress SimulatedFleet} (hp : p.fleet.IsSound)
    {kinds : List Kind} (hkinds : kinds.Nodup)
    (hlisted : ∀ kind ∈ kinds, ∃ pool, p.fleet.pools.get? kind = some pool ∧
      ∀ id ∈ pool.ids, id ∉ p.seen) :
    ∃ q, Visits c p (kinds.map fun kind => (kind, (p.fleet.poolD kind).snapshots)) q ∧
      q.fleet.IsSound := by
  induction kinds generalizing p with
  | nil => exact ⟨p, .nil p, hp⟩
  | cons kind kinds ih =>
      obtain ⟨hkind, hrest⟩ := List.nodup_cons.1 hkinds
      obtain ⟨pool, hpool, hunseen⟩ := hlisted kind (List.mem_cons_self ..)
      have hread := hp.readPool_eq hpool hunseen
      let p' := (p.noteRead kind).settle c kind pool.snapshots
      have hconcerns : ∀ a ∈ (c.evaluate p.idle kind pool.snapshots).2.actions,
          p.fleet.Concerns kind a := fun a ha => hp.concerns hpool ha
      have hsound : p'.fleet.IsSound := hp.applyAll _
      have hsame {kind' : Kind} (hmem : kind' ∈ kinds) :
          p'.fleet.pools.get? kind' = p.fleet.pools.get? kind' := by
        refine get?_applyAll hconcerns ?_
        rintro rfl
        exact hkind hmem
      have hseen : p'.seen = p.seen ++ pool.ids := by
        rw [seen_settle, Pool.map_id_snapshots]
      -- The pools to come are untouched, and share no instance with the one just read.
      have hlisted' : ∀ kind' ∈ kinds, ∃ pool', p'.fleet.pools.get? kind' = some pool' ∧
          ∀ id ∈ pool'.ids, id ∉ p'.seen := by
        intro kind' hmem
        obtain ⟨pool', hpool', hunseen'⟩ := hlisted kind' (List.mem_cons_of_mem _ hmem)
        refine ⟨pool', (hsame hmem).trans hpool', fun id hid hids => ?_⟩
        rw [hseen] at hids
        rcases List.mem_append.1 hids with hids | hids
        · exact hunseen' id hid hids
        · obtain rfl := hp.disjoint kind' pool' hpool' kind pool hpool id hid hids
          exact hkind hmem
      obtain ⟨q, hvisits, hq⟩ := ih hsound hrest hlisted'
      refine ⟨q, ?_, hq⟩
      rw [List.map_cons, poolD_of_get? hpool]
      refine .cons hread ?_
      have hmap : kinds.map (fun kind => (kind, (p.fleet.poolD kind).snapshots)) =
          kinds.map fun kind => (kind, (p'.fleet.poolD kind).snapshots) :=
        List.map_congr_left fun kind' hmem => by rw [poolD_eq_of_get? (hsame hmem)]
      rw [hmap]
      exact hvisits

theorem IsSound.exists_visits_tick (hf : f.IsSound) (s : Scaler) (now : Nat) :
    ∃ q, Visits s.config (s.start f now)
        (f.advance.pools.keys.map fun kind => (kind, (f.advance.poolD kind).snapshots)) q ∧
      visitAll s.config (s.start f now) (Fleet.kinds (Fleet.sync f now)) = (q, .ok ()) ∧
      q.fleet.IsSound := by
  have hlisted : ∀ kind ∈ f.advance.pools.keys, ∃ pool,
      (s.start f now).fleet.pools.get? kind = some pool ∧
        ∀ id ∈ pool.ids, id ∉ (s.start f now).seen := by
    intro kind hmem
    obtain ⟨pool, hpool⟩ := Option.isSome_iff_exists.1 (SortedMap.mem_keys_iff.1 hmem)
    exact ⟨pool, hpool, fun _ _ => List.not_mem_nil⟩
  obtain ⟨q, hvisits, hq⟩ := exists_visits s.config (p := s.start f now) hf.advance
    f.advance.pools.nodup_keys hlisted
  refine ⟨q, hvisits, ?_, hq⟩
  have heq := visitAll_of_visits hvisits
  rw [List.map_map] at heq
  exact (congrArg _ (List.map_id _).symm).trans heq

/-- A tick on a sound fleet succeeds, and decides for the pools as the sync has left them. -/
theorem IsSound.tick (hf : f.IsSound) (s : Scaler) (now : Nat) :
    ∃ r, (s.tick f now).result = .ok r ∧ (s.tick f now).fleet.IsSound ∧
      r.decisions = f.advance.pools.toList.map fun entry =>
        (s.config.evaluate s.idle entry.1 entry.2.snapshots).2 := by
  obtain ⟨q, hvisits, heq, hq⟩ := hf.exists_visits_tick s now
  have hdecisions : q.decisions = f.advance.pools.keys.map fun kind =>
      (s.config.evaluate s.idle kind (f.advance.poolD kind).snapshots).2 := by
    have h := hvisits.decisions_eq
    rw [List.map_map] at h
    exact h
  rw [tick_of_visitAll_ok heq]
  refine ⟨_, rfl, hq, ?_⟩
  rw [hdecisions, SortedMap.keys, List.map_map]
  refine List.map_congr_left fun entry hentry => ?_
  have hget : f.advance.pools.get? entry.1 = some entry.2 := SortedMap.get?_eq_some_iff.2 hentry
  rw [Function.comp_apply, poolD_of_get? hget]

theorem IsSound.decisionFor_tick (hf : f.IsSound) {s : Scaler} {now : Nat} {r : TickReport}
    (hr : (s.tick f now).result = .ok r) (hkind : kind ∈ f.advance.pools.keys) :
    r.decisionFor kind =
      some (s.config.evaluate s.idle kind (f.advance.poolD kind).snapshots).2 := by
  obtain ⟨r', hr', -, hdecisions⟩ := hf.tick s now
  obtain rfl : r = r' := Except.ok.inj (hr.symm.trans hr')
  obtain ⟨p, hp⟩ := Option.isSome_iff_exists.1 (SortedMap.mem_keys_iff.1 hkind)
  have hfind := f.advance.pools.find?_toList kind
  rw [TickReport.decisionFor, hdecisions, List.find?_map]
  change (f.advance.pools.toList.find? (·.1 = kind)).map _ = _
  rw [hfind, hp, poolD_of_get? hp]
  rfl

end SimulatedFleet

end FleetSizing
