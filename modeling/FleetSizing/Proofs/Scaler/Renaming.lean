import FleetSizing.Proofs.Scaler.Judgement
/-!
# Renamed instances

A decision does not depend on what the instances of a pool are called: where they are
called otherwise and each keeps its idle count, the decision is the same but for the names
in it.
-/

namespace FleetSizing

variable {ρ : InstanceId → InstanceId}

def Action.rename (ρ : InstanceId → InstanceId) : Action → Action
  | .create kind => .create kind
  | .destroy kind id => .destroy kind (ρ id)

/-- The instance that is retired is the only one that an outcome names. -/
def Outcome.rename (ρ : InstanceId → InstanceId) : Outcome → Outcome
  | .retired id => .retired (ρ id)
  | .coldStart => .coldStart
  | .gracePeriod idleTicks => .gracePeriod idleTicks
  | .shrunk destroyed => .shrunk destroyed
  | .grew average factor requested => .grew average factor requested
  | .steady average => .steady average

def Decision.rename (ρ : InstanceId → InstanceId) (d : Decision) : Decision :=
  { d with outcome := d.outcome.rename ρ, actions := d.actions.map (·.rename ρ) }

def Snapshot.rename (ρ : InstanceId → InstanceId) (s : Snapshot) : Snapshot :=
  { s with id := ρ s.id }

theorem Scaler.idleSole?_rename (pool : List Snapshot) :
    idleSole? (pool.map (·.rename ρ)) = (idleSole? pool).map ρ := by
  rcases pool with _ | ⟨s, _ | ⟨s', pool⟩⟩
  · rfl
  · cases hbusy : s.busy <;> simp [idleSole?, Snapshot.rename, hbusy]
  · rfl

namespace Config

variable {c : Config} {t t' : IdleTracker} {kind : Kind} {pool : List Snapshot}

theorem growth_rename (ρ : InstanceId → InstanceId) (c : Config) (kind : Kind)
    (pool : List Snapshot) :
    c.growth kind (pool.map (·.rename ρ)) = c.growth kind pool := by
  unfold growth
  simp only [List.map_map, List.length_map]
  rfl

theorem allButBusiest_rename (pool : List Snapshot) :
    allButBusiest (pool.map (·.rename ρ)) = (allButBusiest pool).map (·.rename ρ) := by
  have hkeys : (pool.map (·.rename ρ)).map (fun s => Decimal.totalKey s.utilization) =
      pool.map fun s => Decimal.totalKey s.utilization := by
    rw [List.map_map]
    rfl
  unfold allButBusiest
  rw [hkeys]
  cases (pool.map fun s => Decimal.totalKey s.utilization).max? with
  | none => rfl
  | some top => exact List.eraseP_map ..

theorem surplus_rename (c : Config) (pool : List Snapshot) :
    c.surplus (pool.map (·.rename ρ)) = (c.surplus pool).map (·.rename ρ) := by
  unfold surplus
  rw [List.all_map, List.filter_map, allButBusiest_rename]
  change (if pool.all c.isSpare then _ else (pool.filter c.isSpare).map _) = _
  split
  next => rfl
  next => rfl

theorem growth_map_rename (ρ : InstanceId → InstanceId) (c : Config) (kind : Kind)
    (pool : List Snapshot) :
    (c.growth kind pool).1.rename ρ = (c.growth kind pool).1 ∧
      (c.growth kind pool).2.map (·.rename ρ) = (c.growth kind pool).2 := by
  unfold growth
  dsimp only
  split
  next => exact ⟨rfl, rfl⟩
  next => exact ⟨rfl, List.map_replicate⟩

theorem shrinkage_rename (c : Config) (kind : Kind) (pool : List Snapshot) :
    c.shrinkage kind (pool.map (·.rename ρ)) =
      ((c.shrinkage kind pool).1.rename ρ, (c.shrinkage kind pool).2.map (·.rename ρ)) := by
  unfold shrinkage
  simp only [List.any_map, surplus_rename, List.length_map, List.map_map, growth_rename]
  change (if pool.any c.isSpare then _ else _) = _
  split
  next =>
    rw [List.map_map]
    rfl
  next =>
    obtain ⟨houtcome, hactions⟩ := growth_map_rename ρ c kind pool
    rw [houtcome, hactions]

theorem patience_rename (c : Config) (kind : Kind) (id : InstanceId) (count : Nat) :
    c.patience kind (ρ id) count =
      ((c.patience kind id count).1.rename ρ, (c.patience kind id count).2.map (·.rename ρ)) := by
  unfold patience
  split
  next => rfl
  next => rfl

theorem evaluate_rename (h : ∀ x ∈ pool.map (·.id), t.get? (ρ x) = t'.get? x) :
    (c.evaluate t kind (pool.map (·.rename ρ))).2 = (c.evaluate t' kind pool).2.rename ρ := by
  suffices hjudge : (c.judge t kind (pool.map (·.rename ρ))).2 =
      ((c.judge t' kind pool).2.1.rename ρ, (c.judge t' kind pool).2.2.map (·.rename ρ)) by
    unfold evaluate Decision.rename
    simp only [hjudge, List.length_map]
  rcases pool with _ | ⟨s, _ | ⟨s', pool⟩⟩
  · rfl
  · have hnext : t.next (ρ s.id) = t'.next s.id := by
      unfold IdleTracker.next
      rw [h s.id (List.mem_singleton_self _)]
    obtain ⟨houtcome, hactions⟩ := growth_map_rename ρ c kind [s]
    cases hbusy : s.busy with
    | true =>
        simp only [judge, List.map_cons, List.map_nil, Snapshot.rename, hbusy, if_true,
          houtcome, hactions]
        exact growth_rename ρ c kind [s]
    | false =>
        simp only [judge, List.map_cons, List.map_nil, Snapshot.rename, hbusy, hnext,
          Bool.false_eq_true, if_false]
        exact patience_rename c kind s.id _
  · exact shrinkage_rename c kind (s :: s' :: pool)

end Config

end FleetSizing
