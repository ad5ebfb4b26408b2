import FleetSizing.Proofs.Scaler.Ticks
/-!
# Fleets that look alike

A tick knows its fleet only by what it asks of it.  Fleets that give the same answers, and
still do so after any request, get the same decisions, whatever else is in them and
whatever the clock says.
-/

namespace FleetSizing

/-- Fleets so related give the same answers, and still do so after any request.  What a sync
makes of them is another matter. -/
structure Fleet.IsLikeness {φ ψ : Type} [Fleet φ] [Fleet ψ] (R : φ → ψ → Prop) : Prop where
  kinds : ∀ {f g}, R f g → Fleet.kinds f = Fleet.kinds g
  pool? : ∀ {f g}, R f g → ∀ kind, Fleet.pool? f kind = Fleet.pool? g kind
  snapshot : ∀ {f g}, R f g → ∀ id, Fleet.snapshot f id = Fleet.snapshot g id
  apply : ∀ {f g}, R f g → ∀ a, R (Fleet.apply f a) (Fleet.apply g a)

theorem Fleet.isLikeness_eq {φ : Type} [Fleet φ] :
    Fleet.IsLikeness fun f g : φ => f = g where
  kinds h := by rw [h]
  pool? h kind := by rw [h]
  snapshot h id := by rw [h]
  apply h a := by rw [h]

def TickReport.undated (r : TickReport) : TickReport := { r with now := 0 }

theorem TickReport.eq_of_undated {r r' : TickReport} (h : r.undated = r'.undated)
    (hnow : r.now = r'.now) : r = r' := by
  obtain ⟨tick, now, decisions, trackedIdle⟩ := r
  obtain ⟨tick', now', decisions', trackedIdle'⟩ := r'
  simp only [undated, TickReport.mk.injEq] at h hnow ⊢
  exact ⟨h.1, hnow, h.2.2⟩

namespace Scaler

variable {φ ψ : Type} [Fleet φ] [Fleet ψ] {R : φ → ψ → Prop} (hR : Fleet.IsLikeness R)

section

include hR

theorem applyAll_alike {f : φ} {g : ψ} (h : R f g) (actions : List Action) :
    R (Fleet.applyAll f actions) (Fleet.applyAll g actions) := by
  induction actions generalizing f g with
  | nil => exact h
  | cons a actions ih => exact ih (hR.apply h a)

theorem members_alike {f : φ} {g : ψ} (h : R f g) (seen ids : List InstanceId) :
    members f seen ids = members g seen ids := by
  induction ids generalizing seen with
  | nil => rfl
  | cons id ids ih => simp only [members, hR.snapshot h, ih]

theorem readPool_alike {f : φ} {g : ψ} (h : R f g) (seen : List InstanceId) (kind : Kind) :
    readPool f seen kind = readPool g seen kind := by
  simp only [readPool, hR.pool? h, members_alike hR h]

end

/-- Progress on fleets that look alike, with the same decisions so far. -/
structure Progress.IsAlike (R : φ → ψ → Prop) (p : Progress φ) (q : Progress ψ) : Prop where
  fleet : R p.fleet q.fleet
  idle : p.idle = q.idle
  pools : p.pools = q.pools
  decisions : p.decisions = q.decisions

omit [Fleet φ] [Fleet ψ] in
theorem Progress.IsAlike.seen {p : Progress φ} {q : Progress ψ} (h : p.IsAlike R q) :
    p.seen = q.seen := by
  unfold Progress.seen
  rw [h.pools]

include hR

theorem Progress.IsAlike.settle {p : Progress φ} {q : Progress ψ} (h : p.IsAlike R q)
    (c : Config) (kind : Kind) (pool : List Snapshot) :
    ((p.noteRead kind).settle c kind pool).IsAlike R ((q.noteRead kind).settle c kind pool) := by
  have hidle : (p.noteRead kind).idle = (q.noteRead kind).idle := h.idle
  refine ⟨?_, ?_, ?_, ?_⟩
  · simp only [Progress.settle, hidle]
    exact applyAll_alike hR h.fleet _
  · simp only [Progress.settle, hidle]
  · exact congrArg (· ++ [pool]) h.pools
  · have hdecisions : (p.noteRead kind).decisions = (q.noteRead kind).decisions := h.decisions
    simp only [Progress.settle, hidle, hdecisions]

theorem visitAll_alike (c : Config) {p : Progress φ} {q : Progress ψ} (h : p.IsAlike R q)
    (kinds : List Kind) :
    (visitAll c p kinds).2 = (visitAll c q kinds).2 ∧
      (visitAll c p kinds).1.IsAlike R (visitAll c q kinds).1 := by
  induction kinds generalizing p q with
  | nil => exact ⟨rfl, h⟩
  | cons kind kinds ih =>
      have hread := readPool_alike hR h.fleet p.seen kind
      rw [h.seen] at hread
      unfold visitAll
      rw [h.seen, hread]
      cases readPool q.fleet q.seen kind with
      | error e => exact ⟨rfl, h.fleet, h.idle, h.pools, h.decisions⟩
      | ok pool => exact ih (h.settle hR c kind pool)

omit hR [Fleet ψ] in
theorem now_eq_of_ok {s : Scaler} {fleet : φ} {now : Nat} {r : TickReport}
    (h : (s.tick fleet now).result = .ok r) : r.now = now := by
  obtain ⟨-, -, -, -, -, rfl⟩ := tick_of_ok h
  rfl

/-- What a tick does depends on nothing but the answers of the fleet after the sync.  Only the
date of the report follows the clock. -/
theorem tick_alike (s : Scaler) {f : φ} {g : ψ} (now now' : Nat)
    (h : R (Fleet.sync f now) (Fleet.sync g now')) :
    (s.tick f now).scaler = (s.tick g now').scaler ∧
      R (s.tick f now).fleet (s.tick g now').fleet ∧
      (s.tick f now).result.map (·.undated) = (s.tick g now').result.map (·.undated) := by
  have hstart : (s.start f now).IsAlike R (s.start g now') := ⟨h, rfl, rfl, rfl⟩
  obtain ⟨hresult, hprogress⟩ :=
    visitAll_alike hR s.config hstart (Fleet.kinds (Fleet.sync f now))
  rcases hvisits : visitAll s.config (s.start f now) (Fleet.kinds (Fleet.sync f now)) with
    ⟨p, result⟩
  rcases hvisits' : visitAll s.config (s.start g now') (Fleet.kinds (Fleet.sync f now)) with
    ⟨q, result'⟩
  rw [hvisits, hvisits'] at hresult hprogress
  obtain rfl : result = result' := hresult
  obtain ⟨hfleet, hidle, hpools, hdecisions⟩ : p.IsAlike R q := hprogress
  have hsoles : p.idleSoles = q.idleSoles := by
    unfold Progress.idleSoles
    rw [hpools]
  rw [hR.kinds h] at hvisits'
  cases result with
  | error e =>
      rw [tick_of_visitAll_error hvisits, tick_of_visitAll_error hvisits', hidle]
      exact ⟨rfl, hfleet, rfl⟩
  | ok u =>
      rw [tick_of_visitAll_ok hvisits, tick_of_visitAll_ok hvisits', hidle, hsoles, hdecisions]
      exact ⟨rfl, hfleet, rfl⟩

end Scaler

end FleetSizing
