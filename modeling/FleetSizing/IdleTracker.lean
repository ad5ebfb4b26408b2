import FleetSizing.Decision.Basic
import FleetSizing.SortedMap.Lemmas
/-!
# Idle counts

For how many ticks in a row each sole idle instance has been idle.  An instance
without a count has not been idle in the latest tick.
-/

namespace FleetSizing

structure IdleTracker where
  counts : SortedMap InstanceId Nat := ∅

namespace IdleTracker

instance : Inhabited IdleTracker := ⟨{}⟩

def get? (t : IdleTracker) (id : InstanceId) : Option Nat := t.counts.get? id

def observe (t : IdleTracker) (id : InstanceId) : IdleTracker :=
  ⟨t.counts.upsert id 0 (· + 1)⟩

def next (t : IdleTracker) (id : InstanceId) : Nat := (t.get? id).getD 0 + 1

def clear (t : IdleTracker) (id : InstanceId) : IdleTracker := ⟨t.counts.erase id⟩

def retain (t : IdleTracker) (ids : List InstanceId) : IdleTracker :=
  ⟨t.counts.filter fun id _ => id ∈ ids⟩

def size (t : IdleTracker) : Nat := t.counts.size

variable {t : IdleTracker} {id id' : InstanceId}

theorem get?_observe :
    (t.observe id).get? id' = if id' = id then some (t.next id) else t.get? id' :=
  SortedMap.get?_upsert

theorem get?_clear : (t.clear id).get? id' = if id' = id then none else t.get? id' :=
  SortedMap.get?_erase

theorem get?_retain {ids : List InstanceId} :
    (t.retain ids).get? id = if id ∈ ids then t.get? id else none := by
  have h : (t.retain ids).get? id = (t.get? id).filter fun _ => id ∈ ids :=
    SortedMap.get?_filter
  rw [h]
  cases t.get? id with
  | none => simp
  | some n => simp [Option.filter]

end IdleTracker

end FleetSizing
