import FleetSizing.Fleet.Basic
/-!
# Scripted fleets

A fleet that shows a given sequence of frames and ignores every request.
-/

namespace FleetSizing

/-- What a fleet shows in one tick: its kinds in order, with their pools if they have any. -/
abbrev Frame := List (Kind × Option (List Snapshot))

namespace Frame

def pool? (f : Frame) (kind : Kind) : Option (List Snapshot) :=
  (f.find? (·.1 = kind)).bind (·.2)

def member? (f : Frame) (id : InstanceId) : Option Snapshot :=
  (f.flatMap fun entry => entry.2.getD []).find? (·.id = id)

end Frame

/-- A fleet that shows `current` now and one frame of `ahead` after each sync.  The last
frame stays. -/
structure Script where
  current : Frame := []
  ahead : List Frame := []

namespace Script

def next (s : Script) : Script :=
  match s.ahead with
  | [] => s
  | frame :: ahead => ⟨frame, ahead⟩

instance : Fleet Script where
  kinds s := s.current.map (·.1)
  pool? s kind := (s.current.pool? kind).map fun pool => pool.map (·.id)
  create s _ := s
  destroy s _ _ := s
  sync s _ := s.next
  utilization s id := ((s.current.member? id).map (·.utilization)).getD 0.0
  isBusy s id := ((s.current.member? id).map (·.busy)).getD false

end Script

end FleetSizing
