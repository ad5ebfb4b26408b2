import FleetSizing.Mean
/-!
# Utilization windows

The busy shares of the latest ticks of an instance, up to a fixed number of them.
-/

namespace FleetSizing

/-- Moves a double into the unit interval; `NaN` stays. -/
def clampToUnit (x : Float) : Float :=
  if x < 0.0 then 0.0 else if 1.0 < x then 1.0 else x

/-- The latest samples, at most `capacity` of them, the oldest first. -/
structure Window where
  capacity : Nat
  samples : List Float := []

namespace Window

/-- The empty window for a number of samples, at least one. -/
def ofCapacity (capacity : Nat) : Window := { capacity := max capacity 1 }

def record (w : Window) (x : Float) : Window :=
  let kept := if w.samples.length = w.capacity then w.samples.tail else w.samples
  { w with samples := kept ++ [clampToUnit x] }

def average (w : Window) : Float :=
  if w.samples.isEmpty then 0.0 else mean w.samples

def size (w : Window) : Nat := w.samples.length

end Window

end FleetSizing
