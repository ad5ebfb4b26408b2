/-!
# Means

The mean of doubles, summed from the left.
-/

namespace FleetSizing

/-- The sum from the left.  The sum of nothing is `-0`, which is neutral for addition. -/
def total (xs : List Float) : Float := xs.foldl (· + ·) (-0.0)

/-- The sum from the left divided by the number of summands. -/
def mean (xs : List Float) : Float := total xs / Float.ofNat xs.length

end FleetSizing
