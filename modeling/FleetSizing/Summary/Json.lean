import FleetSizing.Json.Record
import FleetSizing.Summary.Basic
/-!
# Summaries in JSON

The form of summaries in JSON.
-/

namespace FleetSizing

open Json

namespace KindSummary

def order : List String :=
  ["kind", "final_pool", "peak_pool", "created", "destroyed", "jobs_submitted",
   "jobs_completed", "backlog"]

def toJson (k : KindSummary) : Json :=
  .object
    [("kind", .string k.kind), ("final_pool", .ofNat k.finalPool),
     ("peak_pool", .ofNat k.peakPool), ("created", .ofNat k.created),
     ("destroyed", .ofNat k.destroyed), ("jobs_submitted", .ofNat k.submitted),
     ("jobs_completed", .ofNat k.completed), ("backlog", .ofNat k.backlog)]

def ofJson? (v : Json) : Option KindSummary := do
  let fields ← record? order v
  let count (name : String) : Option Nat := fields.read name (natBelow? Text.word64)
  return {
    kind := ← fields.read "kind" string?
    finalPool := ← count "final_pool"
    peakPool := ← count "peak_pool"
    created := ← count "created"
    destroyed := ← count "destroyed"
    submitted := ← count "jobs_submitted"
    completed := ← count "jobs_completed"
    backlog := ← count "backlog" }

end KindSummary

namespace Summary

def order : List String := ["ticks", "simulated_secs", "outstanding_jobs", "kinds"]

def toJson (s : Summary) : Json :=
  .object
    [("ticks", .ofNat s.ticks), ("simulated_secs", .ofNat s.seconds),
     ("outstanding_jobs", .ofNat s.outstanding), ("kinds", .array (s.kinds.map (·.toJson)))]

def ofJson? (v : Json) : Option Summary := do
  let fields ← record? order v
  return {
    ticks := ← fields.read "ticks" (natBelow? Text.word64)
    seconds := ← fields.read "simulated_secs" (natBelow? Text.word64)
    outstanding := ← fields.read "outstanding_jobs" (natBelow? Text.word64)
    kinds := ← fields.read "kinds" (listOf? KindSummary.ofJson?) }

end Summary

end FleetSizing
