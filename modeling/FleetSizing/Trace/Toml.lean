import FleetSizing.Toml.Document
import FleetSizing.Toml.Record
import FleetSizing.Trace.Basic
/-!
# The trace file

A trace is kept in a TOML file: its jobs as the tables `[[job]]`, further kinds in
the list `kinds`.
-/

namespace FleetSizing

namespace JobSpec

def fields : List String := ["kind", "arrival_tick", "duration", "count"]

def ofToml? (v : Toml) : Option JobSpec := do
  let field := v.field? fields
  return {
    kind := ← Toml.required Toml.string? (field "kind")
    arrivalTick := ← Toml.required (Toml.natBelow? Text.word64) (field "arrival_tick")
    duration := ← Toml.required Toml.string? (field "duration")
    count := ← Toml.optional (Toml.natBelow? Text.word32) 1 (field "count") }

end JobSpec

namespace Trace

def ofEntries? (entries : Toml.Entries) : Option Trace := do
  return {
    jobs := ← Toml.optional (Toml.listOf? JobSpec.ofToml?) [] (Toml.lookup "job" entries)
    kinds := ← Toml.optional (Toml.listOf? Toml.string?) [] (Toml.lookup "kinds" entries) }

def ofText (text : String) : Except TraceError Trace :=
  match Toml.parse text >>= ofEntries? with
  | none => .error .malformed
  | some t => do
    t.validate
    return t

/-- Reads and checks the trace in a file; `none` stands for a file that cannot be read. -/
def ofFile (bytes : Option ByteArray) : Except TraceError Trace :=
  match bytes >>= String.fromUTF8? with
  | none => .error .unreadable
  | some text => ofText text

end Trace

end FleetSizing
