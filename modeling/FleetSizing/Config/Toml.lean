import FleetSizing.Config.Check
import FleetSizing.Toml.Document
import FleetSizing.Toml.Record
/-!
# The configuration file

A configuration is kept in a TOML file.  Every field may be left out and then has
its default; a list of growth bands replaces the default table.
-/

namespace FleetSizing

namespace GrowthBand

def fields : List String := ["lower", "upper", "factor"]

def ofToml? (v : Toml) : Option GrowthBand := do
  let field := v.field? fields
  return {
    lower := ← Toml.required Toml.double? (field "lower")
    upper := ← Toml.optional (fun u => u.double?.map some) none (field "upper")
    factor := ← Toml.required Toml.double? (field "factor") }

end GrowthBand

namespace Config

def ofEntries? (entries : Toml.Entries) : Option Config := do
  let field name := Toml.lookup name entries
  let default : Config := {}
  return {
    tickInterval := ← Toml.optional Toml.string? default.tickInterval (field "tick_interval")
    idleGraceTicks := ← Toml.optional (Toml.natBelow? Text.word32) default.idleGraceTicks
      (field "idle_grace_ticks")
    destroyThreshold := ← Toml.optional Toml.double? default.destroyThreshold
      (field "destroy_utilization_threshold")
    utilizationWindow := ← Toml.optional Toml.string? default.utilizationWindow
      (field "utilization_window")
    growthBands := ← Toml.optional (Toml.listOf? GrowthBand.ofToml?) default.growthBands
      (field "growth_bands") }

def ofText (text : String) : Except ConfigError Config :=
  match Toml.parse text >>= ofEntries? with
  | none => .error .malformed
  | some c => do
    c.validate
    return c

/-- Reads and checks the configuration in a file; `none` stands for a file that cannot
be read. -/
def ofFile (bytes : Option ByteArray) : Except ConfigError Config :=
  match bytes >>= String.fromUTF8? with
  | none => .error .unreadable
  | some text => ofText text

/-! ## Writing -/

/-- The spelling of doubles in TOML: `0.2`, `1.0`, `-0.0`, `nan`, `inf`. -/
def inToml : Decimal.Spelling := ⟨['n', 'a', 'n'], ['i', 'n', 'f'], ['.', '0']⟩

def line (key : String) (value : List Char) : List Char :=
  key.toList ++ " = ".toList ++ value ++ ['\n']

def writeBand (band : GrowthBand) : List Char :=
  "\n[[growth_bands]]\n".toList ++
    line "lower" (Decimal.write inToml band.lower) ++
    (match band.upper with
      | some upper => line "upper" (Decimal.write inToml upper)
      | none => []) ++
    line "factor" (Decimal.write inToml band.factor)

/-- The bands at the end of the file; an empty table must be written, since a missing
one means the default. -/
def writeBands : List GrowthBand → List Char
  | [] => line "growth_bands" ['[', ']']
  | bands => bands.flatMap writeBand

def write (c : Config) : List Char :=
  line "tick_interval" (Toml.quote c.tickInterval.toList) ++
    line "idle_grace_ticks" (Text.digits c.idleGraceTicks) ++
    line "destroy_utilization_threshold" (Decimal.write inToml c.destroyThreshold) ++
    line "utilization_window" (Toml.quote c.utilizationWindow.toList) ++
    writeBands c.growthBands

def toText (c : Config) : String := String.ofList c.write

end Config

end FleetSizing
