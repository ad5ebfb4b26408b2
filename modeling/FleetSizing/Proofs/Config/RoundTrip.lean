import FleetSizing.Proofs.Toml.Documents
/-!
# Configurations kept in files

A configuration that is written to a file and read again is the same one, unless it has a
defect: then reading the file reports that defect.
-/

namespace FleetSizing

open Toml

theorem Toml.optional_some {α : Type} (read : Toml → Option α) (default : α) (v : Toml) :
    optional read default (some v) = read v := rfl

namespace GrowthBand

def entries (band : GrowthBand) : Entries :=
  ("lower", .float band.lower) ::
    (match band.upper with
      | some upper => [("upper", .float upper)]
      | none => []) ++
    [("factor", .float band.factor)]

theorem nodup_keys_entries (band : GrowthBand) : (keys band.entries).Nodup := by
  cases hupper : band.upper with
  | none => simp [entries, keys, hupper]
  | some upper => simp [entries, keys, hupper]

theorem ofToml?_entries (band : GrowthBand) :
    ofToml? (.table .header band.entries) = some band := by
  cases band with
  | mk lower upper factor =>
      cases upper with
      | none => rfl
      | some upper => rfl

theorem mapM_ofToml? (bands : List GrowthBand) :
    ((bands.map entries).map (Toml.table .header)).mapM ofToml? = some bands := by
  induction bands with
  | nil => rfl
  | cons band bands ih =>
      rw [List.map_cons, List.map_cons, List.mapM_cons, ofToml?_entries, ih]
      rfl

end GrowthBand

namespace Config

theorem heading_growthBands : "\n[[growth_bands]]\n".toList =
    '\n' :: '[' :: '[' :: ("growth_bands".toList ++ [']', ']', '\n']) := by
  simp

theorem hasStatements_writeBand (band : GrowthBand) {rest : List Char} {list : List Statement}
    (h : HasStatements rest list) :
    HasStatements (writeBand band ++ rest)
      (.header ⟨[], "growth_bands", true⟩ :: (bindings band.entries).map .binding ++ list) := by
  have hfactor := h.binding (show IsBareKey "factor" by decide) (writes_double band.factor)
  unfold writeBand GrowthBand.entries bindings
  rw [heading_growthBands]
  cases hupper : band.upper with
  | none =>
      have hlower := hfactor.binding (show IsBareKey "lower" by decide) (writes_double band.lower)
      have hheader := hlower.header (show IsBareKey "growth_bands" by decide)
      simpa only [List.append_assoc, List.cons_append, List.nil_append, List.map_append,
        List.map_cons, List.map_nil] using hheader
  | some upper =>
      have hupper' := hfactor.binding (show IsBareKey "upper" by decide) (writes_double upper)
      have hlower := hupper'.binding (show IsBareKey "lower" by decide) (writes_double band.lower)
      have hheader := hlower.header (show IsBareKey "growth_bands" by decide)
      simpa only [List.append_assoc, List.cons_append, List.nil_append, List.map_append,
        List.map_cons, List.map_nil] using hheader

def entries (c : Config) : Entries :=
  [("tick_interval", .string c.tickInterval), ("idle_grace_ticks", .integer c.idleGraceTicks),
    ("destroy_utilization_threshold", .float c.destroyThreshold),
    ("utilization_window", .string c.utilizationWindow)] ++
  if c.growthBands = [] then [("growth_bands", .array [])] else []

/-- The growth bands below the fields of the configuration: all of their tables, or the
empty list if there is none. -/
theorem hasStatements_writeBands (bands : List GrowthBand) :
    HasStatements (writeBands bands)
      (listing (if bands = [] then [("growth_bands", .array [])] else []) "growth_bands"
        (bands.map GrowthBand.entries)) := by
  have htables (bands : List GrowthBand) : HasStatements (bands.flatMap writeBand)
      (listing [] "growth_bands" (bands.map GrowthBand.entries)) := by
    induction bands with
    | nil => exact hasStatements_nil
    | cons band bands ih => exact hasStatements_writeBand band ih
  cases bands with
  | nil =>
      have hline := hasStatements_nil.binding (show IsBareKey "growth_bands" by decide) writes_nil
      rw [List.append_nil] at hline
      exact hline
  | cons band bands => exact htables (band :: bands)

theorem hasStatements_write (c : Config) (hgrace : c.idleGraceTicks < Text.word32) :
    HasStatements c.write
      (listing c.entries "growth_bands" (c.growthBands.map GrowthBand.entries)) := by
  have hdigits : c.idleGraceTicks < Text.halfWord64 := hgrace.trans (by decide)
  have hwindow := (hasStatements_writeBands c.growthBands).binding
    (show IsBareKey "utilization_window" by decide) (writes_quote c.utilizationWindow)
  have hthreshold := hwindow.binding
    (show IsBareKey "destroy_utilization_threshold" by decide) (writes_double c.destroyThreshold)
  have hgraceTicks := hthreshold.binding
    (show IsBareKey "idle_grace_ticks" by decide) (writes_digits hdigits)
  have htick := hgraceTicks.binding
    (show IsBareKey "tick_interval" by decide) (writes_quote c.tickInterval)
  unfold write
  rw [List.append_assoc, List.append_assoc, List.append_assoc]
  exact htick

def allEntries (c : Config) : Entries :=
  c.entries ++ repeated "growth_bands" (c.growthBands.map GrowthBand.entries)

theorem ofStatements_write (c : Config) :
    ofStatements (listing c.entries "growth_bands" (c.growthBands.map GrowthBand.entries)) =
      some c.allEntries := by
  apply ofStatements_listing
  · by_cases h : c.growthBands = []
    · simp [entries, keys, h]
    · simp [entries, keys, h]
  · intro h
    have hbands : c.growthBands ≠ [] := by simpa using h
    simp [entries, keys, hbands]
  · intro table htable
    obtain ⟨band, -, rfl⟩ := List.mem_map.1 htable
    exact band.nodup_keys_entries

theorem listOf?_growthBands (c : Config) (default : List GrowthBand) :
    optional (listOf? GrowthBand.ofToml?) default (lookup "growth_bands" c.allEntries) =
      some c.growthBands := by
  cases hbands : c.growthBands with
  | nil =>
      have hlookup : lookup "growth_bands" c.allEntries = some (.array []) := by
        simp [allEntries, entries, lookup, repeated, hbands]
      rw [hlookup]
      rfl
  | cons band bands =>
      have hlookup : lookup "growth_bands" c.allEntries =
          some (.tables ((band :: bands).map GrowthBand.entries)) := by
        simp [allEntries, entries, lookup, repeated, hbands]
      rw [hlookup]
      exact GrowthBand.mapM_ofToml? (band :: bands)

theorem ofEntries?_allEntries (c : Config) (hgrace : c.idleGraceTicks < Text.word32) :
    ofEntries? c.allEntries = some c := by
  have htick : lookup "tick_interval" c.allEntries = some (.string c.tickInterval) := by
    simp [allEntries, entries, lookup]
  have hticks : lookup "idle_grace_ticks" c.allEntries = some (.integer c.idleGraceTicks) := by
    simp [allEntries, entries, lookup]
  have hthreshold : lookup "destroy_utilization_threshold" c.allEntries =
      some (.float c.destroyThreshold) := by
    simp [allEntries, entries, lookup]
  have hwindow : lookup "utilization_window" c.allEntries = some (.string c.utilizationWindow) := by
    simp [allEntries, entries, lookup]
  have hnat : natBelow? Text.word32 (.integer c.idleGraceTicks) = some c.idleGraceTicks := by
    simp [natBelow?, hgrace]
  unfold ofEntries?
  dsimp only
  rw [htick, hticks, hthreshold, hwindow, listOf?_growthBands, optional_some, optional_some,
    optional_some, optional_some, hnat]
  rfl

theorem dropMark_write (c : Config) : dropMark c.write = c.write := rfl

theorem parse_toText (c : Config) (hgrace : c.idleGraceTicks < Text.word32) :
    Toml.parse c.toText = some c.allEntries := by
  have htext : c.toText.toList = c.write := String.toList_ofList
  have hread := hasStatements_write c hgrace (c.write.length + 1) (Nat.lt_add_one _)
  unfold Toml.parse
  rw [htext, dropMark_write]
  dsimp only
  rw [hread, Option.bind_eq_bind, Option.bind_some, ofStatements_write]

/-- A configuration is read as it was written, or refused for what is wrong with it. -/
theorem ofText_toText (c : Config) (hgrace : c.idleGraceTicks < Text.word32) :
    (c.validate = .ok () → ofText c.toText = .ok c) ∧
      ∀ e, c.validate = .error e → ofText c.toText = .error e := by
  have hread : Toml.parse c.toText >>= ofEntries? = some c := by
    rw [parse_toText c hgrace, Option.bind_eq_bind, Option.bind_some,
      ofEntries?_allEntries c hgrace]
  unfold ofText
  rw [hread]
  dsimp only
  constructor
  · intro hvalid
    rw [hvalid]
    rfl
  · intro e he
    rw [he]
    rfl

/-- White space around durations, a factor without bound and a negative zero. -/
def padded : Config where
  tickInterval := "\t90 s"
  utilizationWindow := "\n1h\u00a0"
  growthBands := [⟨0.5, none, 1.0 / 0.0⟩, ⟨-0.0, some 0.25, 1.5⟩]

theorem ofText_toText_padded :
    ofText padded.toText = .ok padded ∧
      ofText { padded with growthBands := [] }.toText = .ok { padded with growthBands := [] } ∧
      ofText { padded with destroyThreshold := 0.0 / 0.0 }.toText =
        .error (.invalid (.threshold (0.0 / 0.0))) := by
  have hgrace : padded.idleGraceTicks < Text.word32 := by decide
  have hpadded := ofText_toText padded hgrace
  have hbandless := ofText_toText { padded with growthBands := [] } hgrace
  have hundefined := ofText_toText { padded with destroyThreshold := 0.0 / 0.0 } hgrace
  exact ⟨hpadded.1 (by decide), hbandless.1 (by decide), hundefined.2 _ (by decide)⟩

end Config

end FleetSizing
