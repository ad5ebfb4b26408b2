import FleetSizing.Command.Exit
import FleetSizing.Decision.Json
import FleetSizing.Proofs.Config.Derived
import FleetSizing.Proofs.Json.Records
import FleetSizing.Proofs.Json.Values
/-!
# Reports and summaries in JSON

What is written of a report or a summary is read as it was.  Reports are read alike whatever
the order of their fields, and whatever other fields stand among them.
-/

namespace FleetSizing

open Json Text

variable {v w : Json} {depth : Nat}

theorem decode_parse {α : Type} {decode : Json → Option α} {l : Layout} {x : α} (hl : l.Blank)
    (hv : Readable depthLimit v) (hdecode : decode v = some x) :
    (Json.parse (v.text l)).bind decode = some x := by
  have hparse := parse_text hl hv isBlank_nil
  rw [String.ofList_nil, String.append_empty] at hparse
  exact Option.bind_eq_some_iff.2 ⟨v, hparse, hdecode⟩

theorem inWord_of_lt_word64 {n : Nat} (h : n < word64) : InWord n := by
  unfold word64 at h
  unfold InWord word64 halfWord64
  omega

theorem readable_ofNat {n : Nat} (h : n < word64) : Readable depth (ofNat n) :=
  .integer (inWord_of_lt_word64 h)

theorem readable_ofFloat {x : Float} (h : x.isFinite = true) : Readable depth (ofFloat x) := by
  rw [ofFloat, if_pos h]
  exact .float h

theorem lt_word64_of_lt_word32 {n : Nat} (h : n < word32) : n < word64 :=
  Nat.lt_trans h (by decide)

namespace Action

variable {a : Action}

def InRange : Action → Prop
  | .create _ => True
  | .destroy _ id => id < word64

theorem readable (h : a.InRange) : Readable (depth + 1) a.toJson := by
  cases a with
  | create kind =>
      apply Readable.object
      simp [Readable.string]
  | destroy kind id =>
      apply Readable.object
      simp [Readable.string, readable_ofNat h]

theorem ofJson?_toJson (h : a.InRange) : ofJson? a.toJson = some a := by
  cases a with
  | create kind =>
      obtain ⟨F, hF, hkind⟩ : ∃ F, variant? "action" order (create kind).toJson =
          some ("create", F) ∧ F.read "kind" string? = some kind := ⟨_, rfl, read_string rfl⟩
      simp [ofJson?, hF, hkind]
  | destroy kind id =>
      obtain ⟨F, hF, hkind, hid⟩ : ∃ F, variant? "action" order (destroy kind id).toJson =
          some ("destroy", F) ∧ F.read "kind" string? = some kind ∧
            F.read "instance" (natBelow? word64) = some id :=
        ⟨_, rfl, read_string rfl, read_ofNat rfl h⟩
      simp [ofJson?, hF, hkind, hid]

theorem ofJson?_congr (h : SameVariant "action" order v w) : ofJson? v = ofJson? w := by
  apply h.bind_eq
  intro name names F G hnames hread
  unfold order at hnames
  split at hnames
  all_goals cases hnames
  all_goals simp [Fields.read, hread]

end Action

namespace Outcome

variable {o : Outcome}

def InRange : Outcome → Prop
  | .coldStart => True
  | .gracePeriod idleTicks => idleTicks < word32
  | .retired id => id < word64
  | .shrunk destroyed => destroyed < word32
  | .grew average factor requested =>
    average.isFinite = true ∧ factor.isFinite = true ∧ requested < word32
  | .steady average => average.isFinite = true

theorem readable (h : o.InRange) : Readable (depth + 1) (o.toJson ofFloat) := by
  cases o with
  | coldStart =>
      apply Readable.object
      simp [Readable.string]
  | gracePeriod idleTicks =>
      apply Readable.object
      simp [Readable.string, readable_ofNat (lt_word64_of_lt_word32 h)]
  | retired id =>
      apply Readable.object
      simp [Readable.string, readable_ofNat h]
  | shrunk destroyed =>
      apply Readable.object
      simp [Readable.string, readable_ofNat (lt_word64_of_lt_word32 h)]
  | grew average factor requested =>
      obtain ⟨haverage, hfactor, hrequested⟩ := h
      apply Readable.object
      simp [Readable.string, readable_ofFloat haverage, readable_ofFloat hfactor,
        readable_ofNat (lt_word64_of_lt_word32 hrequested)]
  | steady average =>
      apply Readable.object
      simp [Readable.string, readable_ofFloat h]

theorem ofJson?_toJson (h : o.InRange) : ofJson? (o.toJson ofFloat) = some o := by
  cases o with
  | coldStart =>
      obtain ⟨F, hF⟩ : ∃ F, variant? "outcome" order (coldStart.toJson ofFloat) =
          some ("cold_start", F) := ⟨_, rfl⟩
      simp [ofJson?, hF]
  | gracePeriod idleTicks =>
      obtain ⟨F, hF, hidleTicks⟩ : ∃ F,
          variant? "outcome" order ((gracePeriod idleTicks).toJson ofFloat) =
            some ("grace_period", F) ∧
          F.read "idle_ticks" (natBelow? word32) = some idleTicks := ⟨_, rfl, read_ofNat rfl h⟩
      simp [ofJson?, hF, hidleTicks]
  | retired id =>
      obtain ⟨F, hF, hid⟩ : ∃ F, variant? "outcome" order ((retired id).toJson ofFloat) =
            some ("retired", F) ∧
          F.read "instance" (natBelow? word64) = some id := ⟨_, rfl, read_ofNat rfl h⟩
      simp [ofJson?, hF, hid]
  | shrunk destroyed =>
      obtain ⟨F, hF, hdestroyed⟩ : ∃ F,
          variant? "outcome" order ((shrunk destroyed).toJson ofFloat) = some ("shrunk", F) ∧
          F.read "destroyed" (natBelow? word32) = some destroyed := ⟨_, rfl, read_ofNat rfl h⟩
      simp [ofJson?, hF, hdestroyed]
  | grew average factor requested =>
      obtain ⟨F, hF, haverage, hfactor, hrequested⟩ : ∃ F,
          variant? "outcome" order ((grew average factor requested).toJson ofFloat) =
            some ("grew", F) ∧
          F.read "average" double? = some average ∧ F.read "factor" double? = some factor ∧
          F.read "requested" (natBelow? word32) = some requested :=
        ⟨_, rfl, read_ofFloat rfl h.1, read_ofFloat rfl h.2.1, read_ofNat rfl h.2.2⟩
      simp [ofJson?, hF, haverage, hfactor, hrequested]
  | steady average =>
      obtain ⟨F, hF, haverage⟩ : ∃ F, variant? "outcome" order ((steady average).toJson ofFloat) =
            some ("steady", F) ∧
          F.read "average" double? = some average := ⟨_, rfl, read_ofFloat rfl h⟩
      simp [ofJson?, hF, haverage]

theorem ofJson?_congr (h : SameVariant "outcome" order v w) : ofJson? v = ofJson? w := by
  apply h.bind_eq
  intro name names F G hnames hread
  unfold order at hnames
  split at hnames
  all_goals cases hnames
  all_goals simp [Fields.read, hread]

end Outcome

namespace Decision

variable {d : Decision}

structure InRange (d : Decision) : Prop where
  poolSize : d.poolSize < word64
  outcome : d.outcome.InRange
  actions : ∀ a ∈ d.actions, a.InRange

theorem readable (h : d.InRange) : Readable (depth + 3) (d.toJson ofFloat) := by
  have hactions : Readable (depth + 2) (.array (d.actions.map (·.toJson))) :=
    .array_map fun a ha => Action.readable (h.actions a ha)
  apply Readable.object
  simp [Readable.string, readable_ofNat h.poolSize, Outcome.readable h.outcome, hactions]

theorem ofJson?_toJson (h : d.InRange) : ofJson? (d.toJson ofFloat) = some d := by
  obtain ⟨F, hF, hkind, hsize, houtcome, hactions⟩ : ∃ F,
      record? order (d.toJson ofFloat) = some F ∧
      F.read "kind" string? = some d.kind ∧
      F.read "pool_size" (natBelow? word64) = some d.poolSize ∧
      F.read "outcome" Outcome.ofJson? = some d.outcome ∧
      F.read "actions" (listOf? Action.ofJson?) = some d.actions :=
    ⟨_, rfl, read_string rfl, read_ofNat rfl h.poolSize,
      (read_eq rfl).trans (Outcome.ofJson?_toJson h.outcome),
      read_list rfl fun a ha => Action.ofJson?_toJson (h.actions a ha)⟩
  simp [ofJson?, hF, hkind, hsize, houtcome, hactions]

/-- How the values of two fields of a name may differ. -/
def Same : String → Json → Json → Prop
  | "outcome" => SameVariant "outcome" Outcome.order
  | "actions" => SameItems (SameVariant "action" Action.order)
  | _ => Eq

theorem same_refl (name : String) (v : Json) : Same name v v := by
  unfold Same
  split
  next => exact .refl v
  next => exact .refl v
  next => rfl

theorem ofJson?_congr (h : SameRecord order Same v w) : ofJson? v = ofJson? w := by
  apply h.bind_eq same_refl
  intro F G h
  have hkind := read_congr_eq (h "kind" (by decide)) string?
  have hsize := read_congr_eq (h "pool_size" (by decide)) (natBelow? word64)
  have houtcome := read_congr (h "outcome" (by decide)) fun _ _ => Outcome.ofJson?_congr
  have hactions := read_congr (h "actions" (by decide))
    fun _ _ h => listOf?_congr h fun _ _ => Action.ofJson?_congr
  simp [hkind, hsize, houtcome, hactions]

end Decision

/-! ## Reports and summaries -/

namespace TickReport

variable {r : TickReport}

structure InRange (r : TickReport) : Prop where
  tick : r.tick < word64
  now : r.now < word64
  decisions : ∀ d ∈ r.decisions, d.InRange
  trackedIdle : r.trackedIdle < word64

theorem readable (h : r.InRange) : Readable (depth + 5) (r.toJson ofFloat) := by
  have hdecisions : Readable (depth + 4) (.array (r.decisions.map (·.toJson ofFloat))) :=
    .array_map fun d hd => Decision.readable (h.decisions d hd)
  apply Readable.object
  simp [readable_ofNat h.tick, readable_ofNat h.now, readable_ofNat h.trackedIdle, hdecisions]

theorem ofJson?_toJson (h : r.InRange) : ofJson? (r.toJson ofFloat) = some r := by
  obtain ⟨F, hF, htick, hnow, hdecisions, htracked⟩ : ∃ F,
      record? order (r.toJson ofFloat) = some F ∧
      F.read "tick" (natBelow? word64) = some r.tick ∧
      F.read "now" (natBelow? word64) = some r.now ∧
      F.read "kinds" (listOf? Decision.ofJson?) = some r.decisions ∧
      F.read "tracked_idle" (natBelow? word64) = some r.trackedIdle :=
    ⟨_, rfl, read_ofNat rfl h.tick, read_ofNat rfl h.now,
      read_list rfl fun d hd => Decision.ofJson?_toJson (h.decisions d hd),
      read_ofNat rfl h.trackedIdle⟩
  simp [ofJson?, hF, htick, hnow, hdecisions, htracked]

def Same : String → Json → Json → Prop
  | "kinds" => SameItems (SameRecord Decision.order Decision.Same)
  | _ => Eq

theorem same_refl (name : String) (v : Json) : Same name v v := by
  unfold Same
  split
  next => exact .refl v
  next => rfl

theorem ofJson?_congr (h : SameRecord order Same v w) : ofJson? v = ofJson? w := by
  apply h.bind_eq same_refl
  intro F G h
  have htick := read_congr_eq (h "tick" (by decide)) (natBelow? word64)
  have hnow := read_congr_eq (h "now" (by decide)) (natBelow? word64)
  have hdecisions := read_congr (h "kinds" (by decide))
    fun _ _ h => listOf?_congr h fun _ _ => Decision.ofJson?_congr
  have htracked := read_congr_eq (h "tracked_idle" (by decide)) (natBelow? word64)
  simp [htick, hnow, hdecisions, htracked]

end TickReport

namespace KindSummary

variable {k : KindSummary}

structure InRange (k : KindSummary) : Prop where
  finalPool : k.finalPool < word64
  peakPool : k.peakPool < word64
  created : k.created < word64
  destroyed : k.destroyed < word64
  submitted : k.submitted < word64
  completed : k.completed < word64
  backlog : k.backlog < word64

theorem readable (h : k.InRange) : Readable (depth + 1) k.toJson := by
  apply Readable.object
  simp [Readable.string, readable_ofNat h.finalPool, readable_ofNat h.peakPool,
    readable_ofNat h.created, readable_ofNat h.destroyed, readable_ofNat h.submitted,
    readable_ofNat h.completed, readable_ofNat h.backlog]

theorem ofJson?_toJson (h : k.InRange) : ofJson? k.toJson = some k := by
  obtain ⟨F, hF, hkind, hfinal, hpeak, hcreated, hdestroyed, hsubmitted, hcompleted, hbacklog⟩ :
      ∃ F, record? order k.toJson = some F ∧
      F.read "kind" string? = some k.kind ∧
      F.read "final_pool" (natBelow? word64) = some k.finalPool ∧
      F.read "peak_pool" (natBelow? word64) = some k.peakPool ∧
      F.read "created" (natBelow? word64) = some k.created ∧
      F.read "destroyed" (natBelow? word64) = some k.destroyed ∧
      F.read "jobs_submitted" (natBelow? word64) = some k.submitted ∧
      F.read "jobs_completed" (natBelow? word64) = some k.completed ∧
      F.read "backlog" (natBelow? word64) = some k.backlog :=
    ⟨_, rfl, read_string rfl, read_ofNat rfl h.finalPool, read_ofNat rfl h.peakPool,
      read_ofNat rfl h.created, read_ofNat rfl h.destroyed, read_ofNat rfl h.submitted,
      read_ofNat rfl h.completed, read_ofNat rfl h.backlog⟩
  simp [ofJson?, hF, hkind, hfinal, hpeak, hcreated, hdestroyed, hsubmitted, hcompleted, hbacklog]

end KindSummary

namespace Summary

variable {s : Summary}

structure InRange (s : Summary) : Prop where
  ticks : s.ticks < word64
  seconds : s.seconds < word64
  outstanding : s.outstanding < word64
  kinds : ∀ k ∈ s.kinds, k.InRange

theorem readable (h : s.InRange) : Readable (depth + 3) s.toJson := by
  have hkinds : Readable (depth + 2) (.array (s.kinds.map (·.toJson))) :=
    .array_map fun k hk => KindSummary.readable (h.kinds k hk)
  apply Readable.object
  simp [readable_ofNat h.ticks, readable_ofNat h.seconds, readable_ofNat h.outstanding, hkinds]

theorem ofJson?_toJson (h : s.InRange) : ofJson? s.toJson = some s := by
  obtain ⟨F, hF, hticks, hseconds, houtstanding, hkinds⟩ : ∃ F,
      record? order s.toJson = some F ∧
      F.read "ticks" (natBelow? word64) = some s.ticks ∧
      F.read "simulated_secs" (natBelow? word64) = some s.seconds ∧
      F.read "outstanding_jobs" (natBelow? word64) = some s.outstanding ∧
      F.read "kinds" (listOf? KindSummary.ofJson?) = some s.kinds :=
    ⟨_, rfl, read_ofNat rfl h.ticks, read_ofNat rfl h.seconds, read_ofNat rfl h.outstanding,
      read_list rfl fun k hk => KindSummary.ofJson?_toJson (h.kinds k hk)⟩
  simp [ofJson?, hF, hticks, hseconds, houtstanding, hkinds]

theorem ofJson?_parse_printed (h : s.InRange) :
    (Json.parse (s.toJson.text indented ++ "\n")).bind ofJson? = some s := by
  have hline : IsBlank ['\n'] := by simp [IsBlank, isSpace]
  have hreadable : Readable depthLimit s.toJson := readable h
  have hparse : Json.parse (s.toJson.text indented ++ "\n") = some s.toJson :=
    parse_text blank_indented hreadable hline
  exact Option.bind_eq_some_iff.2 ⟨_, hparse, ofJson?_toJson h⟩

end Summary

/-! ## The printed forms -/

namespace Command

variable {files : Files} {config : Option String} {trace out : String} {ticks : Nat}
  {json metrics : Bool}

theorem replay_eq_ok_iff : replay files config trace ticks json metrics = .ok out ↔
    ∃ c t start sim, loadConfig files config = .ok c ∧ loadTrace files trace = .ok t ∧
      Simulation.new c t = .ok start ∧ start.run ticks = .ok sim ∧
      epilogue sim.summary json
        (if metrics then some (.ofReports sim.reports.toList) else none) = out := by
  simp only [replay, bind_eq_ok_iff, mapError_eq_ok_iff]
  constructor
  · rintro ⟨c, hc, t, ht, start, hstart, sim, hsim, h⟩
    exact ⟨c, t, start, sim, hc, ht, hstart, hsim, Except.ok.inj h⟩
  · rintro ⟨c, t, start, sim, hc, ht, hstart, hsim, h⟩
    exact ⟨c, hc, t, ht, start, hstart, sim, hsim, congrArg _ h⟩

theorem execute_simulate (h : replay files config trace ticks json metrics = .ok out) :
    execute files (.simulate config trace ticks json metrics) =
      .ok (.exit { code := 0, stdout := out }) := by
  simp only [execute, h]
  rfl

theorem loadTrace_eq {text : String} {t : Trace} (hfile : files trace = some text.toUTF8)
    (h : Trace.ofText text = .ok t) : loadTrace files trace = .ok t := by
  have hread : Trace.ofFile (files trace) = .ok t := by
    unfold Trace.ofFile
    rw [hfile, Option.bind_eq_bind, Option.bind_some, fromUTF8?_toUTF8]
    exact h
  exact mapError_eq_ok_iff.2 hread

end Command

/-- What is written of a report or a summary in JSON, in any layout, is parsed and decoded to
what it was, and so is the text that a simulation prints.  Reports in objects are decoded alike
whatever the order of the fields, and whatever other fields there are. -/
theorem decoded_as_encoded :
    (∀ r : TickReport, r.InRange → TickReport.ofJson? (r.toJson ofFloat) = some r ∧
      ∀ l : Layout, l.Blank →
        (Json.parse ((r.toJson ofFloat).text l)).bind TickReport.ofJson? = some r) ∧
    (∀ s : Summary, s.InRange → Summary.ofJson? s.toJson = some s ∧
      ∀ l : Layout, l.Blank → (Json.parse (s.toJson.text l)).bind Summary.ofJson? = some s) ∧
    (∀ files config trace ticks metrics e,
      Command.execute files (.simulate config trace ticks true metrics) = .ok (.exit e) →
      ∃ c t start sim,
        Command.loadConfig files config = .ok c ∧ Command.loadTrace files trace = .ok t ∧
        Simulation.new c t = .ok start ∧ start.run ticks = .ok sim ∧
        (sim.summary.InRange → ∃ json,
          e.stdout = json ++
            (if metrics then "\n" ++ (Metrics.ofReports sim.reports.toList).text else "") ∧
          (Json.parse json).bind Summary.ofJson? = some sim.summary)) ∧
    ∀ v w, SameRecord TickReport.order TickReport.Same v w →
      TickReport.ofJson? v = TickReport.ofJson? w := by
  refine ⟨fun r hr => ⟨TickReport.ofJson?_toJson hr, fun l hl => ?_⟩,
    fun s hs => ⟨Summary.ofJson?_toJson hs, fun l hl => ?_⟩, ?_,
    fun v w => TickReport.ofJson?_congr⟩
  · exact decode_parse hl (TickReport.readable hr) (TickReport.ofJson?_toJson hr)
  · exact decode_parse hl (Summary.readable hs) (Summary.ofJson?_toJson hs)
  · intro files config trace ticks metrics e h
    obtain ⟨out, hout, h⟩ := bind_eq_ok_iff.1 h
    obtain ⟨c, t, start, sim, hc, ht, hstart, hsim, rfl⟩ := Command.replay_eq_ok_iff.1 hout
    obtain rfl := Command.Effect.exit.inj (Except.ok.inj h)
    refine ⟨c, t, start, sim, hc, ht, hstart, hsim, fun hrange => ⟨_, ?_,
      Summary.ofJson?_parse_printed hrange⟩⟩
    cases metrics <;> rfl

/-- A report with a name that has to be escaped, and numbers as large as they get. -/
def quotedReport : TickReport :=
  ⟨1, 18446744073709551615,
    [⟨"a\"b\\c\n", 2, .steady 0.5, [.destroy "a\"b\\c\n" 18446744073709551615]⟩], 0⟩

def shuffledOutcome : Json :=
  .object [("average", .float 0.5), ("factor", .null), ("outcome", .string "steady")]

def shuffledAction : Json :=
  .object [("instance", ofNat 18446744073709551615), ("kind", .string "a\"b\\c\n"),
    ("unit", .null), ("action", .string "destroy")]

def shuffledReport : Json :=
  .object [("tracked_idle", ofNat 0), ("version", .string "2"),
    ("kinds", .array [.object [("actions", .array [shuffledAction]), ("outcome", shuffledOutcome),
      ("pool_size", ofNat 2), ("kind", .string "a\"b\\c\n"), ("tick", ofNat 7)]]),
    ("now", ofNat 18446744073709551615), ("tick", ofNat 1)]

theorem inRange_quotedReport : quotedReport.InRange := by
  refine ⟨by decide, by decide, fun d hd => ?_, by decide⟩
  obtain rfl := List.mem_singleton.1 hd
  refine ⟨by decide, rfl, fun a ha => ?_⟩
  obtain rfl := List.mem_singleton.1 ha
  exact Nat.lt_succ_self _

theorem sameRecord_shuffledReport :
    SameRecord TickReport.order TickReport.Same shuffledReport (quotedReport.toJson ofFloat) := by
  have haction : SameVariant "action" Action.order shuffledAction
      (Action.toJson (.destroy "a\"b\\c\n" 18446744073709551615)) :=
    .object (.of_reverse (by decide +kernel)
      (.cons ⟨rfl, rfl⟩ (.cons ⟨rfl, rfl⟩ (.cons ⟨rfl, rfl⟩ .nil))))
  have houtcome : SameVariant "outcome" Outcome.order shuffledOutcome
      (Outcome.toJson ofFloat (.steady 0.5)) :=
    .object (.of_reverse (by decide +kernel) (.cons ⟨rfl, rfl⟩ (.cons ⟨rfl, rfl⟩ .nil)))
  have hdecision : SameRecord Decision.order Decision.Same
      (.object [("actions", .array [shuffledAction]), ("outcome", shuffledOutcome),
        ("pool_size", ofNat 2), ("kind", .string "a\"b\\c\n"), ("tick", ofNat 7)])
      (Decision.toJson ofFloat ⟨"a\"b\\c\n", 2, .steady 0.5,
        [.destroy "a\"b\\c\n" 18446744073709551615]⟩) :=
    .object (.of_reverse (by decide +kernel)
      (.cons ⟨rfl, Decision.same_refl _ _⟩ (.cons ⟨rfl, Decision.same_refl _ _⟩
        (.cons ⟨rfl, houtcome⟩ (.cons ⟨rfl, .array (.cons haction .nil)⟩ .nil)))))
  exact .object (.of_reverse (by decide +kernel)
    (.cons ⟨rfl, TickReport.same_refl _ _⟩ (.cons ⟨rfl, TickReport.same_refl _ _⟩
      (.cons ⟨rfl, .array (.cons hdecision .nil)⟩ (.cons ⟨rfl, TickReport.same_refl _ _⟩ .nil)))))

theorem decoded_as_encoded_shuffled :
    let files : Command.Files := fun _ => some "kinds = ['a\"b']\n".toUTF8
    let summary : Summary := ⟨2, 240, 0, [⟨"a\"b", 1, 1, 1, 0, 0, 0, 0⟩]⟩
    (Json.parse ((quotedReport.toJson ofFloat).text indented)).bind TickReport.ofJson? =
        some quotedReport ∧
      TickReport.ofJson? shuffledReport = some quotedReport ∧
      (Json.parse (summary.toJson.text compact)).bind Summary.ofJson? = some summary ∧
      ∃ e, Command.execute files (.simulate none "load.toml" 2 true false) = .ok (.exit e) ∧
        (Json.parse e.stdout).bind Summary.ofJson? = some summary := by
  intro files summary
  have hsummary : summary.InRange := by
    refine ⟨by decide, by decide, by decide, fun k hk => ?_⟩
    obtain rfl := List.mem_singleton.1 hk
    exact ⟨by decide, by decide, by decide, by decide, by decide, by decide, by decide⟩
  have htrace : Command.loadTrace files "load.toml" = .ok ⟨[], ["a\"b"]⟩ :=
    Command.loadTrace_eq rfl (by decide +kernel)
  have hrun : (do
      let start ← (Simulation.new {} ⟨[], ["a\"b"]⟩).mapError fun _ => ()
      let sim ← (start.run 2).mapError fun _ => ()
      return sim.summary) = Except.ok summary := by decide +kernel
  simp only [bind_eq_ok_iff, mapError_eq_ok_iff] at hrun
  obtain ⟨start, hstart, sim, hsim, hend⟩ := hrun
  have hstands : sim.summary = summary := Except.ok.inj hend
  have hreplay : Command.replay files none "load.toml" 2 true false = .ok _ :=
    Command.replay_eq_ok_iff.2 ⟨{}, _, start, sim, rfl, htrace, hstart, hsim, rfl⟩
  have hexecute := Command.execute_simulate hreplay
  obtain ⟨hreports, hsummaries, hprinted, hsame⟩ := decoded_as_encoded
  obtain ⟨hdecode, htext⟩ := hreports quotedReport inRange_quotedReport
  refine ⟨htext indented blank_indented, (hsame _ _ sameRecord_shuffledReport).trans hdecode,
    (hsummaries summary hsummary).2 compact blank_compact, _, hexecute, ?_⟩
  obtain ⟨c, t, start', sim', hc, ht, hstart', hsim', hdecoded⟩ := hprinted _ _ _ _ _ _ hexecute
  obtain rfl : {} = c := Except.ok.inj hc
  obtain rfl : ⟨[], ["a\"b"]⟩ = t := Except.ok.inj (htrace.symm.trans ht)
  obtain rfl : start = start' := Except.ok.inj (hstart.symm.trans hstart')
  obtain rfl : sim = sim' := Except.ok.inj (hsim.symm.trans hsim')
  obtain ⟨json, hout, hread⟩ := hdecoded (hstands.symm ▸ hsummary)
  rw [hout, if_neg Bool.false_ne_true, String.append_empty, hread, hstands]

end FleetSizing
