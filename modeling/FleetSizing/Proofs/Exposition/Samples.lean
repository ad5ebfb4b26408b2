import FleetSizing.Proofs.Exposition.Grammar
/-!
# What an exposition tells

Metrics are told by their exposition, sample by sample, as long as the names of the kinds can
stand for themselves in a label.  With any other name, which would have to be escaped and is
not, the exposition cannot be read at all or tells something else.
-/

namespace FleetSizing.Metrics

open Text

structure Sample where
  name : String
  kind : Option Kind
  figure : Figure

def isNameChar (c : Char) : Bool := c.isAlphanum || c == '_' || c == ':'

def kindLabel? (cs : List Char) : Option (Option Kind × List Char) :=
  match Json.dropText ('\x7b' :: "kind=\"".toList) cs with
  | none => some (none, cs)
  | some r => do
    let (v, r) ← labelText r
    return (some (String.ofList v), ← Json.dropText ['\x7d'] r)

/-- A name that does not begin with a digit, perhaps a label, a blank and a number. -/
def sample? (cs : List Char) : Option Sample :=
  let name := cs.takeWhile isNameChar
  if name.head?.all Char.isDigit then none
  else do
    let (kind, r) ← kindLabel? (cs.dropWhile isNameChar)
    let r ← Json.dropText [' '] r
    return ⟨String.ofList name, kind, ← figure? r⟩

def line? : List Char → Option (Option Sample)
  | '#' :: _ => some none
  | cs => (sample? cs).map some

/-- All samples of an exposition, of which every line can be read. -/
def samples? (cs : List Char) : Option (List Sample) :=
  (lines? cs).bind fun ls => (ls.mapM line?).map List.reduceOption

def figures : List (String × (KindMetrics → Figure)) :=
  [("poolscale_pool_size", fun m => .ofNat m.poolSize),
   ("poolscale_average_utilization", fun m => .rounded 4 m.average),
   ("poolscale_idle_ticks", fun m => .ofNat m.idleTicks),
   ("poolscale_instances_created_total", fun m => .ofNat m.created),
   ("poolscale_instances_destroyed_total", fun m => .ofNat m.destroyed),
   ("poolscale_retirements_total", fun m => .ofNat m.retirements)]

/-- The number of ticks, then name by name a sample for each kind. -/
def told (kinds : List (Kind × KindMetrics)) (ticks : Nat) : List Sample :=
  ⟨"poolscale_ticks_total", none, .ofNat ticks⟩ ::
    figures.flatMap fun (name, figure) =>
      kinds.map fun (kind, m) => ⟨name, some kind, figure m⟩

/-! ## The lines of an exposition -/

/-- A text that consists of whole lines and tells some samples. -/
def Tells (cs : List Char) (list : List Sample) : Prop :=
  ∀ rest, samples? (cs ++ rest) = (samples? rest).map (list ++ ·)

theorem Tells.append {cs cs' : List Char} {list list' : List Sample} (h : Tells cs list)
    (h' : Tells cs' list') : Tells (cs ++ cs') (list ++ list') := by
  intro rest
  rw [List.append_assoc, h, h']
  cases samples? rest with
  | none => rfl
  | some more => exact congrArg some (List.append_assoc ..).symm

theorem tells_nil : Tells [] [] := fun rest => by
  cases h : samples? rest <;> simp [h]

theorem Tells.flatMap {α : Type} {xs : List α} {text : α → List Char} {list : α → List Sample}
    (h : ∀ x ∈ xs, Tells (text x) (list x)) : Tells (xs.flatMap text) (xs.flatMap list) := by
  induction xs with
  | nil => exact tells_nil
  | cons x xs ih =>
      exact (h x (List.mem_cons_self ..)).append (ih fun y hy => h y (List.mem_cons_of_mem x hy))

theorem Tells.samples? {cs : List Char} {list : List Sample} (h : Tells cs list) :
    samples? cs = some list := by
  have hall := h []
  rw [List.append_nil] at hall
  rw [hall]
  exact congrArg some (List.append_nil list)

theorem tells_line {l : List Char} {o : Option Sample} (hl : '\n' ∉ l) (h : line? l = some o) :
    Tells (l ++ ['\n']) o.toList := by
  intro rest
  unfold Metrics.samples?
  rw [List.append_assoc, List.singleton_append, lines?_line hl]
  cases hrest : lines? rest with
  | none => rfl
  | some ls =>
      simp only [Option.map_some, Option.bind_some, List.mapM_cons, h, Option.bind_eq_bind]
      cases ls.mapM line? with
      | none => rfl
      | some os => cases o <;> rfl

theorem tells_comment {cs : List Char} (hhead : cs.head? = some '#') (h : '\n' ∉ cs) :
    Tells (cs ++ ['\n']) [] := by
  obtain ⟨r, rfl⟩ : ∃ r, cs = '#' :: r := by
    cases cs with
    | nil => cases hhead
    | cons c r => exact ⟨r, by rw [Option.some.inj hhead]⟩
  exact tells_line (o := none) h rfl

theorem newline_not_mem_name (measure : Measure) : '\n' ∉ measure.name.toList := by
  cases measure <;> decide

theorem familyHeader_eq (name help : String) (measure : Measure) : familyHeader name help measure =
    ("# HELP ".toList ++ name.toList ++ ' ' :: help.toList ++ ['\n']) ++
      ("# TYPE ".toList ++ name.toList ++ ' ' :: measure.name.toList ++ ['\n']) := by
  have hbreak : "\n# TYPE ".toList = ['\n'] ++ "# TYPE ".toList := by decide
  unfold familyHeader
  rw [hbreak]
  generalize "# TYPE ".toList = word, "# HELP ".toList = word'
  simp only [List.append_assoc, List.cons_append, List.nil_append]

theorem newline_not_mem_header {word name rest : List Char} (hword : '\n' ∉ word)
    (hname : '\n' ∉ name) (hrest : '\n' ∉ rest) : '\n' ∉ word ++ name ++ ' ' :: rest := by
  intro hmem
  rcases List.mem_append.1 hmem with hmem | hmem
  · rcases List.mem_append.1 hmem with hmem | hmem
    · exact hword hmem
    · exact hname hmem
  · exact hrest ((List.mem_cons.1 hmem).resolve_left (by decide))

theorem tells_familyHeader {name help : String} (measure : Measure) (hname : '\n' ∉ name.toList)
    (hhelp : '\n' ∉ help.toList) : Tells (familyHeader name help measure) [] := by
  rw [familyHeader_eq]
  refine Tells.append (?_ : Tells _ []) (?_ : Tells _ [])
  · exact tells_comment rfl (newline_not_mem_header (by decide) hname hhelp)
  · exact tells_comment rfl
      (newline_not_mem_header (by decide) hname (newline_not_mem_name measure))

def IsName (cs : List Char) : Prop :=
  cs.all isNameChar = true ∧ cs.head?.all Char.isDigit = false

instance (cs : List Char) : Decidable (IsName cs) := inferInstanceAs (Decidable (_ ∧ _))

theorem IsName.isNameChar {name : List Char} (h : IsName name) :
    ∀ c ∈ name, isNameChar c = true :=
  List.all_eq_true.1 h.1

theorem IsName.newline_not_mem {name : List Char} (h : IsName name) : '\n' ∉ name := fun hmem =>
  absurd (h.isNameChar '\n' hmem) (by decide)

theorem line?_eq {name rest : List Char} (hname : IsName name)
    (hrest : ∀ c ∈ rest.head?, isNameChar c = false) :
    line? (name ++ rest) = (do
      let (kind, r) ← kindLabel? rest
      let r ← Json.dropText [' '] r
      return some ⟨String.ofList name, kind, ← figure? r⟩) := by
  have hcomment : ∀ r, name ++ rest ≠ '#' :: r := by
    intro r heq
    cases name with
    | nil => exact absurd hname.2 (by decide)
    | cons c name =>
        have hc := hname.isNameChar c (List.mem_cons_self ..)
        rw [(List.cons.inj heq).1] at hc
        exact absurd hc (by decide)
  rw [line?.eq_2 _ hcomment]
  unfold sample?
  rw [takeWhile_append_eq hname.isNameChar hrest, dropWhile_append_eq hname.isNameChar hrest]
  dsimp only
  rw [hname.2, if_neg Bool.false_ne_true]
  cases kindLabel? rest with
  | none => rfl
  | some label =>
      obtain ⟨kind, r⟩ := label
      simp only [Option.bind_eq_bind, Option.bind_some]
      cases Json.dropText [' '] r with
      | none => rfl
      | some r =>
          simp only [Option.bind_some]
          cases figure? r <;> rfl

/-- The name of a kind as it would have to stand in a label. -/
def escapeName (kind : Kind) : Kind := String.ofList (kind.toList.flatMap escape)

theorem toList_escapeName (kind : Kind) : (escapeName kind).toList = kind.toList.flatMap escape :=
  String.toList_ofList

theorem newline_not_mem_escape (c : Char) : '\n' ∉ escape c := by
  unfold escape
  split
  · decide
  · decide
  · decide
  next hbreak => simpa using Ne.symm hbreak

theorem label_eq (kind : Kind) (r : List Char) : label kind ++ r =
    '\x7b' :: "kind=\"".toList ++ (kind.toList ++ '"' :: '\x7d' :: r) := by
  unfold label
  rw [List.append_assoc, List.append_assoc]
  rfl

theorem kindLabel?_eq (cs : List Char) : kindLabel? ('\x7b' :: "kind=\"".toList ++ cs) = (do
    let (v, r) ← labelText cs
    return (some (String.ofList v), ← Json.dropText ['\x7d'] r)) := rfl

theorem kindLabel?_label (kind : Kind) (r : List Char) :
    kindLabel? (label (escapeName kind) ++ r) = some (some kind, r) := by
  rw [label_eq, kindLabel?_eq, toList_escapeName, labelText_eq_some_iff.2 rfl]
  simp [Json.dropText]

section

variable {name : String} {value : List Char} {figure : Figure}
  (hname : IsName name.toList) (hvalue : '\n' ∉ value) (hfigure : figure? value = some figure)

include hname hvalue hfigure

theorem tells_sample_total : Tells (sample name [] value) [⟨name, none, figure⟩] := by
  have hline : line? (name.toList ++ ' ' :: value) = some (some ⟨name, none, figure⟩) := by
    rw [line?_eq hname (by simp [isNameChar])]
    simp [kindLabel?, Json.dropText, hfigure]
  have hmem : '\n' ∉ name.toList ++ ' ' :: value := by
    simpa using ⟨hname.newline_not_mem, hvalue⟩
  have htext : sample name [] value = name.toList ++ ' ' :: value ++ ['\n'] := by
    simp [sample]
  rw [htext]
  exact tells_line hmem hline

theorem tells_sample (kind : Kind) :
    Tells (sample name (label (escapeName kind)) value) [⟨name, some kind, figure⟩] := by
  have hline : line? (name.toList ++ (label (escapeName kind) ++ ' ' :: value)) =
      some (some ⟨name, some kind, figure⟩) := by
    have hbrace : ∀ c ∈ (label (escapeName kind) ++ ' ' :: value).head?, isNameChar c = false := by
      intro c hc
      obtain rfl : '\x7b' = c := Option.some.inj hc
      decide
    rw [line?_eq hname hbrace, kindLabel?_label]
    simp [Json.dropText, hfigure]
  have hmem : '\n' ∉ name.toList ++ (label (escapeName kind) ++ ' ' :: value) := by
    simp [hname.newline_not_mem, hvalue, label, toList_escapeName, newline_not_mem_escape]
  have htext : sample name (label (escapeName kind)) value =
      name.toList ++ (label (escapeName kind) ++ ' ' :: value) ++ ['\n'] := by
    simp [sample]
  rw [htext]
  exact tells_line hmem hline

end

end FleetSizing.Metrics
