import FleetSizing.Proofs.Decimal.Places
import FleetSizing.Proofs.Exposition.Samples
/-!
# Names that can stand for themselves

The names of kinds are exposed as they are.  The exposition tells the metrics exactly if no
name has a backslash, a quote or a line feed; it would always tell them if such characters
were escaped.
-/

namespace FleetSizing.Metrics

open Text Binary64
open Float.Model.UnpackedFloat (Sign)

/-- The samples of a family show a figure of the metrics. -/
structure Family.Shows (f : Family) (figure : KindMetrics → Figure) : Prop where
  isName : IsName f.name.toList
  help : '\n' ∉ f.help.toList
  value : ∀ m, '\n' ∉ f.value m
  figure : ∀ m, figure? (f.value m) = some (figure m)

theorem newline_not_mem_digits (n : Nat) : '\n' ∉ digits n := fun h =>
  absurd (isDigit_of_mem_digits h) (by decide)

theorem newline_not_mem_writeFixed (places : Nat) (x : Float) :
    '\n' ∉ Decimal.writeFixed places x := by
  have hsign (s : Sign) : '\n' ∉ Decimal.sign s := by cases s <;> decide
  have hpositional (n : Nat) : '\n' ∉ Decimal.positional [] ⟨n, -places⟩ := by
    have hpadded (width : Nat) : '\n' ∉ zeroPad width (digits n) := fun h =>
      absurd ((Toml.isDigits_zeroPad width n).isDigit _ h) (by decide)
    have hzeros (k : Nat) : '\n' ∉ zeros k := fun h =>
      absurd (Toml.isDigit_of_mem_zeros h) (by decide)
    unfold Decimal.positional
    dsimp only
    split
    · simp [newline_not_mem_digits, hzeros]
    · intro h
      rcases List.mem_append.1 h with h | h
      · exact hpadded _ (List.mem_of_mem_take h)
      · rcases List.mem_cons.1 h with h | h
        · exact absurd h (by decide)
        · exact hpadded _ (List.mem_of_mem_drop h)
  unfold Decimal.writeFixed
  cases x.toModel.unpack with
  | notANumber => simp
  | infinity s => simp [hsign]
  | zero s => simp [hsign, hpositional]
  | finite s m q hm => simp [hsign, hpositional]

theorem shows_digits {f : Family} {count : KindMetrics → Nat} (hname : IsName f.name.toList)
    (hhelp : '\n' ∉ f.help.toList) (hvalue : f.value = fun m => digits (count m)) :
    f.Shows fun m => .ofNat (count m) := by
  refine ⟨hname, hhelp, fun m => ?_, fun m => ?_⟩
  · rw [hvalue]
    exact newline_not_mem_digits _
  · rw [hvalue]
    exact figure?_digits _

theorem shows_writeFixed {f : Family} {average : KindMetrics → Float} {places : Nat}
    (hplaces : 0 < places) (hname : IsName f.name.toList) (hhelp : '\n' ∉ f.help.toList)
    (hvalue : f.value = fun m => Decimal.writeFixed places (average m)) :
    f.Shows fun m => .rounded places (average m) := by
  refine ⟨hname, hhelp, fun m => ?_, fun m => ?_⟩
  · rw [hvalue]
    exact newline_not_mem_writeFixed _ _
  · rw [hvalue]
    exact figure?_writeFixed hplaces _

theorem forall₂_families : List.Forall₂ (fun f g => f.name = g.1 ∧ f.Shows g.2) families figures :=
  .cons ⟨rfl, shows_digits (by decide) (by simp) rfl⟩ <|
  .cons ⟨rfl, shows_writeFixed (by decide) (by decide) (by simp) rfl⟩ <|
  .cons ⟨rfl, shows_digits (by decide) (by simp) rfl⟩ <|
  .cons ⟨rfl, shows_digits (by decide) (by simp) rfl⟩ <|
  .cons ⟨rfl, shows_digits (by decide) (by simp) rfl⟩ <|
  .cons ⟨rfl, shows_digits (by decide) (by simp) rfl⟩ .nil

/-- Metrics whose kinds are named as their labels would have to be written. -/
def escaped (kinds : List (Kind × KindMetrics)) : List (Kind × KindMetrics) :=
  kinds.map fun (kind, m) => (escapeName kind, m)

theorem Family.Shows.tells_write {f : Family} {figure : KindMetrics → Figure} (h : f.Shows figure)
    (kinds : List (Kind × KindMetrics)) :
    Tells (f.write (escaped kinds)) (kinds.map fun (kind, m) => ⟨f.name, some kind, figure m⟩) := by
  have hsamples : Tells (kinds.flatMap fun entry =>
      sample f.name (label (escapeName entry.1)) (f.value entry.2))
      (kinds.flatMap fun entry => [⟨f.name, some entry.1, figure entry.2⟩]) :=
    Tells.flatMap fun entry _ => tells_sample h.isName (h.value _) (h.figure _) entry.1
  rw [← List.map_eq_flatMap] at hsamples
  unfold Family.write escaped
  rw [List.flatMap_map]
  exact (tells_familyHeader f.measure h.isName.newline_not_mem h.help).append hsamples

theorem tells_ticks (ticks : Nat) :
    Tells (familyHeader ticksName "Control-loop ticks completed." .counter ++
      sample ticksName [] (digits ticks)) [⟨"poolscale_ticks_total", none, .ofNat ticks⟩] :=
  have hname : IsName ticksName.toList := by decide
  (tells_familyHeader .counter hname.newline_not_mem (by simp)).append
    (tells_sample_total hname (newline_not_mem_digits ticks) (figure?_digits ticks))

theorem tells_expose_escaped (kinds : List (Kind × KindMetrics)) (ticks : Nat) :
    Tells (expose (escaped kinds) ticks) (told kinds ticks) := by
  have hfamilies {fs : List Family} {gs : List (String × (KindMetrics → Figure))}
      (h : List.Forall₂ (fun f g => f.name = g.1 ∧ f.Shows g.2) fs gs) :
      Tells (fs.flatMap (·.write (escaped kinds)))
        (gs.flatMap fun g => kinds.map fun entry => ⟨g.1, some entry.1, g.2 entry.2⟩) := by
    induction h with
    | nil => exact tells_nil
    | cons h _ ih =>
        obtain ⟨hname, hshows⟩ := h
        have hfirst := hshows.tells_write kinds
        rw [hname] at hfirst
        exact hfirst.append ih
  exact (tells_ticks ticks).append (hfamilies forall₂_families)

/-! ## Names as they are -/

def IsPlain (kind : Kind) : Prop := ∀ c ∈ kind.toList, isPlain c = true

theorem escapeName_eq {kind : Kind} (h : IsPlain kind) : escapeName kind = kind := by
  rw [escapeName, flatMap_escape_eq h, String.ofList_toList]

theorem escaped_eq {kinds : List (Kind × KindMetrics)} (h : ∀ entry ∈ kinds, IsPlain entry.1) :
    escaped kinds = kinds := by
  have hmap : ∀ entry ∈ kinds, (escapeName entry.1, entry.2) = entry := fun entry hentry => by
    rw [escapeName_eq (h entry hentry)]
  exact (List.map_congr_left hmap).trans (List.map_id' kinds)

theorem length_le_of_quote {a b c d : List Char} (h : a ++ '"' :: b = c ++ '"' :: d)
    (hd : '"' ∉ d) : a.length ≤ c.length := by
  rcases List.append_eq_append_iff.1 h with ⟨x, hc, -⟩ | ⟨x, ha, hx⟩
  · rw [hc, List.length_append]
    omega
  · cases x with
    | nil => rw [ha, List.append_nil]
    | cons q x =>
        obtain ⟨-, rfl⟩ := List.cons.inj hx
        exact absurd (List.mem_append_right x (List.mem_cons_self ..)) hd

theorem exists_append_of_line {l front r t : List Char} (hfront : '\n' ∉ front)
    (h : l ++ '\n' :: r = front ++ t) : ∃ l', l = front ++ l' ∧ l' ++ '\n' :: r = t := by
  rcases List.append_eq_append_iff.1 h with ⟨x, hx, ht⟩ | ⟨x, hx, ht⟩
  · cases x with
    | nil => exact ⟨[], by rw [hx, List.append_nil, List.append_nil], ht⟩
    | cons c x =>
        obtain ⟨rfl, -⟩ := List.cons.inj ht
        exact absurd (hx ▸ List.mem_append_right l (List.mem_cons_self ..)) hfront
  · exact ⟨x, hx, ht.symm⟩

theorem prefix_of_line {l body r t : List Char} (hl : '\n' ∉ l)
    (h : l ++ '\n' :: r = body ++ '\n' :: t) : l <+: body := by
  rcases List.append_eq_append_iff.1 h with ⟨x, hbody, -⟩ | ⟨x, hx, ht⟩
  · exact ⟨x, hbody.symm⟩
  · cases x with
    | nil => exact ⟨[], by rw [hx, List.append_nil, List.append_nil]⟩
    | cons c x =>
        obtain ⟨rfl, -⟩ := List.cons.inj ht
        exact absurd (hx ▸ List.mem_append_right body (List.mem_cons_self ..)) hl

theorem exists_of_samples?_cons {cs : List Char} {s : Sample} {more : List Sample}
    (h : samples? cs = some (s :: more)) : ∃ l rest o, '\n' ∉ l ∧ cs = l ++ '\n' :: rest ∧
      line? l = some o ∧ (o = none ∨ o = some s) := by
  obtain ⟨ls, hlines, htold⟩ := Option.bind_eq_some_iff.1 h
  obtain ⟨os, hos, hsamples⟩ := Option.map_eq_some_iff.1 htold
  cases ls with
  | nil =>
      obtain rfl : [] = os := Option.some.inj hos
      cases hsamples
  | cons l ls =>
      obtain ⟨hl, rest, hcs⟩ := exists_of_lines?_cons hlines
      rw [List.mapM_cons] at hos
      obtain ⟨o, ho, hos⟩ := Option.bind_eq_some_iff.1 hos
      obtain ⟨os', -, heq⟩ := Option.bind_eq_some_iff.1 hos
      obtain rfl : o :: os' = os := Option.some.inj heq
      refine ⟨l, rest, o, hl, hcs, ho, ?_⟩
      cases o with
      | none => exact Or.inl rfl
      | some s' =>
          rw [List.reduceOption_cons_of_some] at hsamples
          exact Or.inr (congrArg some (List.cons.inj hsamples).1)

/-- A line with the label of a kind is a sample of the kind that the label is read as. -/
theorem exists_labelText_of_line? {name l : List Char} {o : Option Sample} (hname : IsName name)
    (h : line? (name ++ '\x7b' :: "kind=\"".toList ++ l) = some o) :
    ∃ v r figure, labelText l = some (v, r) ∧
      o = some ⟨String.ofList name, some (String.ofList v), figure⟩ := by
  have hbrace : ∀ c ∈ ('\x7b' :: "kind=\"".toList ++ l).head?, isNameChar c = false := by
    intro c hc
    obtain rfl : '\x7b' = c := Option.some.inj hc
    decide
  rw [List.append_assoc, line?_eq hname hbrace, kindLabel?_eq] at h
  obtain ⟨⟨kind, r⟩, hlabel, hline⟩ := Option.bind_eq_some_iff.1 h
  obtain ⟨⟨v, r'⟩, hv, hlabel⟩ := Option.bind_eq_some_iff.1 hlabel
  obtain ⟨_, -, hlabel⟩ := Option.bind_eq_some_iff.1 hlabel
  obtain ⟨_, -, hline⟩ := Option.bind_eq_some_iff.1 hline
  obtain ⟨figure, -, hline⟩ := Option.bind_eq_some_iff.1 hline
  obtain rfl : some (String.ofList v) = kind := (Prod.mk.inj (Option.some.inj hlabel)).1
  exact ⟨v, r', figure, hv, (Option.some.inj hline).symm⟩

theorem isPlain_of_samples? {name : String} {kind : Kind} {value rest : List Char} {s : Sample}
    {more : List Sample} (hname : IsName name.toList) (hquote : '"' ∉ value)
    (h : samples? (sample name (label kind) value ++ rest) = some (s :: more))
    (hkind : s.kind = some kind) : IsPlain kind := by
  have hword : '\n' ∉ '\x7b' :: "kind=\"".toList := by simp
  have hfront : '\n' ∉ name.toList ++ '\x7b' :: "kind=\"".toList := fun hmem =>
    (List.mem_append.1 hmem).elim hname.newline_not_mem hword
  obtain ⟨l, rest', o, hl, htext, hline, ho⟩ := exists_of_samples?_cons h
  have hsample : l ++ '\n' :: rest' = name.toList ++ '\x7b' :: "kind=\"".toList ++
      (kind.toList ++ '"' :: '\x7d' :: ' ' :: value ++ '\n' :: rest) := by
    rw [← htext]
    simp [sample, label]
  obtain ⟨l', rfl, hl'⟩ := exists_append_of_line hfront hsample
  obtain ⟨v, r, figure, hv, rfl⟩ := exists_labelText_of_line? hname hline
  obtain rfl : _ = s := Option.some.inj (ho.resolve_left (Option.some_ne_none _))
  obtain rfl : String.ofList v = kind := Option.some.inj hkind
  -- Where the line closes the label, the name as it is has ended.
  obtain ⟨x, hx⟩ := prefix_of_line (fun hmem => hl (List.mem_append_right _ hmem)) hl'
  rw [labelText_eq_some_iff.1 hv, List.append_assoc, String.toList_ofList] at hx
  have hlength : (v.flatMap escape).length ≤ v.length :=
    length_le_of_quote hx (by simpa using hquote)
  unfold IsPlain
  rw [String.toList_ofList]
  exact isPlain_of_length_le hlength

theorem isPlain_of_samples?_flatMap {name : String} {value : KindMetrics → List Char}
    {figure : KindMetrics → Figure} (hname : IsName name.toList)
    (hvalue : ∀ m, '\n' ∉ value m ∧ '"' ∉ value m ∧ figure? (value m) = some (figure m))
    {kinds : List (Kind × KindMetrics)} {rest : List Char} {more : List Sample}
    (h : samples? (kinds.flatMap (fun (kind, m) => sample name (label kind) (value m)) ++ rest) =
      some (kinds.map (fun (kind, m) => ⟨name, some kind, figure m⟩) ++ more)) :
    ∀ entry ∈ kinds, IsPlain entry.1 := by
  induction kinds with
  | nil => exact List.forall_mem_nil _
  | cons entry kinds ih =>
      obtain ⟨kind, m⟩ := entry
      obtain ⟨hbreak, hquote, hfigure⟩ := hvalue m
      rw [List.flatMap_cons, List.append_assoc, List.map_cons, List.cons_append] at h
      have hkind : IsPlain kind := isPlain_of_samples? hname hquote h rfl
      have htells := tells_sample hname hbreak hfigure kind
      rw [escapeName_eq hkind] at htells
      rw [htells] at h
      obtain ⟨more', hmore, heq⟩ := Option.map_eq_some_iff.1 h
      refine List.forall_mem_cons.2 ⟨hkind, ih ?_⟩
      rw [hmore]
      exact congrArg some (List.cons.inj heq).2

theorem quote_not_mem_digits (n : Nat) : '"' ∉ digits n := fun h =>
  absurd (isDigit_of_mem_digits h) (by decide)

theorem isPlain_of_samples?_expose {kinds : List (Kind × KindMetrics)} {ticks : Nat}
    (h : samples? (expose kinds ticks) = some (told kinds ticks)) :
    ∀ entry ∈ kinds, IsPlain entry.1 := by
  have hname : IsName "poolscale_pool_size".toList := by decide
  have hheader : Tells (familyHeader "poolscale_pool_size"
      "Instances per kind after the latest tick." .gauge) [] :=
    tells_familyHeader .gauge hname.newline_not_mem (by simp)
  have hfront := (tells_ticks ticks).append hheader
  rw [List.append_nil] at hfront
  -- The first family names every kind.
  obtain ⟨rest, hexpose⟩ : ∃ rest, expose kinds ticks =
      familyHeader ticksName "Control-loop ticks completed." .counter ++
        sample ticksName [] (digits ticks) ++
        familyHeader "poolscale_pool_size" "Instances per kind after the latest tick." .gauge ++
        (kinds.flatMap (fun (kind, m) =>
          sample "poolscale_pool_size" (label kind) (digits m.poolSize)) ++ rest) :=
    ⟨families.tail.flatMap (·.write kinds), by simp [expose, families, Family.write]⟩
  obtain ⟨more, htold⟩ : ∃ more, told kinds ticks =
      ⟨"poolscale_ticks_total", none, .ofNat ticks⟩ ::
      (kinds.map (fun (kind, m) => ⟨"poolscale_pool_size", some kind, .ofNat m.poolSize⟩) ++ more) :=
    ⟨_, rfl⟩
  rw [hexpose, hfront, htold] at h
  obtain ⟨list, hlist, heq⟩ := Option.map_eq_some_iff.1 h
  obtain rfl : list = _ := (List.cons.inj heq).2
  exact isPlain_of_samples?_flatMap hname
    (fun m => ⟨newline_not_mem_digits _, quote_not_mem_digits _, figure?_digits _⟩) hlist

theorem rounded_of_value? (places : Nat) {x : Float} {q : ℚ} (hx : value? x = some q) :
    ∃ s n, Figure.rounded places x = .decimal s ⟨n, -places⟩ ∧ signed s |q| = q ∧
      Decimal.IsNearest n (|q| * 10 ^ places) := by
  unfold value? at hx
  unfold Figure.rounded
  cases hu : x.toModel.unpack with
  | notANumber =>
      rw [hu] at hx
      cases hx
  | infinity s =>
      rw [hu] at hx
      cases hx
  | zero s =>
      rw [hu] at hx
      obtain rfl := Option.some.inj hx
      refine ⟨s, 0, rfl, ?_, ?_⟩
      · cases s <;> simp [signed]
      · simp [Decimal.IsNearest]
  | finite s m e hm =>
      rw [hu] at hx
      obtain rfl := Option.some.inj hx
      have habs : |signed s (magnitude m e)| = magnitude m e := by
        cases s <;> simp [signed, abs_of_nonneg (magnitude_nonneg m e)]
      rw [habs]
      exact ⟨s, _, rfl, rfl, Decimal.isNearest_roundPlaces places m e⟩

/-- With escaped names an exposition always tells the metrics: the number of ticks, then
family by family a sample for each kind, averages rounded to four places.  With names as they
are it does so exactly if none of them has a character that must be escaped. -/
theorem exposition_tells_metrics_iff (kinds : List (Kind × KindMetrics)) (ticks : Nat) :
    samples? (expose (escaped kinds) ticks) = some (told kinds ticks) ∧
    (samples? (expose kinds ticks) = some (told kinds ticks) ↔
      ∀ entry ∈ kinds, ∀ c ∈ entry.1.toList, c ≠ '\\' ∧ c ≠ '"' ∧ c ≠ '\n') ∧
    ∀ x q, value? x = some q → ∃ s n, Figure.rounded 4 x = .decimal s ⟨n, -4⟩ ∧
      signed s |q| = q ∧ Decimal.IsNearest n (|q| * 10 ^ 4) := by
  have hescaped := (tells_expose_escaped kinds ticks).samples?
  refine ⟨hescaped, ?_, fun x q hx => rounded_of_value? 4 hx⟩
  have hplain : (∀ entry ∈ kinds, ∀ c ∈ entry.1.toList, c ≠ '\\' ∧ c ≠ '"' ∧ c ≠ '\n') ↔
      ∀ entry ∈ kinds, IsPlain entry.1 := by
    simp [IsPlain, isPlain]
  rw [hplain]
  constructor
  · exact isPlain_of_samples?_expose
  · intro h
    rw [escaped_eq h] at hescaped
    exact hescaped

/-- Names with blanks, braces and a tab, one of a full pool. -/
def spaced : List (Kind × KindMetrics) :=
  [("gpu {a}, #1",
    { poolSize := 4, created := 9, destroyed := 5, retirements := 1, average := 1.0 }),
   ("web\tθ", {})]

theorem exposition_tells_metrics_spaced :
    samples? (expose spaced 12) = some (told spaced 12) ∧
    ∃ s n, Figure.rounded 4 1.0 = .decimal s ⟨n, -4⟩ ∧ Decimal.IsNearest n (|1| * 10 ^ 4) := by
  obtain ⟨-, hplain, hrounded⟩ := exposition_tells_metrics_iff spaced 12
  obtain ⟨s, n, hfigure, -, hnearest⟩ := hrounded 1.0 1 value?_one
  exact ⟨hplain.2 (by simp [spaced]), s, n, hfigure, hnearest⟩

/-- A line feed in a name ends the line of its sample, which cannot be read. -/
theorem broken_name_is_unreadable : samples? (expose [("web\nbatch", {})] 1) = none := by
  decide +kernel

end FleetSizing.Metrics
