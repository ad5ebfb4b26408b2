import FleetSizing.Metrics.Exposition
import FleetSizing.Proofs.Json.Numbers
/-!
# Reading an exposition

An exposition is read line by line.  A line that begins with `#` is a comment, any other one
is a sample: a name, perhaps the label of a kind, a blank and a number.  In the text of a
label a backslash, a quote and a line feed stand as escapes and not as themselves, so that
each label is written in one way.
-/

namespace FleetSizing.Metrics

open Float.Model.UnpackedFloat (Sign)
open Text
open Toml (IsDigits)

/-- The lines of a text, each of which ends with a line feed. -/
def lines? : List Char → Option (List (List Char))
  | [] => some []
  | '\n' :: cs => (lines? cs).map ([] :: ·)
  | c :: cs =>
    match lines? cs with
    | some (l :: ls) => some ((c :: l) :: ls)
    | _ => none

theorem lines?_line {l : List Char} (hl : '\n' ∉ l) (rest : List Char) :
    lines? (l ++ '\n' :: rest) = (lines? rest).map (l :: ·) := by
  induction l with
  | nil => rfl
  | cons c l ih =>
      have hc : c ≠ '\n' := fun h => hl (h ▸ List.mem_cons_self ..)
      rw [List.cons_append, lines?.eq_3 _ _ hc, ih fun h => hl (List.mem_cons_of_mem c h)]
      cases lines? rest <;> rfl

theorem exists_of_lines?_cons {cs l : List Char} {ls : List (List Char)}
    (h : lines? cs = some (l :: ls)) : '\n' ∉ l ∧ ∃ rest, cs = l ++ '\n' :: rest := by
  induction cs generalizing l ls with
  | nil => cases h
  | cons c cs ih =>
      by_cases hc : c = '\n'
      · rw [hc, lines?.eq_2] at h
        obtain ⟨ls', -, hls⟩ := Option.map_eq_some_iff.1 h
        obtain ⟨rfl, -⟩ := List.cons.inj hls
        exact ⟨List.not_mem_nil, cs, by rw [hc, List.nil_append]⟩
      · rw [lines?.eq_3 _ _ hc] at h
        split at h
        next l' ls' hrest =>
          obtain ⟨rfl, rfl⟩ := List.cons.inj (Option.some.inj h)
          obtain ⟨hl', rest, rfl⟩ := ih hrest
          refine ⟨fun hmem => ?_, rest, rfl⟩
          rcases List.mem_cons.1 hmem with heq | hmem
          · exact hc heq.symm
          · exact hl' hmem
        next => cases h

/-! ## Labels -/

def escape (c : Char) : List Char :=
  match c with
  | '\\' => ['\\', '\\']
  | '"' => ['\\', '"']
  | '\n' => ['\\', 'n']
  | c => [c]

def unescape : Char → Option Char
  | '\\' => some '\\'
  | '"' => some '"'
  | 'n' => some '\n'
  | _ => none

/-- The text of a label, up to its closing quote. -/
def labelText : List Char → Option (List Char × List Char)
  | [] => none
  | '"' :: r => some ([], r)
  | '\n' :: _ => none
  | ['\\'] => none
  | '\\' :: c :: r =>
    match unescape c with
    | some c => (labelText r).map fun (v, r) => (c :: v, r)
    | none => none
  | c :: r => (labelText r).map fun (v, r) => (c :: v, r)

theorem escape_of_unescape {c d : Char} (h : unescape c = some d) : escape d = ['\\', c] := by
  unfold unescape at h
  split at h
  · cases h
    rfl
  · cases h
    rfl
  · cases h
    rfl
  · cases h

def isPlain (c : Char) : Bool := c ≠ '\\' ∧ c ≠ '"' ∧ c ≠ '\n'

theorem escape_plain {c : Char} (h : isPlain c = true) : escape c = [c] := by
  obtain ⟨hslash, hquote, hbreak⟩ := of_decide_eq_true h
  exact escape.eq_4 c hslash hquote hbreak

theorem labelText_escape (c : Char) (cs : List Char) :
    labelText (escape c ++ cs) = (labelText cs).map fun (v, r) => (c :: v, r) := by
  by_cases hc : isPlain c = true
  · obtain ⟨hslash, hquote, hbreak⟩ := of_decide_eq_true hc
    rw [escape_plain hc]
    exact labelText.eq_6 c cs hquote hbreak (fun h _ => hslash h) fun _ _ h _ => hslash h
  · simp only [isPlain, decide_eq_true_eq, not_and_or, not_not] at hc
    rcases hc with rfl | rfl | rfl
    · rfl
    · rfl
    · rfl

theorem length_escape (c : Char) : (escape c).length = if isPlain c then 1 else 2 := by
  by_cases hc : isPlain c = true
  · rw [escape_plain hc, if_pos hc]
    rfl
  · rw [if_neg hc]
    simp only [isPlain, decide_eq_true_eq, not_and_or, not_not] at hc
    rcases hc with rfl | rfl | rfl
    · rfl
    · rfl
    · rfl

theorem length_le_flatMap_escape (cs : List Char) : cs.length ≤ (cs.flatMap escape).length := by
  induction cs with
  | nil => exact le_rfl
  | cons c cs ih =>
      rw [List.flatMap_cons, List.length_append, length_escape, List.length_cons]
      split <;> omega

theorem isPlain_of_length_le {cs : List Char} (h : (cs.flatMap escape).length ≤ cs.length) :
    ∀ c ∈ cs, isPlain c = true := by
  induction cs with
  | nil => exact List.forall_mem_nil _
  | cons c cs ih =>
      have hle := length_le_flatMap_escape cs
      rw [List.flatMap_cons, List.length_append, length_escape, List.length_cons] at h
      by_cases hc : isPlain c = true
      · rw [if_pos hc] at h
        exact List.forall_mem_cons.2 ⟨hc, ih (by omega)⟩
      · rw [if_neg hc] at h
        omega

theorem flatMap_escape_eq {cs : List Char} (h : ∀ c ∈ cs, isPlain c = true) :
    cs.flatMap escape = cs := by
  induction cs with
  | nil => rfl
  | cons c cs ih =>
      obtain ⟨hc, hcs⟩ := List.forall_mem_cons.1 h
      rw [List.flatMap_cons, escape_plain hc, ih hcs]
      rfl

/-- A label is read from its escaped text, and from nothing else. -/
theorem labelText_eq_some_iff {cs v r : List Char} :
    labelText cs = some (v, r) ↔ cs = v.flatMap escape ++ '"' :: r := by
  constructor
  · intro h
    fun_induction labelText cs generalizing v with
    | case1 => cases h
    | case2 r' =>
        obtain ⟨rfl, rfl⟩ := Prod.mk.inj (Option.some.inj h)
        rfl
    | case3 => cases h
    | case4 => cases h
    | case5 c r' d hd ih =>
        obtain ⟨⟨v', r''⟩, htext, heq⟩ := Option.map_eq_some_iff.1 h
        obtain ⟨rfl, rfl⟩ := Prod.mk.inj heq
        rw [ih htext, List.flatMap_cons, escape_of_unescape hd]
        rfl
    | case6 => cases h
    | case7 c r' hquote hbreak hend hslash ih =>
        obtain ⟨⟨v', r''⟩, htext, heq⟩ := Option.map_eq_some_iff.1 h
        obtain ⟨rfl, rfl⟩ := Prod.mk.inj heq
        have hne : c ≠ '\\' := by
          rintro rfl
          cases r' with
          | nil => exact hend rfl rfl
          | cons d r' => exact hslash d r' rfl rfl
        rw [ih htext, List.flatMap_cons, escape.eq_4 c hne hquote hbreak]
        rfl
  · rintro rfl
    induction v with
    | nil => rfl
    | cons c v ih =>
        rw [List.flatMap_cons, List.append_assoc, labelText_escape, ih]
        rfl

/-! ## Values -/

inductive Figure where
  | undefined
  | infinite (s : Sign)
  | decimal (s : Sign) (d : Decimal)

/-- Digits, perhaps a point with more digits, perhaps an exponent. -/
def decimal? (cs : List Char) : Option Decimal := do
  let (ds, r) ← Json.digitRun cs
  let (frac, r) ← Json.fraction r
  let (exp, r) ← Json.exponent r
  if r = [] then some ⟨ofDigits (ds ++ frac), exp.getD 0 - frac.length⟩ else none

def splitSign : List Char → Sign × List Char
  | '-' :: r => (.negative, r)
  | '+' :: r => (.positive, r)
  | r => (.positive, r)

/-- A number, or one of the words for infinities and `NaN`, in capitals or not. -/
def figure? (cs : List Char) : Option Figure :=
  let (s, r) := splitSign cs
  let word := r.map Char.toLower
  if cs.map Char.toLower = ['n', 'a', 'n'] then some .undefined
  else if word = ['i', 'n', 'f'] ∨ word = "infinity".toList then some (.infinite s)
  else (decimal? r).map (.decimal s)

def Figure.ofNat (n : Nat) : Figure := .decimal .positive ⟨n, 0⟩

def Figure.rounded (places : Nat) (x : Float) : Figure :=
  match x.toModel.unpack with
  | .notANumber => .undefined
  | .infinity s => .infinite s
  | .zero s => .decimal s ⟨0, -places⟩
  | .finite s m q _ => .decimal s ⟨Decimal.roundPlaces places m q, -places⟩

theorem splitSign_eq (s : Sign) {cs : List Char} (h : cs.head? ≠ some '-' ∧ cs.head? ≠ some '+') :
    splitSign (Decimal.sign s ++ cs) = (s, cs) := by
  cases s with
  | negative => rfl
  | positive =>
      apply splitSign.eq_3
      · rintro r rfl
        exact h.1 rfl
      · rintro r rfl
        exact h.2 rfl

theorem toLower_of_isDigit {c : Char} (h : c.isDigit = true) : c.toLower = c := by
  have hrange : 48 ≤ c.toNat ∧ c.toNat ≤ 57 := by
    simpa [Char.isDigit, UInt32.le_iff_toNat_le] using h
  have hsmall : ¬(c.val ≥ 'A'.val ∧ c.val ≤ 'Z'.val) := by
    rintro ⟨hlow, -⟩
    have hlow : 65 ≤ c.toNat := UInt32.le_iff_toNat_le.1 hlow
    omega
  unfold Char.toLower
  rw [dif_neg hsmall]

theorem figure?_digit (s : Sign) {c : Char} {cs : List Char} (hc : c.isDigit = true) :
    figure? (Decimal.sign s ++ c :: cs) = (decimal? (c :: cs)).map (.decimal s) := by
  have hne {d : Char} (hd : d.isDigit = false) : c ≠ d := by
    rintro rfl
    rw [hc] at hd
    cases hd
  have hword : (c :: cs).map Char.toLower = c :: cs.map Char.toLower := by
    rw [List.map_cons, toLower_of_isDigit hc]
  have hnan : (Decimal.sign s ++ c :: cs).map Char.toLower ≠ ['n', 'a', 'n'] := by
    cases s with
    | negative => exact fun h => absurd (List.cons.inj h).1 (by decide)
    | positive => exact fun h => hne rfl (List.cons.inj (hword.symm.trans h)).1
  unfold figure?
  rw [splitSign_eq s ⟨by simpa using hne rfl, by simpa using hne rfl⟩]
  dsimp only
  rw [if_neg hnan, hword, if_neg]
  rintro (h | h)
  · exact hne rfl (List.cons.inj h).1
  · exact hne rfl (List.cons.inj h).1

theorem decimal?_digits (n : Nat) : decimal? (digits n) = some ⟨n, 0⟩ := by
  have hrun : Json.digitRun (digits n ++ []) = some (digits n, []) :=
    Json.digitRun_eq (Toml.isDigits_digits n) nofun
  rw [List.append_nil] at hrun
  unfold decimal?
  rw [hrun]
  simp only [Option.bind_eq_bind, Option.bind_some, Json.fraction_eq Json.endsNumber_nil,
    Json.exponent_eq Json.endsNumber_nil, if_true, List.append_nil, ofDigits_digits]
  rfl

theorem decimal?_point {ds frac : List Char} (hds : IsDigits ds) (hfrac : IsDigits frac) :
    decimal? (ds ++ '.' :: frac) = some ⟨ofDigits (ds ++ frac), 0 - (frac.length : Int)⟩ := by
  have hpoint : ∀ c ∈ ('.' :: frac).head?, c.isDigit = false := by
    intro c hc
    obtain rfl : '.' = c := Option.some.inj hc
    rfl
  have hfraction : Json.fraction ('.' :: (frac ++ [])) = some (frac, []) :=
    Json.fraction_point hfrac nofun
  rw [List.append_nil] at hfraction
  unfold decimal?
  rw [Json.digitRun_eq hds hpoint]
  simp only [Option.bind_eq_bind, Option.bind_some, hfraction, Json.exponent_eq Json.endsNumber_nil,
    if_true, Option.getD_none]

theorem figure?_digits (n : Nat) : figure? (digits n) = some (.ofNat n) := by
  obtain ⟨c, r, hdigits, hc⟩ := Json.exists_cons_of_isDigits (Toml.isDigits_digits n)
  have hfigure : figure? (c :: r) = _ := figure?_digit .positive hc
  rw [← hdigits, decimal?_digits] at hfigure
  exact hfigure

theorem figure?_positional (s : Sign) {places : Nat} (hplaces : 0 < places) (n : Nat) :
    figure? (Decimal.sign s ++ Decimal.positional [] ⟨n, -places⟩) =
      some (.decimal s ⟨n, -places⟩) := by
  have hexponent : (-(places : Int)).natAbs = places := by omega
  unfold Decimal.positional
  rw [if_neg (show ¬0 ≤ (-(places : Int)) by omega)]
  dsimp only
  rw [hexponent]
  have hdigits := Toml.isDigits_zeroPad (places + 1) n
  have hlength := Toml.length_zeroPad (places + 1) (digits n)
  have hnumber : ofDigits (zeroPad (places + 1) (digits n)) = n := by
    rw [zeroPad, Toml.ofDigits_append, Toml.ofDigits_zeros, Nat.zero_mul, Nat.zero_add,
      ofDigits_digits]
  set padded := zeroPad (places + 1) (digits n)
  have htake : IsDigits (padded.take (padded.length - places)) := by
    constructor
    · apply List.ne_nil_of_length_pos
      rw [List.length_take]
      omega
    · exact fun c hc => hdigits.isDigit c (List.mem_of_mem_take hc)
  have hdrop : (padded.drop (padded.length - places)).length = places := by
    rw [List.length_drop]
    omega
  have hfrac : IsDigits (padded.drop (padded.length - places)) := by
    constructor
    · apply List.ne_nil_of_length_pos
      omega
    · exact fun c hc => hdigits.isDigit c (List.mem_of_mem_drop hc)
  have hdecimal := decimal?_point htake hfrac
  rw [List.take_append_drop, hnumber, hdrop, Int.zero_sub] at hdecimal
  obtain ⟨c, r, hhead, hc⟩ := Json.exists_cons_of_isDigits htake
  rw [hhead, List.cons_append] at hdecimal ⊢
  rw [figure?_digit s hc, hdecimal, Option.map_some]

theorem figure?_writeFixed {places : Nat} (hplaces : 0 < places) (x : Float) :
    figure? (Decimal.writeFixed places x) = some (.rounded places x) := by
  unfold Decimal.writeFixed Figure.rounded
  cases x.toModel.unpack with
  | notANumber => rfl
  | infinity s => cases s <;> rfl
  | zero s => exact figure?_positional s hplaces 0
  | finite s m q hm => exact figure?_positional s hplaces _

end FleetSizing.Metrics
