import FleetSizing.Duration
import Mathlib.Data.List.DropRight
/-!
# How durations are written

White space at its ends apart, the text of a duration has an optional plus sign, decimal
digits, white space and an optional unit.  A text is a duration exactly if it can be read in
this way, and then in one way only.
-/

namespace FleetSizing

namespace Text

/-! ## White space -/

theorem isBlank_of_isDigit {c : Char} (h : c.isDigit = true) : isBlank c = false := by
  have hrange : 48 ≤ c.toNat ∧ c.toNat ≤ 57 := by
    simpa [Char.isDigit, UInt32.le_iff_toNat_le] using h
  simp only [isBlank, blankRanges, List.any_cons, List.any_nil, Bool.or_false,
    Bool.or_eq_false_iff, Bool.and_eq_false_iff, decide_eq_false_iff_not]
  omega

/-- The text `t` is what the text `cs` is without the white space at its ends. -/
structure IsTrim (cs t : List Char) : Prop where
  around : ∃ before after, cs = before ++ (t ++ after) ∧
    (∀ c ∈ before, isBlank c = true) ∧ ∀ c ∈ after, isBlank c = true
  head : ∀ c ∈ t.head?, isBlank c = false
  last : ∀ c ∈ t.getLast?, isBlank c = false

theorem dropWhile_append_eq {p : Char → Bool} {cs ds : List Char} (hcs : ∀ c ∈ cs, p c = true)
    (hds : ∀ c ∈ ds.head?, p c = false) : (cs ++ ds).dropWhile p = ds := by
  rw [List.dropWhile_append_of_pos hcs]
  cases ds with
  | nil => rfl
  | cons d ds =>
      apply List.dropWhile_cons_of_neg
      simp [hds d rfl]

theorem takeWhile_append_eq {p : Char → Bool} {cs ds : List Char} (hcs : ∀ c ∈ cs, p c = true)
    (hds : ∀ c ∈ ds.head?, p c = false) : (cs ++ ds).takeWhile p = cs := by
  have hsplit := List.takeWhile_append_dropWhile (p := p) (l := cs ++ ds)
  rw [dropWhile_append_eq hcs hds] at hsplit
  exact List.append_cancel_right hsplit

theorem append_inj_of_head {p : Char → Bool} {cs cs' ds ds' : List Char}
    (hcs : ∀ c ∈ cs, p c = true) (hcs' : ∀ c ∈ cs', p c = true)
    (hds : ∀ c ∈ ds.head?, p c = false) (hds' : ∀ c ∈ ds'.head?, p c = false)
    (h : cs ++ ds = cs' ++ ds') : cs = cs' ∧ ds = ds' := by
  constructor
  · rw [← takeWhile_append_eq hcs hds, h, takeWhile_append_eq hcs' hds']
  · rw [← dropWhile_append_eq hcs hds, h, dropWhile_append_eq hcs' hds']

theorem isTrim_trim (cs : List Char) : IsTrim cs (trim cs) := by
  have htrim : trim cs = (cs.dropWhile isBlank).rdropWhile isBlank := rfl
  have hsplit : trim cs ++ (cs.dropWhile isBlank).rtakeWhile isBlank = cs.dropWhile isBlank := by
    rw [htrim, List.rdropWhile_append_rtakeWhile]
  constructor
  · refine ⟨cs.takeWhile isBlank, (cs.dropWhile isBlank).rtakeWhile isBlank, ?_, ?_, ?_⟩
    · rw [hsplit, List.takeWhile_append_dropWhile]
    · exact fun c hc => List.mem_takeWhile_imp hc
    · exact fun c hc => List.mem_rtakeWhile_imp hc
  · intro c hc
    have hhead : (cs.dropWhile isBlank).head? = some c := by
      rw [← hsplit, List.head?_append, hc]
      rfl
    have hnot := List.head?_dropWhile_not isBlank cs
    rw [hhead] at hnot
    exact hnot
  · intro c hc
    obtain ⟨front, hfront⟩ := List.getLast?_eq_some_iff.1 hc
    have hne : trim cs ≠ [] := by simp [hfront]
    have hlast := List.rdropWhile_last_not isBlank (cs.dropWhile isBlank) hne
    simpa [← htrim, hfront] using hlast

theorem IsTrim.eq {cs t : List Char} (h : IsTrim cs t) : trim cs = t := by
  obtain ⟨before, after, rfl, hbefore, hafter⟩ := h.around
  by_cases ht : t = []
  · have hblank : ∀ c ∈ before ++ after, isBlank c = true := by
      intro c hc
      rcases List.mem_append.1 hc with hc | hc
      · exact hbefore c hc
      · exact hafter c hc
    have hdrop := List.dropWhile_eq_nil_iff.2 hblank
    rw [ht, trim, List.nil_append, hdrop]
    rfl
  · have hstart : (before ++ (t ++ after)).dropWhile isBlank = t ++ after := by
      apply dropWhile_append_eq hbefore
      rw [List.head?_append_of_ne_nil _ ht]
      exact h.head
    have hend : (t ++ after).reverse.dropWhile isBlank = t.reverse := by
      rw [List.reverse_append]
      apply dropWhile_append_eq
      · simpa using hafter
      · rw [List.head?_reverse]
        exact h.last
    rw [trim, hstart, trimEnd, hend, List.reverse_reverse]

theorem isTrim_self {cs : List Char} (hhead : ∀ c ∈ cs.head?, isBlank c = false)
    (hlast : ∀ c ∈ cs.getLast?, isBlank c = false) : IsTrim cs cs :=
  ⟨⟨[], [], by simp, nofun, nofun⟩, hhead, hlast⟩

theorem IsTrim.exists_after {cs t : List Char} (h : IsTrim cs t)
    (hhead : ∀ c ∈ cs.head?, isBlank c = false) :
    ∃ after, cs = t ++ after ∧ ∀ c ∈ after, isBlank c = true := by
  obtain ⟨before, after, rfl, hbefore, hafter⟩ := h.around
  cases before with
  | nil => exact ⟨after, rfl, hafter⟩
  | cons b before =>
      have hblank := hbefore b (List.mem_cons_self ..)
      rw [hhead b rfl] at hblank
      cases hblank

/-! ## Numerals -/

def sign (plus : Bool) : List Char := if plus then ['+'] else []

theorem sign_append_inj {plus plus' : Bool} {ds ds' : List Char}
    (hds : ∀ c ∈ ds, c.isDigit = true) (hds' : ∀ c ∈ ds', c.isDigit = true)
    (h : sign plus ++ ds = sign plus' ++ ds') : plus = plus' ∧ ds = ds' := by
  have hsign (cs : List Char) (hcs : ∀ c ∈ cs, c.isDigit = true) {rest : List Char} :
      cs ≠ '+' :: rest := by
    rintro rfl
    exact absurd (hcs '+' (List.mem_cons_self ..)) (by decide)
  cases plus <;> cases plus'
  · exact ⟨rfl, h⟩
  · exact absurd h (hsign ds hds)
  · exact absurd h.symm (hsign ds' hds')
  · exact ⟨rfl, List.cons.inj h |>.2⟩

variable {bound n : Nat} {cs ds : List Char}

theorem readBelow_plus (bound : Nat) (ds : List Char) : readBelow bound ('+' :: ds) =
    if ds ≠ [] ∧ ds.all Char.isDigit ∧ ofDigits ds < bound then some (ofDigits ds) else none :=
  rfl

theorem readBelow_plain (h : ∀ rest, ds ≠ '+' :: rest) : readBelow bound ds =
    if ds ≠ [] ∧ ds.all Char.isDigit ∧ ofDigits ds < bound then some (ofDigits ds) else none := by
  simp only [readBelow]

/-- A number is read from an optional plus sign and digits, and from nothing else. -/
theorem readBelow_eq_some_iff : readBelow bound cs = some n ↔
    ∃ plus ds, cs = sign plus ++ ds ∧ ds ≠ [] ∧ (∀ c ∈ ds, c.isDigit = true) ∧
      ofDigits ds < bound ∧ ofDigits ds = n := by
  have hdigits (ds : List Char) :
      (if ds ≠ [] ∧ ds.all Char.isDigit ∧ ofDigits ds < bound then some (ofDigits ds)
        else none) = some n ↔ ds ≠ [] ∧ (∀ c ∈ ds, c.isDigit = true) ∧
          ofDigits ds < bound ∧ ofDigits ds = n := by
    rw [Option.ite_none_right_eq_some, Option.some_inj, List.all_eq_true, and_assoc, and_assoc]
  constructor
  · intro h
    by_cases hsign : ∃ rest, cs = '+' :: rest
    · obtain ⟨ds, rfl⟩ := hsign
      rw [readBelow_plus, hdigits] at h
      exact ⟨true, ds, rfl, h⟩
    · rw [readBelow_plain (not_exists.1 hsign), hdigits] at h
      exact ⟨false, cs, rfl, h⟩
  · rintro ⟨plus, ds, rfl, h⟩
    cases plus with
    | true =>
        show readBelow bound ('+' :: ds) = some n
        rw [readBelow_plus, hdigits]
        exact h
    | false =>
        show readBelow bound ds = some n
        rw [readBelow_plain, hdigits]
        · exact h
        · rintro rest rfl
          have hdigit := h.2.1 '+' (List.mem_cons_self ..)
          exact absurd hdigit (by decide)

end Text

namespace Duration

open Text

inductive TimeUnit where
  | second
  | minute
  | hour
deriving DecidableEq

namespace TimeUnit

def letter : TimeUnit → Char
  | second => 's'
  | minute => 'm'
  | hour => 'h'

def seconds : TimeUnit → Nat
  | second => 1
  | minute => 60
  | hour => 3600

theorem letter_injective : Function.Injective letter := by
  intro u v h
  cases u <;> cases v <;> simp_all [letter]

theorem isBlank_letter (unit : TimeUnit) : isBlank unit.letter = false := by
  cases unit <;> decide

theorem isDigit_letter (unit : TimeUnit) : unit.letter.isDigit = false := by
  cases unit <;> decide

end TimeUnit

theorem unitSeconds_eq_some_iff {c : Char} {n : Nat} :
    unitSeconds c = some n ↔ ∃ unit : TimeUnit, unit.letter = c ∧ unit.seconds = n := by
  constructor
  · intro h
    unfold unitSeconds at h
    split at h
    · exact ⟨.second, rfl, Option.some.inj h⟩
    · exact ⟨.minute, rfl, Option.some.inj h⟩
    · exact ⟨.hour, rfl, Option.some.inj h⟩
    · cases h
  · rintro ⟨unit, rfl, rfl⟩
    cases unit <;> rfl

theorem unitSeconds_eq_none_iff {c : Char} :
    unitSeconds c = none ↔ ∀ unit : TimeUnit, unit.letter ≠ c := by
  rw [Option.eq_none_iff_forall_ne_some]
  constructor
  · intro h unit hletter
    exact h unit.seconds (unitSeconds_eq_some_iff.2 ⟨unit, hletter, rfl⟩)
  · intro h n hn
    obtain ⟨unit, hletter, -⟩ := unitSeconds_eq_some_iff.1 hn
    exact h unit hletter

def suffix (unit : Option TimeUnit) : List Char := (unit.map TimeUnit.letter).toList

/-- The seconds of a unit; without a unit, seconds are counted. -/
def scale (unit : Option TimeUnit) : Nat := (unit.map TimeUnit.seconds).getD 1

theorem head?_suffix (unit : Option TimeUnit) :
    (suffix unit).head? = unit.map TimeUnit.letter := by
  unfold suffix
  cases unit.map TimeUnit.letter <;> rfl

theorem isBlank_suffix (unit : Option TimeUnit) : ∀ c ∈ suffix unit, isBlank c = false := by
  intro c hc
  obtain ⟨unit, -, rfl⟩ := Option.map_eq_some_iff.1 (Option.mem_toList.1 hc)
  exact unit.isBlank_letter

theorem scale_pos (unit : Option TimeUnit) : 0 < scale unit := by
  cases unit with
  | none => exact Nat.one_pos
  | some unit => cases unit <;> decide

/-! ## Readings -/

/-- The parts of a text that is a duration. -/
@[ext] structure Reading where
  plus : Bool
  digits : List Char
  blanks : List Char
  unit : Option TimeUnit
  digits_ne_nil : digits ≠ []
  isDigit_digits : ∀ c ∈ digits, c.isDigit = true
  isBlank_blanks : ∀ c ∈ blanks, isBlank c = true

namespace Reading

def number (r : Reading) : List Char := sign r.plus ++ r.digits

def text (r : Reading) : List Char := r.number ++ (r.blanks ++ suffix r.unit)

def count (r : Reading) : Nat := ofDigits r.digits

def seconds (r : Reading) : Nat := r.count * scale r.unit

theorem eq_plus_or_isDigit (r : Reading) : ∀ c ∈ r.number, c = '+' ∨ c.isDigit = true := by
  intro c hc
  rcases List.mem_append.1 hc with hc | hc
  · cases hplus : r.plus with
    | true =>
        rw [hplus] at hc
        exact Or.inl (List.mem_singleton.1 hc)
    | false =>
        rw [hplus] at hc
        cases hc
  · exact Or.inr (r.isDigit_digits c hc)

theorem isBlank_number (r : Reading) : ∀ c ∈ r.number, isBlank c = false := by
  intro c hc
  rcases r.eq_plus_or_isDigit c hc with rfl | hdigit
  · decide
  · exact isBlank_of_isDigit hdigit

theorem unitSeconds_number (r : Reading) : ∀ c ∈ r.number, unitSeconds c = none := by
  intro c hc
  rw [unitSeconds_eq_none_iff]
  rintro unit rfl
  rcases r.eq_plus_or_isDigit _ hc with hplus | hdigit
  · cases unit <;> exact absurd hplus (by decide)
  · rw [unit.isDigit_letter] at hdigit
    cases hdigit

theorem isTrim_number (r : Reading) : IsTrim (r.number ++ r.blanks) r.number where
  around := ⟨[], r.blanks, rfl, nofun, r.isBlank_blanks⟩
  head := fun c hc => r.isBlank_number c (List.mem_of_mem_head? hc)
  last := fun c hc => r.isBlank_number c (List.mem_of_mem_getLast? hc)

theorem not_number_rest (r : Reading) :
    ∀ c ∈ (r.blanks ++ suffix r.unit).head?, (c == '+' || c.isDigit) = false := by
  have hblank {c : Char} (hc : isBlank c = true) : (c == '+' || c.isDigit) = false := by
    rw [Bool.eq_false_iff]
    intro hnumber
    rw [Bool.or_eq_true, beq_iff_eq] at hnumber
    rcases hnumber with rfl | hdigit
    · exact absurd hc (by decide)
    · rw [isBlank_of_isDigit hdigit] at hc
      cases hc
  intro c hc
  cases hblanks : r.blanks with
  | cons b blanks =>
      rw [hblanks] at hc
      obtain rfl : b = c := Option.some.inj hc
      apply hblank
      apply r.isBlank_blanks
      rw [hblanks]
      exact List.mem_cons_self ..
  | nil =>
      rw [hblanks, List.nil_append] at hc
      obtain ⟨unit, -, rfl⟩ := Option.map_eq_some_iff.1 (head?_suffix r.unit ▸ hc)
      cases unit <;> decide

theorem text_injective : Function.Injective text := by
  intro r r' h
  have hnumber (r : Reading) : ∀ c ∈ r.number, (c == '+' || c.isDigit) = true := by
    intro c hc
    simpa using r.eq_plus_or_isDigit c hc
  have hsuffix (r : Reading) : ∀ c ∈ (suffix r.unit).head?, Text.isBlank c = false :=
    fun c hc => isBlank_suffix r.unit c (List.mem_of_mem_head? hc)
  obtain ⟨hnumbers, hrest⟩ := append_inj_of_head (hnumber r) (hnumber r') r.not_number_rest
    r'.not_number_rest h
  obtain ⟨hblanks, hunits⟩ := append_inj_of_head r.isBlank_blanks r'.isBlank_blanks
    (hsuffix r) (hsuffix r') hrest
  obtain ⟨hplus, hdigits⟩ := sign_append_inj r.isDigit_digits r'.isDigit_digits hnumbers
  have hunit : r.unit.map TimeUnit.letter = r'.unit.map TimeUnit.letter := by
    rw [← head?_suffix, ← head?_suffix, hunits]
  exact Reading.ext hplus hdigits hblanks (Option.map_injective TimeUnit.letter_injective hunit)

end Reading

theorem splitUnit_of_letter (cs : List Char) (unit : TimeUnit) :
    splitUnit (cs ++ [unit.letter]) = (cs, unit.seconds) := by
  have hunit : unitSeconds unit.letter = some unit.seconds :=
    unitSeconds_eq_some_iff.2 ⟨unit, rfl, rfl⟩
  simp [splitUnit, hunit]

theorem splitUnit_of_none {cs : List Char} (h : ∀ c ∈ cs.getLast?, unitSeconds c = none) :
    splitUnit cs = (cs, 1) := by
  have hnone : cs.getLast?.bind unitSeconds = none := Option.bind_eq_none_iff.2 h
  rw [splitUnit, hnone]

theorem readTrimmed_of_split {cs front : List Char} {seconds n : Nat}
    (h : splitUnit cs = (front, seconds)) :
    readTrimmed cs = some n ↔ ∃ m, readBelow word64 (trim front) = some m ∧
      m * seconds < word64 ∧ m * seconds = n := by
  rw [readTrimmed, h]
  simp only [bind, Option.bind_eq_some_iff, Option.ite_none_right_eq_some, Option.some_inj]

theorem exists_reading {cs : List Char} {n : Nat} (hhead : ∀ c ∈ cs.head?, isBlank c = false)
    (hlast : ∀ c ∈ cs.getLast?, isBlank c = false) (h : readTrimmed cs = some n) :
    ∃ r : Reading, r.text = cs ∧ r.count < word64 ∧ r.seconds < word64 ∧ r.seconds = n := by
  by_cases hunit : ∃ unit : TimeUnit, cs.getLast? = some unit.letter
  · obtain ⟨unit, hunit⟩ := hunit
    obtain ⟨front, rfl⟩ := List.getLast?_eq_some_iff.1 hunit
    rw [readTrimmed_of_split (splitUnit_of_letter front unit)] at h
    obtain ⟨m, hm, hlt, rfl⟩ := h
    obtain ⟨plus, ds, hnumber, hne, hdigit, hcount, rfl⟩ := readBelow_eq_some_iff.1 hm
    have hfront : ∀ c ∈ front.head?, isBlank c = false := by
      intro c hc
      apply hhead
      rw [List.head?_append, hc]
      rfl
    obtain ⟨blanks, heq, hblanks⟩ := (isTrim_trim front).exists_after hfront
    refine ⟨⟨plus, ds, blanks, some unit, hne, hdigit, hblanks⟩, ?_, hcount, hlt, rfl⟩
    rw [heq, hnumber, List.append_assoc]
    rfl
  · have hnone : ∀ c ∈ cs.getLast?, unitSeconds c = none := by
      intro c hc
      rw [unitSeconds_eq_none_iff]
      rintro unit rfl
      exact hunit ⟨unit, hc⟩
    rw [readTrimmed_of_split (splitUnit_of_none hnone), (isTrim_self hhead hlast).eq] at h
    obtain ⟨m, hm, hlt, rfl⟩ := h
    obtain ⟨plus, ds, rfl, hne, hdigit, hcount, rfl⟩ := readBelow_eq_some_iff.1 hm
    refine ⟨⟨plus, ds, [], none, hne, hdigit, nofun⟩, ?_, hcount, hlt, rfl⟩
    exact List.append_nil _

namespace Reading

theorem exists_splitUnit (r : Reading) (hhead : ∀ c ∈ r.text.head?, isBlank c = false)
    (hlast : ∀ c ∈ r.text.getLast?, isBlank c = false) :
    ∃ front, splitUnit r.text = (front, scale r.unit) ∧ trim front = r.number := by
  have htrim := r.isTrim_number.eq
  cases hunit : r.unit with
  | some unit =>
      have htext : r.text = (r.number ++ r.blanks) ++ [unit.letter] := by
        simp [text, suffix, hunit]
      refine ⟨r.number ++ r.blanks, ?_, htrim⟩
      rw [htext]
      exact splitUnit_of_letter _ unit
  | none =>
      have htext : r.text = r.number ++ r.blanks := by simp [text, suffix, hunit]
      -- Blanks at the end would have been trimmed.
      have hself : r.text = r.number := by
        rw [← (isTrim_self hhead hlast).eq, htext, htrim]
      have hnone : ∀ c ∈ r.text.getLast?, unitSeconds c = none := by
        intro c hc
        rw [hself] at hc
        exact r.unitSeconds_number c (List.mem_of_mem_getLast? hc)
      refine ⟨r.text, splitUnit_of_none hnone, ?_⟩
      rw [htext, htrim]

theorem readTrimmed_text (r : Reading) (hhead : ∀ c ∈ r.text.head?, isBlank c = false)
    (hlast : ∀ c ∈ r.text.getLast?, isBlank c = false) (hcount : r.count < word64)
    (hseconds : r.seconds < word64) : readTrimmed r.text = some r.seconds := by
  obtain ⟨front, hsplit, htrim⟩ := r.exists_splitUnit hhead hlast
  have hnumber : readBelow word64 r.number = some r.count :=
    readBelow_eq_some_iff.2 ⟨r.plus, r.digits, rfl, r.digits_ne_nil, r.isDigit_digits, hcount, rfl⟩
  rw [readTrimmed_of_split hsplit, htrim]
  exact ⟨r.count, hnumber, hseconds, rfl⟩

end Reading

theorem readTrimmed_eq_some_iff {cs : List Char} {n : Nat}
    (hhead : ∀ c ∈ cs.head?, isBlank c = false) (hlast : ∀ c ∈ cs.getLast?, isBlank c = false) :
    readTrimmed cs = some n ↔ ∃ r : Reading, r.text = cs ∧ r.count < word64 ∧
      r.seconds < word64 ∧ r.seconds = n := by
  constructor
  · exact exists_reading hhead hlast
  · rintro ⟨r, rfl, hcount, hseconds, rfl⟩
    exact r.readTrimmed_text hhead hlast hcount hseconds

theorem readTrimmed_trim_eq_some_iff {cs : List Char} {n : Nat} :
    readTrimmed (trim cs) = some n ↔
      ∃ r : Reading, r.text = trim cs ∧ r.count < word64 ∧ r.seconds < word64 ∧ r.seconds = n :=
  readTrimmed_eq_some_iff (isTrim_trim cs).head (isTrim_trim cs).last

theorem parse_eq_ok_iff {s : String} {n : Nat} :
    parse s = .ok n ↔ readTrimmed (trim s.toList) = some n := by
  cases h : readTrimmed (trim s.toList) with
  | none => simp [parse, h]
  | some m => simp [parse, h]

theorem parse_eq_error_iff {s : String} {e : Malformed} :
    parse s = .error e ↔
      e = ⟨String.ofList (trim s.toList)⟩ ∧ readTrimmed (trim s.toList) = none := by
  cases h : readTrimmed (trim s.toList) with
  | none => simp [parse, h, eq_comm]
  | some m => simp [parse, h]

def plain (n : Nat) (unit : Option TimeUnit) : Reading where
  plus := false
  digits := digits n
  blanks := []
  unit
  digits_ne_nil := digits_ne_nil n
  isDigit_digits := fun _ => isDigit_of_mem_digits
  isBlank_blanks := nofun

theorem text_plain (n : Nat) (unit : Option TimeUnit) :
    (plain n unit).text = digits n ++ suffix unit := rfl

theorem count_plain (n : Nat) (unit : Option TimeUnit) : (plain n unit).count = n :=
  ofDigits_digits n

theorem trim_plain (n : Nat) (unit : Option TimeUnit) :
    trim (digits n ++ suffix unit) = digits n ++ suffix unit := by
  have hblank : ∀ c ∈ digits n ++ suffix unit, isBlank c = false := by
    intro c hc
    rcases List.mem_append.1 hc with hc | hc
    · exact isBlank_of_isDigit (isDigit_of_mem_digits hc)
    · exact isBlank_suffix unit c hc
  apply IsTrim.eq
  apply isTrim_self
  · exact fun c hc => hblank c (List.mem_of_mem_head? hc)
  · exact fun c hc => hblank c (List.mem_of_mem_getLast? hc)

theorem parse_plain_iff (n : Nat) (unit : Option TimeUnit) :
    parse (String.ofList (digits n ++ suffix unit)) = .ok (n * scale unit) ↔
      n * scale unit < word64 := by
  rw [parse_eq_ok_iff, readTrimmed_trim_eq_some_iff, String.toList_ofList, trim_plain]
  constructor
  · rintro ⟨r, -, -, hlt, hseconds⟩
    rwa [hseconds] at hlt
  · intro hlt
    have hle : n ≤ n * scale unit := Nat.le_mul_of_pos_right n (scale_pos unit)
    have hseconds : (plain n unit).seconds = n * scale unit := by
      rw [Reading.seconds, count_plain]
      rfl
    refine ⟨plain n unit, text_plain n unit, ?_, ?_, hseconds⟩
    · rw [count_plain]
      exact hle.trans_lt hlt
    · rwa [hseconds]

/-- A text is a duration exactly if, white space at its ends apart, it has a reading whose
number and seconds fit 64 bits.  Then it has no other reading and is worth these seconds; if
not, the error carries the trimmed text. -/
theorem durations_are_readings (s : String) :
    IsTrim s.toList (trim s.toList) ∧
    (∀ n, parse s = .ok n ↔ ∃! r : Reading,
      r.text = trim s.toList ∧ r.count < word64 ∧ r.seconds < word64 ∧ r.seconds = n) ∧
    (∀ e, parse s = .error e ↔ e = ⟨String.ofList (trim s.toList)⟩ ∧
      ¬ ∃ r : Reading, r.text = trim s.toList ∧ r.count < word64 ∧ r.seconds < word64) ∧
    ∀ n unit, parse (String.ofList (digits n ++ suffix unit)) = .ok (n * scale unit) ↔
      n * scale unit < word64 := by
  refine ⟨isTrim_trim _, fun n => ?_, fun e => ?_, parse_plain_iff⟩
  · rw [parse_eq_ok_iff, readTrimmed_trim_eq_some_iff]
    constructor
    · rintro ⟨r, htext, hr⟩
      refine ⟨r, ⟨htext, hr⟩, fun r' hr' => ?_⟩
      exact Reading.text_injective (hr'.1.trans htext.symm)
    · exact ExistsUnique.exists
  · rw [parse_eq_error_iff, Option.eq_none_iff_forall_ne_some]
    refine and_congr_right fun _ => ?_
    constructor
    · rintro hnone ⟨r, htext, hcount, hseconds⟩
      exact hnone r.seconds (readTrimmed_trim_eq_some_iff.2 ⟨r, htext, hcount, hseconds, rfl⟩)
    · intro hnone n hn
      obtain ⟨r, htext, hcount, hseconds, -⟩ := readTrimmed_trim_eq_some_iff.1 hn
      exact hnone ⟨r, htext, hcount, hseconds⟩

/-- Zeros in front and white space before the unit are no obstacle. -/
example : parse " +007 m\u3000" = .ok 420 := by decide +kernel

/-- Units of more letters are none. -/
example : parse "90 ms " = .error ⟨"90 ms"⟩ := by decide +kernel

end Duration

end FleetSizing
