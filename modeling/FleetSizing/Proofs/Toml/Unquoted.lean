import FleetSizing.Proofs.Toml.Numbers
/-!
# Unquoted values

The text of a number is none of the words for truth values and no date or time, so that at
the end of its line it is read as the number.
-/

namespace FleetSizing.Toml

open Float.Model Float.Model.UnpackedFloat Text

def isNumberChar (c : Char) : Bool :=
  c.isDigit || c == '.' || c == 'n' || c == 'a' || c == 'i' || c == 'f'

/-- What numbers are written with, whether it makes sense or not. -/
structure IsNumberText (cs : List Char) : Prop where
  tail : ∀ c ∈ cs.tail, isNumberChar c = true
  head : ∃ c, cs.head? = some c ∧ (c = '-' ∨ isNumberChar c = true)

theorem isNumberText_of_forall {cs : List Char} (hne : cs ≠ [])
    (h : ∀ c ∈ cs, isNumberChar c = true) : IsNumberText cs := by
  constructor
  · exact fun c hc => h c (List.mem_of_mem_tail hc)
  · cases cs with
    | nil => exact absurd rfl hne
    | cons c cs => exact ⟨c, rfl, Or.inr (h c (List.mem_cons_self ..))⟩

theorem isNumberText_sign (s : Sign) {cs : List Char} (hne : cs ≠ [])
    (h : ∀ c ∈ cs, isNumberChar c = true) : IsNumberText (Decimal.sign s ++ cs) := by
  cases s with
  | positive => exact isNumberText_of_forall hne h
  | negative => exact ⟨h, '-', rfl, Or.inl rfl⟩

theorem isNumberChar_of_isDigit {c : Char} (h : c.isDigit = true) : isNumberChar c = true := by
  simp [isNumberChar, h]

theorem isNumberText_digits (n : Nat) : IsNumberText (digits n) :=
  isNumberText_of_forall (digits_ne_nil n) fun _ hc =>
    isNumberChar_of_isDigit (isDigit_of_mem_digits hc)

theorem isNumberText_positional (s : Sign) {d : Decimal} (hd : 0 < d.digits ∨ d.exponent = 0) :
    IsNumberText (Decimal.sign s ++ Decimal.positional ['.', '0'] d) := by
  obtain ⟨whole, frac, htext, hparts⟩ := exists_positional hd
  rw [htext]
  apply isNumberText_sign
  · simp
  · intro c hc
    rcases List.mem_append.1 hc with hc | hc
    · exact isNumberChar_of_isDigit (hparts.isNumeral.isDigit c hc)
    · rcases List.mem_cons.1 hc with rfl | hc
      · rfl
      · exact isNumberChar_of_isDigit (hparts.isDigits.isDigit c hc)

theorem isNumberText_write (x : Float) : IsNumberText (Decimal.write Config.inToml x) := by
  unfold Decimal.write
  cases hx : x.toModel.unpack with
  | notANumber =>
      exact isNumberText_of_forall (List.cons_ne_nil 'n' ['a', 'n'])
        (by simp [isNumberChar, Config.inToml])
  | infinity s =>
      exact isNumberText_sign s (List.cons_ne_nil 'i' ['n', 'f'])
        (by simp [isNumberChar, Config.inToml])
  | zero s => exact isNumberText_positional s (d := ⟨0, 0⟩) (Or.inr rfl)
  | finite s m q hm =>
      have hshortest := Decimal.toFloat_shortest (unpack_abs hx)
      exact isNumberText_positional s
        (Or.inl (Decimal.digits_pos_of_toFloat (unpack_abs hx) hshortest))

/-! ## Dates and times -/

theorem eq_of_field {width low high : Nat} {cs r : List Char} {n : Nat}
    (h : field width low high cs = some (n, r)) : r = cs.drop width := by
  unfold field at h
  dsimp only at h
  split at h
  · cases h
    rfl
  · cases h

theorem eq_cons_of_expect {c : Char} {cs r : List Char} (h : expect c cs = some r) :
    cs = c :: r := by
  cases cs with
  | nil => cases h
  | cons d cs =>
      by_cases heq : d = c
      · simp only [expect, if_pos heq, Option.some.injEq] at h
        rw [heq, h]
      · simp only [expect, if_neg heq] at h
        cases h

theorem mem_tail_of_expect {width low high : Nat} {cs r r' : List Char} {n : Nat} {c : Char}
    (hwidth : 0 < width) (h : field width low high cs = some (n, r)) (h' : expect c r = some r') :
    c ∈ cs.tail := by
  have hdrop : cs.drop width = c :: r' := by
    rw [← eq_of_field h]
    exact eq_cons_of_expect h'
  have hmem : c ∈ cs.drop width := hdrop ▸ List.mem_cons_self ..
  rw [← List.drop_one]
  exact (List.drop_subset_drop_left cs hwidth) hmem

theorem mem_tail_of_date {cs r : List Char} (h : date cs = some r) : '-' ∈ cs.tail := by
  unfold date at h
  obtain ⟨⟨year, r₁⟩, hyear, h⟩ := Option.bind_eq_some_iff.1 h
  obtain ⟨r₂, hmark, -⟩ := Option.bind_eq_some_iff.1 h
  exact mem_tail_of_expect (by decide) hyear hmark

theorem mem_tail_of_timeOfDay {cs r : List Char} (h : timeOfDay cs = some r) : ':' ∈ cs.tail := by
  unfold timeOfDay at h
  obtain ⟨⟨hour, r₁⟩, hhour, h⟩ := Option.bind_eq_some_iff.1 h
  obtain ⟨r₂, hmark, -⟩ := Option.bind_eq_some_iff.1 h
  exact mem_tail_of_expect (by decide) hhour hmark

namespace IsNumberText

variable {cs : List Char}

theorem ne_nil (h : IsNumberText cs) : cs ≠ [] := by
  rintro rfl
  obtain ⟨c, hc, -⟩ := h.head
  cases hc

theorem date_eq_none (h : IsNumberText cs) : date cs = none := by
  rw [Option.eq_none_iff_forall_ne_some]
  intro r hr
  exact absurd (h.tail '-' (mem_tail_of_date hr)) (by decide)

theorem isMoment_eq_false (h : IsNumberText cs) : isMoment cs = false := by
  have htime : timeOfDay cs ≠ some [] := by
    intro hr
    exact absurd (h.tail ':' (mem_tail_of_timeOfDay hr)) (by decide)
  unfold isMoment
  rw [h.date_eq_none]
  simpa using htime

theorem head_ne (h : IsNumberText cs) {d : Char} (hd : d ≠ '-' ∧ isNumberChar d = false)
    (r : List Char) : cs ≠ d :: r := by
  intro heq
  obtain ⟨c, hc, hchar⟩ := h.head
  rw [heq, List.head?_cons] at hc
  obtain rfl := Option.some_inj.1 hc
  rcases hchar with hchar | hchar
  · exact hd.1 hchar
  · rw [hd.2] at hchar
    cases hchar

theorem isBare (h : IsNumberText cs) : ∀ c ∈ cs, isBare c = true := by
  have hnumber {c : Char} (hc : isNumberChar c = true) : Toml.isBare c = true := by
    simp only [isNumberChar, Bool.or_eq_true, beq_iff_eq] at hc
    rcases hc with ((((hc | rfl) | rfl) | rfl) | rfl) | rfl
    · simp [Toml.isBare, Char.isAlphanum, hc]
    all_goals decide
  intro c hc
  obtain ⟨d, hd, hchar⟩ := h.head
  cases cs with
  | nil => cases hc
  | cons e cs =>
      obtain rfl := Option.some_inj.1 hd
      rcases List.mem_cons.1 hc with rfl | hc
      · rcases hchar with rfl | hchar
        · decide
        · exact hnumber hchar
      · exact hnumber (h.tail c hc)

theorem bare?_eq (h : IsNumberText cs) :
    bare? cs = match float? cs with
      | some x => some (.float x)
      | none => (integer? cs).map .integer := by
  have htrue : cs ≠ "true".toList := h.head_ne (by decide) _
  have hfalse : cs ≠ "false".toList := by
    rintro rfl
    exact absurd (h.tail 's' (by decide)) (by decide)
  unfold bare?
  rw [if_neg htrue, if_neg hfalse, h.isMoment_eq_false]
  rfl

theorem bare_eq (h : IsNumberText cs) {v : Toml} (hv : bare? cs = some v) (rest : List Char) :
    bare (cs ++ '\n' :: rest) = some (v, '\n' :: rest) := by
  have htake : (cs ++ '\n' :: rest).takeWhile Toml.isBare = cs := by
    rw [List.takeWhile_append_of_pos h.isBare, List.takeWhile_cons_of_neg (by decide),
      List.append_nil]
  have hdrop : (cs ++ '\n' :: rest).dropWhile Toml.isBare = '\n' :: rest := by
    rw [List.dropWhile_append_of_pos h.isBare, List.dropWhile_cons_of_neg (by decide)]
  have hsplit : isSplitMoment cs ('\n' :: rest) = false := by
    unfold isSplitMoment
    rw [h.date_eq_none]
    rfl
  unfold bare
  dsimp only
  rw [htake, hdrop, hsplit, hv]
  rfl

end IsNumberText

theorem bare_write (x : Float) (rest : List Char) :
    bare (Decimal.write Config.inToml x ++ '\n' :: rest) = some (.float x, '\n' :: rest) := by
  have htext := isNumberText_write x
  apply htext.bare_eq
  rw [htext.bare?_eq, float?_write]

theorem bare_digits {n : Nat} (hn : n < halfWord64) (rest : List Char) :
    bare (digits n ++ '\n' :: rest) = some (.integer n, '\n' :: rest) := by
  have htext := isNumberText_digits n
  apply htext.bare_eq
  rw [htext.bare?_eq, float?_digits, integer?_digits hn]
  rfl

end FleetSizing.Toml
