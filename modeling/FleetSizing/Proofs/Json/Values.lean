import FleetSizing.Proofs.Json.Numbers
import FleetSizing.Proofs.Json.Strings
/-!
# Values in JSON

A value is read from its text as it was written, in one line or in many, as long as its
numbers have a text and it nests no deeper than the reader follows.
-/

namespace FleetSizing.Json

open Text

variable {α : Type} {item : List Char → Option (α × List Char)} {write : α → List Char}
  {l : Layout} {v : Json} {c d close : Char} {blanks cs rest : List Char} {depth level size : Nat}

def IsBlank (cs : List Char) : Prop := ∀ c ∈ cs, isSpace c = true

theorem isBlank_nil : IsBlank [] := List.forall_mem_nil _

theorem skipSpace_blank (h : IsBlank blanks) (cs : List Char) :
    skipSpace (blanks ++ cs) = skipSpace cs := List.dropWhile_append_of_pos h

theorem skipSpace_cons (h : isSpace c = false) (cs : List Char) : skipSpace (c :: cs) = c :: cs :=
  List.dropWhile_cons_of_neg (by simp [h])

theorem token_eq (h : IsBlank blanks) (hc : isSpace c = false) (rest : List Char) :
    token c (blanks ++ c :: rest) = some rest := by
  rw [token, skipSpace_blank h, skipSpace_cons hc]
  exact if_pos rfl

theorem token_head (hc : isSpace c = false) (rest : List Char) :
    token c (c :: rest) = some rest := token_eq isBlank_nil hc rest

theorem token_ne (h : IsBlank blanks) (hd : isSpace d = false) (hne : c ≠ d) (rest : List Char) :
    token c (blanks ++ d :: rest) = none := by
  rw [token, skipSpace_blank h, skipSpace_cons hd]
  exact if_neg hne

theorem skipSpace_of_token {cs r : List Char} (h : token c cs = some r) :
    skipSpace cs = c :: r := by
  unfold token at h
  cases hskip : skipSpace cs with
  | nil =>
      rw [hskip] at h
      cases h
  | cons d ds =>
      rw [hskip] at h
      by_cases hd : c = d
      · subst hd
        rw [dropText, if_pos rfl] at h
        obtain rfl : ds = r := Option.some.inj h
        rfl
      · rw [dropText, if_neg hd] at h
        cases h

theorem endsNumber_blank (h : IsBlank blanks) (hrest : EndsNumber rest) :
    EndsNumber (blanks ++ rest) := by
  cases blanks with
  | nil => exact hrest
  | cons b bs =>
      intro c hc
      obtain rfl : b = c := Option.some.inj hc
      have hspace := h b (List.mem_cons_self ..)
      simp only [isSpace, Bool.or_eq_true, beq_iff_eq] at hspace
      obtain ((rfl | rfl) | rfl) | rfl := hspace <;> rfl

theorem endsNumber_cons (h : goesOn c = false) (rest : List Char) : EndsNumber (c :: rest) := by
  intro d hd
  obtain rfl : c = d := Option.some.inj hd
  exact h

theorem value_eq_scalar (h : skipSpace cs = c :: rest) (harray : c ≠ '[') (hobject : c ≠ '\x7b') :
    value size depth cs = scalar (c :: rest) := by
  cases depth with
  | zero => rw [value, h]
  | succ depth =>
      rw [value, h]
      split
      next heq => exact absurd (List.cons.inj heq).1 harray
      next heq => exact absurd (List.cons.inj heq).1 hobject
      next => rfl

theorem value_blank (h : IsBlank blanks) (cs : List Char) :
    value size depth (blanks ++ cs) = value size depth cs := by
  cases depth with
  | zero => rw [value, value, skipSpace_blank h]
  | succ depth => rw [value, value, skipSpace_blank h]

theorem exists_cons_of_number {p : Json × List Char} (h : number cs = some p) :
    ∃ c r, cs = c :: r ∧ (c = '-' ∨ c.isDigit = true) := by
  cases cs with
  | nil => cases h
  | cons c r =>
      refine ⟨c, r, rfl, ?_⟩
      by_contra hc
      obtain ⟨hminus, hdigit⟩ := not_or.1 hc
      have hrun : integral (c :: r) = none := by
        unfold integral digitRun
        rw [List.takeWhile_cons_of_neg hdigit]
        rfl
      have hsign : number (c :: r) = none := by
        unfold number
        split
        next negative ds heq =>
          split at heq
          next r' hcons => exact absurd (List.cons.inj hcons).1 hminus
          next =>
            obtain ⟨-, rfl⟩ := Prod.mk.inj heq
            rw [hrun]
            rfl
      rw [hsign] at h
      cases h

theorem value_of_number {p : Json × List Char} (h : number cs = some p) :
    value size depth cs = some p := by
  obtain ⟨c, r, rfl, hc⟩ := exists_cons_of_number h
  have hother (d : Char) (hminus : d ≠ '-') (hdigit : d.isDigit = false) : c ≠ d := by
    rintro rfl
    obtain rfl | hc := hc
    · exact hminus rfl
    · rw [hc] at hdigit
      cases hdigit
  have hspace : isSpace c = false := by
    simp only [isSpace, Bool.or_eq_false_iff, beq_eq_false_iff_ne]
    exact ⟨⟨⟨hother _ (by decide) rfl, hother _ (by decide) rfl⟩, hother _ (by decide) rfl⟩,
      hother _ (by decide) rfl⟩
  rw [value_eq_scalar (skipSpace_cons hspace r) (hother _ (by decide) rfl)
    (hother _ (by decide) rfl), ← h]
  unfold scalar
  split
  next heq => exact absurd (List.cons.inj heq).1 (hother _ (by decide) rfl)
  next heq => exact absurd (List.cons.inj heq).1 (hother _ (by decide) rfl)
  next heq => exact absurd (List.cons.inj heq).1 (hother _ (by decide) rfl)
  next heq => exact absurd (List.cons.inj heq).1 (hother _ (by decide) rfl)
  next => rfl

theorem value_quote (cs rest : List Char) :
    value size depth (quote cs ++ rest) = some (.string (String.ofList cs), rest) := by
  have hquote : quote cs ++ rest = '"' :: (cs.flatMap escape ++ '"' :: rest) := by
    simp [quote]
  rw [hquote, value_eq_scalar (skipSpace_cons rfl _) (by decide) (by decide), scalar,
    stringBody_quoted]
  rfl

theorem value_of_token {r : List Char} (hclose : close = ']' ∨ close = '\x7d')
    (h : token close cs = some r) : value size depth cs = none := by
  have hskip := skipSpace_of_token h
  obtain rfl | rfl := hclose
  · rw [value_eq_scalar hskip (by decide) (by decide)]
    rfl
  · rw [value_eq_scalar hskip (by decide) (by decide)]
    rfl

/-! ## Lists -/

def following (write : α → List Char) (xs : List α) : List Char :=
  xs.flatMap fun x => ',' :: write x

theorem following_cons (x : α) (xs : List α) :
    following write (x :: xs) = ',' :: (write x ++ following write xs) := by
  simp [following]

theorem length_le_following (xs : List α) : xs.length ≤ (following write xs).length := by
  induction xs with
  | nil => exact Nat.zero_le _
  | cons x xs ih =>
      simp only [following_cons, List.length_cons, List.length_append]
      omega

theorem length_write_le {x : α} {xs : List α} (h : x ∈ xs) :
    (write x).length ≤ (following write xs).length := by
  induction h with
  | head xs =>
      simp only [following_cons, List.length_cons, List.length_append]
      omega
  | tail y _ ih =>
      simp only [following_cons, List.length_cons, List.length_append]
      omega

theorem items_eq (hclose : close = ']' ∨ close = '\x7d') (hblank : IsBlank blanks) (x : α)
    (xs : List α)
    (hitem : ∀ y ∈ x :: xs, ∀ rest, EndsNumber rest → item (write y ++ rest) = some (y, rest))
    (hsize : xs.length < size) (rest : List Char) :
    items close item size (write x ++ (following write xs ++ (blanks ++ close :: rest))) =
      some (x :: xs, rest) := by
  induction xs generalizing x size with
  | nil =>
      obtain ⟨fuel, rfl⟩ := Nat.exists_eq_succ_of_ne_zero (Nat.ne_of_gt hsize)
      have hend : EndsNumber (blanks ++ close :: rest) :=
        endsNumber_blank hblank (endsNumber_cons (by rcases hclose with rfl | rfl <;> rfl) rest)
      have hspace : isSpace close = false := by rcases hclose with rfl | rfl <;> rfl
      have hcomma : ',' ≠ close := by rcases hclose with rfl | rfl <;> decide
      have hread := hitem x (List.mem_cons_self ..) _ hend
      have hlast : listEnd close (items close item fuel) (blanks ++ close :: rest) =
          some ([], rest) := by
        unfold listEnd
        rw [token_ne hblank hspace hcomma, token_eq hblank hspace]
        rfl
      change items close item (fuel + 1) (write x ++ (blanks ++ close :: rest)) = _
      rw [items, hread]
      simp only [Option.bind_eq_bind, Option.bind_some, hlast]
      rfl
  | cons y ys ih =>
      obtain ⟨fuel, rfl⟩ := Nat.exists_eq_succ_of_ne_zero (Nat.ne_of_gt (Nat.zero_lt_of_lt hsize))
      rw [following_cons, List.cons_append, List.append_assoc]
      have hread := hitem x (List.mem_cons_self ..)
        (',' :: (write y ++ (following write ys ++ (blanks ++ close :: rest))))
        (endsNumber_cons rfl _)
      have hcomma := token_head (c := ',') rfl (write y ++ (following write ys ++ (blanks ++
        close :: rest)))
      have hmore := ih y (fun z hz => hitem z (List.mem_cons_of_mem _ hz))
        (Nat.lt_of_succ_lt_succ hsize)
      rw [items, hread]
      simp only [Option.bind_eq_bind, Option.bind_some, listEnd, hcomma, hmore]
      rfl

theorem bracketed_eq (hclose : close = ']' ∨ close = '\x7d') (hblank : IsBlank blanks) (x : α)
    (xs : List α)
    (hitem : ∀ y ∈ x :: xs, ∀ rest, EndsNumber rest → item (write y ++ rest) = some (y, rest))
    (hfirst : ∀ cs r, token close cs = some r → item cs = none)
    (hsize : (following write (x :: xs)).length ≤ size) (rest : List Char) :
    bracketed close item size (write x ++ (following write xs ++ (blanks ++ close :: rest))) =
      some (x :: xs, rest) := by
  have hfuel : xs.length < size :=
    Nat.lt_of_lt_of_le (Nat.lt_of_succ_le (length_le_following (x :: xs))) hsize
  have hitems := items_eq hclose hblank x xs hitem hfuel rest
  unfold bracketed
  split
  next r hr =>
    obtain ⟨fuel, rfl⟩ := Nat.exists_eq_succ_of_ne_zero (n := size) (by rintro rfl; cases hitems)
    rw [items, hfirst _ r hr] at hitems
    cases hitems
  next => exact hitems

/-! ## Values -/

/-- White space stands before items and brackets, and around no colon but after it. -/
structure Layout.Blank (l : Layout) : Prop where
  newline : ∀ level, IsBlank (l.newline level)
  colon : ∃ blanks, IsBlank blanks ∧ l.colon = ':' :: blanks

theorem blank_compact : compact.Blank where
  newline _ := isBlank_nil
  colon := ⟨[], isBlank_nil, rfl⟩

theorem blank_indented : indented.Blank where
  newline level := by
    rintro c (_ | ⟨_, hc⟩)
    · rfl
    · rw [List.eq_of_mem_replicate hc]
      rfl
  colon := ⟨[' '], by simp [IsBlank, isSpace], rfl⟩

/-- Values that have a text: their numbers are finite doubles or fit a word, and they nest at
most so deep. -/
inductive Readable : (depth : Nat) → Json → Prop where
  | null {depth : Nat} : Readable depth .null
  | boolean {depth : Nat} (b : Bool) : Readable depth (.boolean b)
  | integer {depth : Nat} {i : Int} (h : InWord i) : Readable depth (.integer i)
  | float {depth : Nat} {x : Float} (h : x.isFinite = true) : Readable depth (.float x)
  | string {depth : Nat} (s : String) : Readable depth (.string s)
  | array {depth : Nat} {vs : List Json} (h : ∀ v ∈ vs, Readable depth v) :
      Readable (depth + 1) (.array vs)
  | object {depth : Nat} {fs : List (String × Json)} (h : ∀ f ∈ fs, Readable depth f.2) :
      Readable (depth + 1) (.object fs)

theorem Readable.array_map {xs : List α} {encode : α → Json}
    (h : ∀ x ∈ xs, Readable depth (encode x)) : Readable (depth + 1) (.array (xs.map encode)) := by
  apply Readable.array
  rintro _ hv
  obtain ⟨x, hx, rfl⟩ := List.mem_map.1 hv
  exact h x hx

def itemText (l : Layout) (level : Nat) (v : Json) : List Char :=
  l.newline level ++ writeAt l level v

def fieldText (l : Layout) (level : Nat) (f : String × Json) : List Char :=
  l.newline level ++ (quote f.1.toList ++ (l.colon ++ writeAt l level f.2))

theorem writeItems_eq (vs : List Json) :
    writeItems l level vs = following (itemText l level) vs := by
  induction vs with
  | nil => rfl
  | cons v vs ih =>
      rw [writeItems, ih, following_cons]
      simp [itemText]

theorem writeFields_eq (fs : List (String × Json)) :
    writeFields l level fs = following (fieldText l level) fs := by
  induction fs with
  | nil => rfl
  | cons f fs ih =>
      rw [writeFields, ih, following_cons]
      simp [fieldText]

theorem writeAt_array (v : Json) (vs : List Json) (rest : List Char) :
    writeAt l level (.array (v :: vs)) ++ rest =
      '[' :: (itemText l (level + 1) v ++ (following (itemText l (level + 1)) vs ++
        (l.newline level ++ ']' :: rest))) := by
  simp [writeAt, writeItems_eq, itemText]

theorem writeAt_object (f : String × Json) (fs : List (String × Json)) (rest : List Char) :
    writeAt l level (.object (f :: fs)) ++ rest =
      '\x7b' :: (fieldText l (level + 1) f ++ (following (fieldText l (level + 1)) fs ++
        (l.newline level ++ '\x7d' :: rest))) := by
  simp [writeAt, writeFields_eq, fieldText]

theorem length_writeAt_array (v : Json) (vs : List Json) :
    (following (itemText l (level + 1)) (v :: vs)).length ≤
      (writeAt l level (.array (v :: vs))).length := by
  have htext : writeAt l level (.array (v :: vs)) ++ [] = _ := writeAt_array v vs []
  rw [List.append_nil] at htext
  simp only [htext, following_cons, List.length_cons, List.length_append]
  omega

theorem length_writeAt_object (f : String × Json) (fs : List (String × Json)) :
    (following (fieldText l (level + 1)) (f :: fs)).length ≤
      (writeAt l level (.object (f :: fs))).length := by
  have htext : writeAt l level (.object (f :: fs)) ++ [] = _ := writeAt_object f fs []
  rw [List.append_nil] at htext
  simp only [htext, following_cons, List.length_cons, List.length_append]
  omega

theorem field_fieldText (hl : l.Blank) (f : String × Json)
    (hvalue : value size depth (writeAt l level f.2 ++ rest) = some (f.2, rest)) :
    field (value size depth) (fieldText l level f ++ rest) = some (f, rest) := by
  obtain ⟨blanks, hblanks, hcolon⟩ := hl.colon
  have htext : fieldText l level f ++ rest =
      l.newline level ++ '"' :: (f.1.toList.flatMap escape ++
        '"' :: ':' :: (blanks ++ (writeAt l level f.2 ++ rest))) := by
    simp [fieldText, quote, hcolon]
  have hmark := token_head (c := ':') rfl (blanks ++ (writeAt l level f.2 ++ rest))
  rw [htext]
  unfold field
  rw [token_eq (hl.newline level) rfl]
  simp only [Option.bind_eq_bind, Option.bind_some, stringBody_quoted, hmark,
    value_blank hblanks, hvalue, String.ofList_toList]
  rfl

theorem field_of_token (read : List Char → Option (Json × List Char)) {r : List Char}
    (h : token '\x7d' cs = some r) : field read cs = none := by
  have hquote : token '"' cs = none := by
    rw [token, skipSpace_of_token h]
    rfl
  unfold field
  rw [hquote]
  rfl

/-- A value is read from its own text, whatever follows that is no part of a number. -/
theorem value_writeAt (hl : l.Blank) (hv : Readable depth v)
    (hsize : (writeAt l level v).length ≤ size) (hrest : EndsNumber rest) :
    value size depth (writeAt l level v ++ rest) = some (v, rest) := by
  induction hv generalizing level rest with
  | null =>
      rw [writeAt, show "null".toList ++ rest = 'n' :: ("ull".toList ++ rest) from rfl,
        value_eq_scalar (skipSpace_cons rfl _) (by decide) (by decide)]
      rfl
  | boolean b =>
      cases b with
      | false =>
          rw [writeAt, show "false".toList ++ rest = 'f' :: ("alse".toList ++ rest) from rfl,
            value_eq_scalar (skipSpace_cons rfl _) (by decide) (by decide)]
          rfl
      | true =>
          rw [writeAt, show "true".toList ++ rest = 't' :: ("rue".toList ++ rest) from rfl,
            value_eq_scalar (skipSpace_cons rfl _) (by decide) (by decide)]
          rfl
  | integer h =>
      rw [writeAt]
      exact value_of_number (number_writeInt h hrest)
  | float h =>
      rw [writeAt]
      exact value_of_number (number_writeFloat h hrest)
  | string s =>
      rw [writeAt, value_quote, String.ofList_toList]
  | @array depth vs h ih =>
      cases vs with
      | nil => rfl
      | cons v vs =>
          have hlength := Nat.le_trans (length_writeAt_array v vs) hsize
          have hitem : ∀ w ∈ v :: vs, ∀ rest, EndsNumber rest →
              value size depth (itemText l (level + 1) w ++ rest) = some (w, rest) := by
            intro w hw rest hrest
            have hw_length := Nat.le_trans (length_write_le hw) hlength
            rw [itemText, List.append_assoc, value_blank (hl.newline _)]
            apply ih w hw _ hrest
            simp only [itemText, List.length_append] at hw_length
            omega
          have hlist := bracketed_eq (Or.inl rfl) (hl.newline level) v vs hitem
            (fun cs r => value_of_token (Or.inl rfl)) hlength rest
          rw [writeAt_array, value, skipSpace_cons rfl]
          simp only [hlist]
          rfl
  | @object depth fs h ih =>
      cases fs with
      | nil => rfl
      | cons f fs =>
          have hlength := Nat.le_trans (length_writeAt_object f fs) hsize
          have hitem : ∀ g ∈ f :: fs, ∀ rest, EndsNumber rest →
              field (value size depth) (fieldText l (level + 1) g ++ rest) = some (g, rest) := by
            intro g hg rest hrest
            have hg_length := Nat.le_trans (length_write_le hg) hlength
            apply field_fieldText hl g
            apply ih g hg _ hrest
            simp only [fieldText, List.length_append] at hg_length
            omega
          have hlist := bracketed_eq (Or.inr rfl) (hl.newline level) f fs hitem
            (fun cs r => field_of_token _) hlength rest
          rw [writeAt_object, value, skipSpace_cons rfl]
          simp only [hlist]
          rfl

theorem parse_text (hl : l.Blank) (hv : Readable depthLimit v) (hblanks : IsBlank blanks) :
    parse (v.text l ++ String.ofList blanks) = some v := by
  have htext : (v.text l ++ String.ofList blanks).toList = writeAt l 0 v ++ blanks := by
    simp [text]
  have hend : EndsNumber blanks := by
    have h := endsNumber_blank hblanks endsNumber_nil
    rwa [List.append_nil] at h
  have hskip : skipSpace blanks = [] := by
    have h := skipSpace_blank hblanks []
    rwa [List.append_nil] at h
  have hlength : (writeAt l 0 v).length ≤ (writeAt l 0 v ++ blanks).length := by simp
  have hread := value_writeAt hl hv hlength hend
  unfold parse
  simp only [htext, hread, Option.bind_eq_bind, Option.bind_some, hskip, if_true]

end FleetSizing.Json
