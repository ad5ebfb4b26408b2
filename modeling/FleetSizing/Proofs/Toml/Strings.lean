import FleetSizing.Proofs.Text.Hex
import FleetSizing.Toml.Quoted
/-!
# Strings in TOML

Whatever characters a string has, and whichever of its forms is chosen for it, it is read as
it was before it was written.  The argument is the same for all forms: each character is
written so that it is read as itself, and no more quotes stand in a row than the form
allows.
-/

namespace FleetSizing.Toml

open Text

theorem toNat_lt_of_isControl {c : Char} (h : isControl c = true) : c.toNat < 128 := by
  simp only [isControl, isPlain, Bool.and_eq_true, Bool.not_eq_true', Bool.or_eq_false_iff,
    Bool.and_eq_false_iff, decide_eq_false_iff_not, bne_eq_false_iff_eq] at h
  omega

theorem escape_control {c : Char} (h : isControl c = true) (rest : List Char) :
    escape ('u' :: hexDigits true 4 c.toNat ++ rest) = some (c, rest) := by
  have hlength := length_hexDigits true 4 c.toNat
  have hlt := toNat_lt_of_isControl h
  rw [List.cons_append, escape, if_pos (by simp [hlength]), List.take_left' hlength,
    List.drop_left' hlength, codePoint, ofCodePoint_hexDigits true (by omega)]
  rfl

theorem escaped_cases (multiline : Bool) (c : Char) :
    (∃ s, escaped multiline c = '\\' :: s ∧
      ∀ t, escape (s ++ t) = some (c, t) ∧ continuation (s ++ t) = none) ∨
    (escaped multiline c = [c] ∧ c ≠ '\\' ∧
      (isPlain c = true ∨ (multiline = true ∧ c = '\n'))) := by
  unfold escaped
  by_cases h₁ : c = '\x08'
  · subst h₁
    exact Or.inl ⟨['b'], rfl, fun t => ⟨rfl, rfl⟩⟩
  by_cases h₂ : c = '\t'
  · subst h₂
    exact Or.inl ⟨['t'], rfl, fun t => ⟨rfl, rfl⟩⟩
  by_cases h₃ : c = '\n'
  · subst h₃
    cases multiline with
    | false => exact Or.inl ⟨['n'], rfl, fun t => ⟨rfl, rfl⟩⟩
    | true => exact Or.inr ⟨rfl, by decide, Or.inr ⟨rfl, rfl⟩⟩
  by_cases h₄ : c = '\x0c'
  · subst h₄
    exact Or.inl ⟨['f'], rfl, fun t => ⟨rfl, rfl⟩⟩
  by_cases h₅ : c = '\r'
  · subst h₅
    exact Or.inl ⟨['r'], rfl, fun t => ⟨rfl, rfl⟩⟩
  by_cases h₆ : c = '\\'
  · subst h₆
    exact Or.inl ⟨['\\'], rfl, fun t => ⟨rfl, rfl⟩⟩
  by_cases h₇ : isControl c = true
  · exact Or.inl ⟨'u' :: hexDigits true 4 c.toNat, by simp [*],
      fun t => ⟨escape_control h₇ t, rfl⟩⟩
  · refine Or.inr ⟨by simp [*], h₆, Or.inl ?_⟩
    simpa [isControl, h₃] using h₇

/-- The text writes the content so that `read` reads each character as itself.  At most
`limit` quotes stand in a row, `run` of them already in front of the text. -/
inductive Spells (read : List Char → Option (List Char × List Char)) (quote : Char)
    (limit : Nat) : (run : Nat) → (content text : List Char) → Prop
  | nil {run} (h : run ≤ limit) : Spells read quote limit run [] []
  | quote {run content text} (h : run < limit)
      (hrest : Spells read quote limit (run + 1) content text) :
      Spells read quote limit run (quote :: content) (quote :: text)
  | other {run content text} (c d : Char) (s : List Char) (hrun : run ≤ limit) (hd : d ≠ quote)
      (hbreak : d = '\n' ∨ d = '\r' → c = '\n')
      (hread : ∀ rest, read (d :: s ++ rest) = (read rest).map (consRead c))
      (hrest : Spells read quote limit 0 content text) :
      Spells read quote limit run (c :: content) (d :: s ++ text)

section

variable {read : List Char → Option (List Char × List Char)} {quote : Char} {limit run : Nat}
  {content text : List Char}

theorem Spells.read_line (hclose : ∀ rest, read (quote :: rest) = some ([], rest))
    (h : Spells read quote 0 run content text) (rest : List Char) :
    read (text ++ quote :: rest) = some (content, rest) := by
  induction h with
  | nil => exact hclose rest
  | quote h => exact absurd h (Nat.not_lt_zero _)
  | other c d s hrun hd hbreak hread hrest ih =>
      rw [List.append_assoc, hread, ih]
      rfl

theorem Spells.head (h : Spells read quote 0 run content text) (rest : List Char) :
    text ++ quote :: '\n' :: rest = quote :: '\n' :: rest ∨
      (text ++ quote :: '\n' :: rest).head? ≠ some quote := by
  cases h with
  | nil => exact Or.inl rfl
  | quote h => exact absurd h (Nat.not_lt_zero _)
  | other c d s hrun hd hbreak hread hrest =>
      right
      simpa using hd

/-- The quotes at the front of a text with its closing quotes: all there are, or no more than
the text may have in a row. -/
theorem Spells.quotes (h : Spells read quote 2 run content text)
    (rest : List Char) :
    (∃ j, content = List.replicate j quote ∧ text = List.replicate j quote ∧ j + run ≤ 2) ∨
      ((text ++ triple quote ++ '\n' :: rest).takeWhile (· == quote)).length + run ≤ 2 := by
  induction h with
  | nil h => exact Or.inl ⟨0, rfl, rfl, by omega⟩
  | quote h hrest ih =>
      rcases ih with ⟨j, hcontent, htext, hj⟩ | hle
      · left
        refine ⟨j + 1, ?_, ?_, by omega⟩
        · rw [hcontent, List.replicate_succ]
        · rw [htext, List.replicate_succ]
      · right
        rw [List.cons_append, List.cons_append, List.takeWhile_cons_of_pos (by simp),
          List.length_cons]
        omega
  | other c d s hrun hd hbreak hread hrest ih =>
      right
      rw [List.cons_append, List.cons_append, List.cons_append,
        List.takeWhile_cons_of_neg (by simpa using hd), List.length_nil]
      omega

theorem closing_eq_none {cs : List Char} (h : (cs.takeWhile (· == quote)).length < 3) :
    closing quote cs = none :=
  if_pos h

theorem closing_replicate (hquote : quote ≠ '\n') {j : Nat} (hj : j ≤ 2) (rest : List Char) :
    closing quote (List.replicate (j + 3) quote ++ '\n' :: rest) =
      some (List.replicate j quote, '\n' :: rest) := by
  have hrun : (List.replicate (j + 3) quote ++ '\n' :: rest).takeWhile (· == quote) =
      List.replicate (j + 3) quote := by
    rw [List.takeWhile_append_of_pos (by simp), List.takeWhile_cons_of_neg
      (by simpa using hquote.symm), List.append_nil]
  have hdrop : (List.replicate (j + 3) quote ++ '\n' :: rest).drop (j + 3) = '\n' :: rest :=
    List.drop_left' List.length_replicate
  have hcontent : min (j + 3 - 3) 2 = j := by omega
  have hlength : min (j + 3) 5 = j + 3 := by omega
  unfold closing
  rw [hrun, List.length_replicate]
  dsimp only
  rw [if_neg (by omega), hcontent, hlength, hdrop]

/-- On several lines the text is read up to three quotes in a row, and those before them
belong to the content. -/
theorem Spells.read_lines (hquote : quote ≠ '\n')
    (hclose : ∀ rest, read (quote :: rest) =
      match closing quote (quote :: rest) with
      | some r => some r
      | none => (read rest).map (consRead quote))
    (h : Spells read quote 2 run content text) (rest : List Char) :
    read (text ++ triple quote ++ '\n' :: rest) = some (content, '\n' :: rest) := by
  have hend {j : Nat} (hj : j ≤ 2) :
      read (List.replicate j quote ++ triple quote ++ '\n' :: rest) =
        some (List.replicate j quote, '\n' :: rest) := by
    have hall : List.replicate j quote ++ triple quote = List.replicate (j + 3) quote := by
      rw [← List.replicate_append_replicate]
      rfl
    have hcons : List.replicate (j + 3) quote ++ '\n' :: rest =
        quote :: (List.replicate (j + 2) quote ++ '\n' :: rest) := rfl
    rw [hall, hcons, hclose, ← hcons, closing_replicate hquote hj]
  induction h with
  | nil h => exact hend (Nat.zero_le 2)
  | quote h hrest ih =>
      -- Either only quotes are left, and all but the last three are content, or the run of
      -- quotes is too short to close the string.
      rcases (Spells.quote h hrest).quotes rest with ⟨j, hcontent, htext, hj⟩ | hle
      · rw [hcontent, htext]
        exact hend (by omega)
      · rw [List.cons_append, List.cons_append] at hle ⊢
        rw [hclose, closing_eq_none (by omega)]
        dsimp only
        rw [ih]
        rfl
  | other c d s hrun hd hbreak hread hrest ih =>
      rw [List.append_assoc, List.append_assoc, hread, ← List.append_assoc, ih]
      rfl

theorem Spells.dropFirstBreak_onLines (hquote : quote ≠ '\n') (hreturn : quote ≠ '\r')
    (h : Spells read quote limit run content text) (rest : List Char) :
    dropFirstBreak ((if content.contains '\n' then ['\n'] else []) ++ text ++ triple quote ++
      '\n' :: rest) = text ++ triple quote ++ '\n' :: rest := by
  have hkept {c : Char} (cs : List Char) (hc : c ≠ '\n' ∧ c ≠ '\r') :
      dropFirstBreak (c :: cs) = c :: cs := by
    have hnone : lineBreak (c :: cs) = none :=
      lineBreak.eq_3 _ (fun r heq => hc.1 (List.cons.inj heq).1)
        fun r heq => hc.2 (List.cons.inj heq).1
    rw [dropFirstBreak, hnone]
    rfl
  cases hcontent : content.contains '\n' with
  | true => rfl
  | false =>
      rw [if_neg Bool.false_ne_true, List.nil_append]
      cases h with
      | nil => exact hkept _ ⟨hquote, hreturn⟩
      | quote => exact hkept _ ⟨hquote, hreturn⟩
      | other c d s hrun hd hbreak =>
          apply hkept
          have hc : c ≠ '\n' := by
            intro h
            simp [h] at hcontent
          exact ⟨fun h => hc (hbreak (Or.inl h)), fun h => hc (hbreak (Or.inr h))⟩

end

/-! ## Readers -/

theorem basic_escape {cs r : List Char} {c : Char} (h : escape cs = some (c, r)) :
    basic ('\\' :: cs) = (basic r).map (consRead c) := by
  rw [basic]
  split
  next c' r' h' =>
    rw [h] at h'
    cases h'
    rfl
  next h' =>
    rw [h] at h'
    cases h'

theorem basic_plain {c : Char} (hquote : c ≠ '"') (hslash : c ≠ '\\') (hplain : isPlain c = true)
    (rest : List Char) : basic (c :: rest) = (basic rest).map (consRead c) := by
  rw [basic.eq_4 _ _ hquote hslash, if_pos hplain]

theorem basicLines_escape {cs r : List Char} {c : Char} (h : escape cs = some (c, r))
    (hnone : continuation cs = none) :
    basicLines ('\\' :: cs) = (basicLines r).map (consRead c) := by
  rw [basicLines]
  split
  next r' h' =>
    rw [hnone] at h'
    cases h'
  next h' =>
    split
    next c' r' h' =>
      rw [h] at h'
      cases h'
      rfl
    next h' =>
      rw [h] at h'
      cases h'

theorem ne_return_of_isPlain {c : Char} (h : isPlain c = true ∨ c = '\n') : c ≠ '\r' := by
  rintro rfl
  rcases h with h | h
  · exact absurd h (by decide)
  · exact absurd h (by decide)

theorem basicLines_plain {c : Char} (hquote : c ≠ '"') (hslash : c ≠ '\\')
    (hplain : isPlain c = true ∨ c = '\n') (rest : List Char) :
    basicLines (c :: rest) = (basicLines rest).map (consRead c) := by
  have hreturn := ne_return_of_isPlain hplain
  rw [basicLines.eq_5 _ _ hquote hslash (fun _ h => absurd h hreturn),
    if_pos (by simpa using hplain)]

theorem literal_plain {c : Char} (hquote : c ≠ '\x27') (hplain : isPlain c = true)
    (rest : List Char) : literal (c :: rest) = (literal rest).map (consRead c) := by
  rw [literal.eq_3 _ _ hquote, if_pos hplain]

theorem literalLines_plain {c : Char} (hquote : c ≠ '\x27') (hplain : isPlain c = true ∨ c = '\n')
    (rest : List Char) : literalLines (c :: rest) = (literalLines rest).map (consRead c) := by
  have hreturn := ne_return_of_isPlain hplain
  rw [literalLines.eq_4 _ _ hquote (fun _ h => absurd h hreturn), if_pos (by simpa using hplain)]

/-! ## Writers -/

/-- Of the quotes in a row the writer escapes those beyond the limit. -/
theorem spells_escapeAll {read : List Char → Option (List Char × List Char)} {multiline : Bool}
    {limit : Nat}
    (hescape : ∀ {cs r c}, escape cs = some (c, r) → continuation cs = none →
      read ('\\' :: cs) = (read r).map (consRead c))
    (hplain : ∀ {c}, c ≠ '"' → c ≠ '\\' → (isPlain c = true ∨ (multiline = true ∧ c = '\n')) →
      ∀ rest, read (c :: rest) = (read rest).map (consRead c))
    {run : Nat} (hrun : run ≤ limit) (cs : List Char) :
    Spells read '"' limit run cs (escapeAll multiline limit run cs) := by
  induction cs generalizing run with
  | nil => exact .nil hrun
  | cons c cs ih =>
      unfold escapeAll
      by_cases hc : c = '"'
      · rw [if_pos (by simp [hc]), hc]
        by_cases hlimit : run < limit
        · rw [if_pos hlimit]
          exact .quote hlimit (ih hlimit)
        · rw [if_neg hlimit]
          exact .other '"' '\\' ['"'] hrun (by decide) (by decide) (fun rest => hescape rfl rfl)
            (ih (Nat.zero_le _))
      · rw [if_neg (by simpa using hc)]
        rcases escaped_cases multiline c with ⟨s, htext, hs⟩ | ⟨htext, hslash, hc'⟩
        · rw [htext]
          exact .other c '\\' s hrun (by decide) (by simp)
            (fun rest => hescape (hs rest).1 (hs rest).2) (ih (Nat.zero_le _))
        · rw [htext]
          have hreturn : c ≠ '\r' := ne_return_of_isPlain (hc'.imp_right And.right)
          exact .other c c [] hrun hc (fun h => h.resolve_right hreturn) (hplain hc hslash hc')
            (ih (Nat.zero_le _))

theorem spells_basic (cs : List Char) : Spells basic '"' 0 0 cs (escapeAll false 0 0 cs) :=
  spells_escapeAll (fun h _ => basic_escape h)
    (fun hquote hslash hplain => basic_plain hquote hslash (by simpa using hplain)) le_rfl cs

theorem spells_basicLines (cs : List Char) :
    Spells basicLines '"' 2 0 cs (escapeAll true 2 0 cs) :=
  spells_escapeAll basicLines_escape
    (fun hquote hslash hplain => basicLines_plain hquote hslash (by simpa using hplain))
    (Nat.zero_le _) cs

/-- The state of a search for the longest run: the present run and the longest so far. -/
theorem le_of_longestRun {c : Char} {cs : List Char} {run best : Nat} :
    best ≤ (cs.foldl (fun (run, best) d =>
      if d == c then (run + 1, max best (run + 1)) else (0, best)) (run, best)).2 := by
  induction cs generalizing run best with
  | nil => exact le_rfl
  | cons d cs ih =>
      rw [List.foldl_cons]
      dsimp only
      split
      · exact (le_max_left ..).trans ih
      · exact ih

theorem spells_self {read : List Char → Option (List Char × List Char)} {quote : Char}
    {limit : Nat} {cs : List Char} (hplain : ∀ c ∈ cs, isPlain c = true ∨ c = '\n')
    (hread : ∀ c ∈ cs, c ≠ quote → ∀ rest, read (c :: rest) = (read rest).map (consRead c))
    {run best : Nat} (hrun : run ≤ limit)
    (h : (cs.foldl (fun (run, best) d =>
      if d == quote then (run + 1, max best (run + 1)) else (0, best)) (run, best)).2 ≤ limit) :
    Spells read quote limit run cs cs := by
  induction cs generalizing run best with
  | nil => exact .nil hrun
  | cons c cs ih =>
      have hreturn := ne_return_of_isPlain (hplain c (List.mem_cons_self ..))
      have hc := hread c (List.mem_cons_self ..)
      replace hplain := fun d hd => hplain d (List.mem_cons_of_mem c hd)
      replace hread := fun d hd => hread d (List.mem_cons_of_mem c hd)
      rw [List.foldl_cons] at h
      dsimp only at h
      by_cases heq : c = quote
      · rw [if_pos (by simpa using heq)] at h
        have hlt : run + 1 ≤ limit := (le_max_right ..).trans (le_of_longestRun.trans h)
        rw [heq]
        exact .quote hlt (ih hplain hread hlt h)
      · rw [if_neg (by simpa using heq)] at h
        exact .other c c [] hrun heq (fun h => h.resolve_right hreturn) (hc heq)
          (ih hplain hread (Nat.zero_le _) h)

theorem spells_literal {cs : List Char} (hplain : ∀ c ∈ cs, isPlain c = true)
    (hquote : longestRun '\x27' cs = 0) : Spells literal '\x27' 0 0 cs cs :=
  spells_self (fun c hc => Or.inl (hplain c hc))
    (fun c hc hne => literal_plain hne (hplain c hc)) le_rfl hquote.le

theorem spells_literalLines {cs : List Char} (hplain : ∀ c ∈ cs, isPlain c = true ∨ c = '\n')
    (hquote : longestRun '\x27' cs ≤ 2) : Spells literalLines '\x27' 2 0 cs cs :=
  spells_self hplain (fun c hc hne => literalLines_plain hne (hplain c hc)) (Nat.zero_le _) hquote

/-! ## Reading what was written -/

theorem quoted_basicForm (cs rest : List Char) :
    quoted (basicForm cs ++ '\n' :: rest) = some (cs, '\n' :: rest) := by
  have hspells := spells_basic cs
  have hread := hspells.read_line (fun _ => by rw [basic]) ('\n' :: rest)
  have hhead := hspells.head rest
  set body := escapeAll false 0 0 cs ++ '"' :: '\n' :: rest with hbody
  have htext : basicForm cs ++ '\n' :: rest = '"' :: body := by
    simp [basicForm, hbody]
  -- Three quotes in front would be those of several lines, but an empty string has only two.
  rw [htext, quoted.eq_2 _ ?_, hread]
  intro r heq
  rcases hhead with hhead | hhead
  · rw [hhead] at heq
    cases heq
  · rw [heq] at hhead
    exact hhead rfl

theorem quoted_literal {cs : List Char} (hplain : ∀ c ∈ cs, isPlain c = true)
    (hquote : longestRun '\x27' cs = 0) (rest : List Char) :
    quoted ('\x27' :: cs ++ ['\x27'] ++ '\n' :: rest) = some (cs, '\n' :: rest) := by
  have hspells := spells_literal hplain hquote
  have hread := hspells.read_line (fun _ => by rw [literal]) ('\n' :: rest)
  have hhead := hspells.head rest
  set body := cs ++ '\x27' :: '\n' :: rest with hbody
  have htext : '\x27' :: cs ++ ['\x27'] ++ '\n' :: rest = '\x27' :: body := by
    simp [hbody]
  rw [htext, quoted.eq_4 _ ?_, hread]
  intro r heq
  rcases hhead with hhead | hhead
  · rw [hhead] at heq
    cases heq
  · rw [heq] at hhead
    exact hhead rfl

theorem quoted_basicLinesForm (cs rest : List Char) :
    quoted (basicLinesForm cs ++ '\n' :: rest) = some (cs, '\n' :: rest) := by
  have hspells := spells_basicLines cs
  have hread := hspells.read_lines (by decide)
    (fun r => (basicLines.eq_2 r).trans (by cases closing '"' ('"' :: r) <;> rfl)) rest
  rw [← hread, ← hspells.dropFirstBreak_onLines (by decide) (by decide)]
  simp [basicLinesForm, onLines, triple, quoted]

theorem quoted_literalLines {cs : List Char} (hplain : ∀ c ∈ cs, isPlain c = true ∨ c = '\n')
    (hquote : longestRun '\x27' cs ≤ 2) (rest : List Char) :
    quoted (onLines '\x27' cs cs ++ '\n' :: rest) = some (cs, '\n' :: rest) := by
  have hspells := spells_literalLines hplain hquote
  have hread := hspells.read_lines (by decide)
    (fun r => (literalLines.eq_2 r).trans (by cases closing '\x27' ('\x27' :: r) <;> rfl)) rest
  rw [← hread, ← hspells.dropFirstBreak_onLines (by decide) (by decide)]
  simp [onLines, triple, quoted]

theorem quoted_quote (cs rest : List Char) :
    quoted (quote cs ++ '\n' :: rest) = some (cs, '\n' :: rest) := by
  have hplain (hcontrol : cs.any isControl = false) : ∀ c ∈ cs, isPlain c = true ∨ c = '\n' := by
    intro c hc
    have hcontrol := List.any_eq_false.1 hcontrol c hc
    by_cases hnewline : c = '\n'
    · exact Or.inr hnewline
    · left
      simpa [isControl, hnewline] using hcontrol
  unfold quote
  dsimp only
  split
  · exact quoted_basicForm cs rest
  split
  next h =>
    simp only [Bool.and_eq_true, Bool.not_eq_true', beq_iff_eq] at h
    refine quoted_literal (fun c hc => (hplain h.1.1 c hc).resolve_right ?_) h.2 rest
    rintro rfl
    simp [hc] at h
  split
  · exact quoted_basicLinesForm cs rest
  split
  next h =>
    simp only [Bool.and_eq_true, Bool.not_eq_true', decide_eq_true_eq] at h
    exact quoted_literalLines (hplain h.1) h.2 rest
  split
  · exact quoted_basicLinesForm cs rest
  · exact quoted_basicForm cs rest

end FleetSizing.Toml
