import FleetSizing.Proofs.Toml.Strings
import FleetSizing.Proofs.Toml.Unquoted
/-!
# Documents in TOML

A document of lines `key = value` and of headers `[[key]]` is read line by line, and its
statements build the tables that they name.
-/

namespace FleetSizing.Toml

open Text

structure IsBareKey (key : String) : Prop where
  ne_nil : key.toList ≠ []
  all : key.toList.all isKeyChar = true

instance (key : String) : Decidable (IsBareKey key) :=
  decidable_of_iff (key.toList ≠ [] ∧ key.toList.all isKeyChar = true)
    ⟨fun h => ⟨h.1, h.2⟩, fun h => ⟨h.1, h.2⟩⟩

theorem IsBareKey.isKeyChar {key : String} (h : IsBareKey key) :
    ∀ c ∈ key.toList, isKeyChar c = true :=
  List.all_eq_true.1 h.all

theorem ne_of_isKeyChar {c d : Char} (h : isKeyChar c = true) (hd : isKeyChar d = false) :
    c ≠ d := by
  rintro rfl
  rw [h] at hd
  cases hd

theorem isSpace_of_isKeyChar {c : Char} (h : isKeyChar c = true) : isSpace c = false := by
  have hspace : c ≠ ' ' := ne_of_isKeyChar h (by decide)
  have htab : c ≠ '\t' := ne_of_isKeyChar h (by decide)
  simp [isSpace, hspace, htab]

theorem IsBareKey.eq_cons {key : String} (h : IsBareKey key) :
    ∃ c cs, key.toList = c :: cs ∧ Toml.isKeyChar c = true := by
  cases hkey : key.toList with
  | nil => exact absurd hkey h.ne_nil
  | cons c cs => exact ⟨c, cs, rfl, h.isKeyChar c (hkey ▸ List.mem_cons_self ..)⟩

theorem IsBareKey.keyPart {key : String} (h : IsBareKey key) {c : Char}
    (hc : Toml.isKeyChar c = false) (cs : List Char) :
    keyPart (key.toList ++ c :: cs) = some (key, c :: cs) := by
  have htake : (key.toList ++ c :: cs).takeWhile Toml.isKeyChar = key.toList := by
    rw [List.takeWhile_append_of_pos h.isKeyChar, List.takeWhile_cons_of_neg (by simp [hc]),
      List.append_nil]
  have hdrop : (key.toList ++ c :: cs).dropWhile Toml.isKeyChar = c :: cs := by
    rw [List.dropWhile_append_of_pos h.isKeyChar, List.dropWhile_cons_of_neg (by simp [hc])]
  have hquote {d : Char} (hd : Toml.isKeyChar d = false) (r : List Char) :
      key.toList ++ c :: cs ≠ d :: r := by
    intro heq
    obtain ⟨e, es, hkey, he⟩ := h.eq_cons
    rw [hkey, List.cons_append] at heq
    exact ne_of_isKeyChar he hd (List.cons.inj heq).1
  rw [keyPart.eq_3 _ (hquote (by decide)) (hquote (by decide)), htake, hdrop, if_neg h.ne_nil,
    String.ofList_toList]

theorem IsBareKey.dottedKey {key : String} (h : IsBareKey key) {c d : Char} {cs r : List Char}
    (hc : Toml.isKeyChar c = false) (hnext : (c :: cs).dropWhile isSpace = d :: r)
    (hd : d ≠ '.') :
    dottedKey depthLimit (key.toList ++ c :: cs) = some (([], key), d :: r) := by
  have hstart : (key.toList ++ c :: cs).dropWhile isSpace = key.toList ++ c :: cs := by
    obtain ⟨e, es, hkey, he⟩ := h.eq_cons
    rw [hkey, List.cons_append, List.dropWhile_cons_of_neg (by simp [isSpace_of_isKeyChar he])]
  unfold depthLimit
  rw [Toml.dottedKey, hstart, h.keyPart hc]
  simp only [Option.bind_eq_bind, Option.bind_some, hnext]
  split
  next heq => exact absurd (List.cons.inj heq).1 hd
  next => rfl

/-- At the end of its line the text is read as the value. -/
structure Writes (text : List Char) (v : Toml) : Prop where
  start : ∃ c cs, text = c :: cs ∧ isSpace c = false
  read : ∀ rest, value depthLimit (text ++ '\n' :: rest) = some (v, '\n' :: rest)

theorem value_eq_scalar {c : Char} (harray : c ≠ '[') (htable : c ≠ '\x7b') (cs : List Char)
    (depth : Nat) : value depth (c :: cs) = scalar (c :: cs) := by
  cases depth with
  | zero => rfl
  | succ depth =>
      exact value.eq_4 _ _ (fun _ h => harray (List.cons.inj h).1)
        (fun _ h => htable (List.cons.inj h).1)

theorem quote_eq_cons (cs : List Char) :
    ∃ q r, quote cs = q :: r ∧ (q = '"' ∨ q = '\x27') := by
  unfold quote
  dsimp only
  split_ifs
  · exact ⟨_, _, rfl, Or.inl rfl⟩
  · exact ⟨_, _, rfl, Or.inr rfl⟩
  · exact ⟨_, _, rfl, Or.inl rfl⟩
  · exact ⟨_, _, rfl, Or.inr rfl⟩
  · exact ⟨_, _, rfl, Or.inl rfl⟩
  · exact ⟨_, _, rfl, Or.inl rfl⟩

theorem writes_quote (s : String) : Writes (quote s.toList) (.string s) := by
  have hread := quoted_quote s.toList
  obtain ⟨q, r, hquote, hq⟩ := quote_eq_cons s.toList
  rw [hquote] at hread ⊢
  have hscalar (rest : List Char) : scalar (q :: r ++ '\n' :: rest) =
      (quoted (q :: r ++ '\n' :: rest)).map
        fun read => (.string (String.ofList read.1), read.2) := by
    rcases hq with rfl | rfl <;> rfl
  constructor
  · refine ⟨q, r, rfl, ?_⟩
    rcases hq with rfl | rfl <;> rfl
  · intro rest
    have harray : q ≠ '[' := by
      rcases hq with rfl | rfl <;> decide
    have htable : q ≠ '\x7b' := by
      rcases hq with rfl | rfl <;> decide
    rw [List.cons_append, value_eq_scalar harray htable, ← List.cons_append, hscalar, hread]
    simp

theorem IsNumberText.writes {cs : List Char} (h : IsNumberText cs) {v : Toml}
    (hread : ∀ rest, bare (cs ++ '\n' :: rest) = some (v, '\n' :: rest)) : Writes cs v := by
  obtain ⟨c, r, hcons⟩ : ∃ c r, cs = c :: r := List.exists_cons_of_ne_nil h.ne_nil
  have hc {d : Char} (hd : d ≠ '-' ∧ isNumberChar d = false) : c ≠ d := by
    rintro rfl
    exact h.head_ne hd r hcons
  rw [hcons] at hread ⊢
  constructor
  · refine ⟨c, r, rfl, ?_⟩
    have hspace : c ≠ ' ' := hc (by decide)
    have htab : c ≠ '\t' := hc (by decide)
    simp [isSpace, hspace, htab]
  · intro rest
    have hscalar : scalar (c :: (r ++ '\n' :: rest)) = bare (c :: (r ++ '\n' :: rest)) :=
      scalar.eq_3 _ (fun _ h => hc (by decide) (List.cons.inj h).1)
        (fun _ h => hc (by decide) (List.cons.inj h).1)
    rw [List.cons_append, value_eq_scalar (hc (by decide)) (hc (by decide)), hscalar]
    exact hread rest

theorem writes_double (x : Float) : Writes (Decimal.write Config.inToml x) (.float x) :=
  (isNumberText_write x).writes (bare_write x)

theorem writes_digits {n : Nat} (hn : n < halfWord64) : Writes (digits n) (.integer n) :=
  (isNumberText_digits n).writes (bare_digits hn)

theorem writes_nil : Writes ['[', ']'] (.array []) :=
  ⟨⟨'[', [']'], rfl, rfl⟩, fun _ => rfl⟩

/-! ## Lines -/

theorem Writes.bindingLine {key : String} (hkey : IsBareKey key) {text : List Char} {v : Toml}
    (h : Writes text v) (rest : List Char) :
    bindingLine (Config.line key text ++ rest) = some (.binding ⟨[], key, v⟩, rest) := by
  have hline : Config.line key text ++ rest =
      key.toList ++ ' ' :: '=' :: ' ' :: (text ++ '\n' :: rest) := by
    simp [Config.line]
  have htrim : (' ' :: (text ++ '\n' :: rest)).dropWhile isSpace = text ++ '\n' :: rest := by
    obtain ⟨c, cs, htext, hc⟩ := h.start
    rw [List.dropWhile_cons_of_pos rfl, htext, List.cons_append,
      List.dropWhile_cons_of_neg (by simp [hc])]
  unfold Toml.bindingLine
  rw [hline, hkey.dottedKey (by decide) rfl (by decide)]
  simp [expect, htrim, h.read, lineEnd, isSpace, lineBreak]

theorem headerLine_repeated {key : String} (hkey : IsBareKey key) (rest : List Char) :
    headerLine true (key.toList ++ ']' :: ']' :: '\n' :: rest) =
      some (.header ⟨[], key, true⟩, rest) := by
  unfold headerLine
  rw [hkey.dottedKey (by decide) rfl (by decide)]
  simp [expect, lineEnd, isSpace, lineBreak]

/-- Text with enough fuel for each of its lines is read as the statements. -/
def HasStatements (cs : List Char) (list : List Statement) : Prop :=
  ∀ fuel, cs.length < fuel → statements fuel cs = some list

theorem hasStatements_nil : HasStatements [] [] := by
  intro fuel hfuel
  cases fuel with
  | zero => exact absurd hfuel (Nat.not_lt_zero _)
  | succ fuel => rfl

theorem HasStatements.binding {key : String} (hkey : IsBareKey key) {text : List Char} {v : Toml}
    (hvalue : Writes text v) {rest : List Char} {list : List Statement}
    (h : HasStatements rest list) :
    HasStatements (Config.line key text ++ rest) (.binding ⟨[], key, v⟩ :: list) := by
  have hread := hvalue.bindingLine hkey rest
  obtain ⟨c, cs, hcons, hc⟩ := hkey.eq_cons
  have hline : Config.line key text ++ rest =
      c :: (cs ++ ' ' :: '=' :: ' ' :: (text ++ '\n' :: rest)) := by
    simp [Config.line, hcons]
  rw [hline] at hread ⊢
  intro fuel hfuel
  cases fuel with
  | zero => exact absurd hfuel (Nat.not_lt_zero _)
  | succ fuel =>
      have hrest : statements fuel rest = some list := by
        apply h
        simp only [List.length_cons, List.length_append] at hfuel
        omega
      have hcomment : c ≠ '#' := ne_of_isKeyChar hc (by decide)
      have hnewline : c ≠ '\n' := ne_of_isKeyChar hc (by decide)
      have hreturn : c ≠ '\r' := ne_of_isKeyChar hc (by decide)
      have hbracket : c ≠ '[' := ne_of_isKeyChar hc (by decide)
      rw [statements, List.dropWhile_cons_of_neg (by simp [isSpace_of_isKeyChar hc])]
      simp [hcomment, hnewline, hreturn, hbracket, hread, hrest]

theorem HasStatements.header {key : String} (hkey : IsBareKey key) {rest : List Char}
    {list : List Statement} (h : HasStatements rest list) :
    HasStatements ('\n' :: '[' :: '[' :: (key.toList ++ ']' :: ']' :: '\n' :: rest))
      (.header ⟨[], key, true⟩ :: list) := by
  intro fuel hfuel
  simp only [List.length_cons, List.length_append] at hfuel
  -- The empty line takes one unit of fuel and the header another.
  obtain ⟨fuel, rfl⟩ : ∃ n, fuel = n + 2 := ⟨fuel - 2, by omega⟩
  have hrest : statements fuel rest = some list := h fuel (by omega)
  have hempty :
      statements (fuel + 2) ('\n' :: '[' :: '[' :: (key.toList ++ ']' :: ']' :: '\n' :: rest)) =
        statements (fuel + 1) ('[' :: '[' :: (key.toList ++ ']' :: ']' :: '\n' :: rest)) := rfl
  rw [hempty, statements, List.dropWhile_cons_of_neg (by decide)]
  simp [headerLine_repeated hkey, hrest]

/-! ## Tables -/

def keys (entries : Entries) : List String := entries.map Prod.fst

def bindings (entries : Entries) : List Binding := entries.map fun (key, v) => ⟨[], key, v⟩

section

variable {key : String} {before : Entries}

theorem lookup_append (h : key ∉ keys before) (entries : Entries) :
    lookup key (before ++ entries) = lookup key entries := by
  induction before with
  | nil => rfl
  | cons entry before ih =>
      simp only [keys, List.map_cons, List.mem_cons, not_or] at h
      rw [List.cons_append, lookup, if_neg (Ne.symm h.1)]
      exact ih h.2

theorem lookup_eq_none (h : key ∉ keys before) : lookup key before = none := by
  have happend := lookup_append h []
  rwa [List.append_nil] at happend

theorem replace_append (h : key ∉ keys before) (v : Toml) (entries : Entries) :
    replace key v (before ++ entries) = before ++ replace key v entries := by
  induction before with
  | nil => rfl
  | cons entry before ih =>
      simp only [keys, List.map_cons, List.mem_cons, not_or] at h
      rw [List.cons_append, replace, if_neg (Ne.symm h.1), ih h.2, List.cons_append]

end

theorem bindAll_bindings {before entries : Entries} (h : (keys (before ++ entries)).Nodup) :
    bindAll (bindings entries) before = some (before ++ entries) := by
  induction entries generalizing before with
  | nil => simp [bindings, bindAll]
  | cons entry entries ih =>
      have hnew : entry.1 ∉ keys before := by
        simp only [keys, List.map_append, List.map_cons] at h
        exact fun hmem => (List.nodup_append.1 h).2.2 _ hmem _ (List.mem_cons_self ..) rfl
      have hbind : bindAt [] entry.1 entry.2 before = some (before ++ [entry]) := by
        simp [bindAt, within, bind, lookup_eq_none hnew]
      have hrest : bindAll (bindings entries) (before ++ [entry]) =
          some (before ++ [entry] ++ entries) := ih (by simpa using h)
      rw [bindAll, bindings, List.map_cons, List.foldlM_cons, hbind]
      simpa [bindAll, bindings] using hrest

variable {key : String} {entries : Entries}

theorem addSection_first (hkey : key ∉ keys entries) {table : Entries}
    (htable : (keys table).Nodup) :
    addSection ⟨[], key, true⟩ (bindings table) entries =
      some (entries ++ [(key, .tables [table])]) := by
  have hbind : bindAll (bindings table) [] = some table := bindAll_bindings htable
  simp [addSection, within, lookup_eq_none hkey, hbind]

theorem addSection_next (hkey : key ∉ keys entries) {table : Entries}
    (htable : (keys table).Nodup) (tables : List Entries) :
    addSection ⟨[], key, true⟩ (bindings table) (entries ++ [(key, .tables tables)]) =
      some (entries ++ [(key, .tables (tables ++ [table]))]) := by
  have hbind : bindAll (bindings table) [] = some table := bindAll_bindings htable
  simp [addSection, within, lookup_append hkey, replace_append hkey, lookup, replace, hbind]

def repeated (key : String) : List Entries → Entries
  | [] => []
  | items => [(key, .tables items)]

theorem foldlM_addSection {tables : List Entries} (hkey : tables ≠ [] → key ∉ keys entries)
    (htables : ∀ table ∈ tables, (keys table).Nodup) :
    tables.foldlM (fun t table => addSection ⟨[], key, true⟩ (bindings table) t) entries =
      some (entries ++ repeated key tables) := by
  -- The first header adds the key, and each later one extends what is there.
  have hnext (hkey : key ∉ keys entries) (before : List Entries) {tables : List Entries}
      (htables : ∀ table ∈ tables, (keys table).Nodup) :
      tables.foldlM (fun t table => addSection ⟨[], key, true⟩ (bindings table) t)
        (entries ++ [(key, .tables before)]) =
          some (entries ++ [(key, .tables (before ++ tables))]) := by
    induction tables generalizing before with
    | nil => simp
    | cons table tables ih =>
        rw [List.foldlM_cons, addSection_next hkey (htables table (List.mem_cons_self ..))]
        simpa using ih (before ++ [table]) fun t ht => htables t (List.mem_cons_of_mem _ ht)
  cases tables with
  | nil => simp [repeated]
  | cons table tables =>
      have hkey := hkey (by simp)
      rw [List.foldlM_cons, addSection_first hkey (htables table (List.mem_cons_self ..))]
      exact hnext hkey [table] fun t ht => htables t (List.mem_cons_of_mem _ ht)

/-- The statements of a document: bindings, and then tables under one repeated header. -/
def listing (entries : Entries) (key : String) (tables : List Entries) : List Statement :=
  (bindings entries).map .binding ++
    tables.flatMap fun table => .header ⟨[], key, true⟩ :: (bindings table).map .binding

theorem sections_append (bs : List Binding) (list : List Statement) :
    sections (bs.map .binding ++ list) = (bs ++ (sections list).1, (sections list).2) := by
  induction bs with
  | nil => rfl
  | cons b bs ih =>
      rw [List.map_cons, List.cons_append, sections, ih]
      rfl

theorem sections_listing (entries : Entries) (key : String) (tables : List Entries) :
    sections (listing entries key tables) =
      (bindings entries, tables.map fun table => (⟨[], key, true⟩, bindings table)) := by
  have hgroups : sections (listing [] key tables) =
      ([], tables.map fun table => (⟨[], key, true⟩, bindings table)) := by
    induction tables with
    | nil => rfl
    | cons table tables ih =>
        have hcons : listing [] key (table :: tables) = .header ⟨[], key, true⟩ ::
            ((bindings table).map .binding ++ listing [] key tables) := by
          simp [listing, bindings]
        rw [hcons, sections, sections_append, ih]
        simp
  have happend : listing entries key tables =
      (bindings entries).map .binding ++ listing [] key tables := rfl
  rw [happend, sections_append, hgroups, List.append_nil]

/-- A document denotes what its lines list. -/
theorem ofStatements_listing (hentries : (keys entries).Nodup) {tables : List Entries}
    (hkey : tables ≠ [] → key ∉ keys entries) (htables : ∀ table ∈ tables, (keys table).Nodup) :
    ofStatements (listing entries key tables) = some (entries ++ repeated key tables) := by
  have hroot : bindAll (bindings entries) [] = some entries := bindAll_bindings hentries
  have hgroups := foldlM_addSection hkey htables
  unfold ofStatements
  rw [sections_listing]
  simpa [hroot, List.foldlM_map] using hgroups

end FleetSizing.Toml
