import FleetSizing.Json.Record
import Mathlib.Data.List.Forall2
import Mathlib.Data.List.Nodup
/-!
# Records in JSON

What a reader of records cannot tell apart: objects whose fields stand in another order, or
among fields that the reader does not know.
-/

namespace FleetSizing.Json

variable {α : Type} {known order : List String} {same : String → Json → Json → Prop}
  {fs gs : List (String × Json)} {tag name : String} {v w : Json}

theorem lookup_cons (fs : List (String × Json)) (f : String × Json) :
    lookup name (f :: fs) = (lookup name fs).or (if f.1 = name then some f.2 else none) := by
  obtain ⟨k, v⟩ := f
  rw [lookup]
  cases lookup name fs <;> rfl

theorem mem_of_lookup (h : lookup name fs = some v) : (name, v) ∈ fs := by
  induction fs with
  | nil => cases h
  | cons f fs ih =>
      rw [lookup_cons, Option.or_eq_some_iff] at h
      obtain h | ⟨-, h⟩ := h
      · exact List.mem_cons_of_mem _ (ih h)
      · obtain ⟨k, w⟩ := f
        obtain ⟨rfl, rfl⟩ : k = name ∧ w = v := by simpa using h
        exact List.mem_cons_self ..

theorem lookup_eq_some_iff (hnodup : (fs.map (·.1)).Nodup) :
    lookup name fs = some v ↔ (name, v) ∈ fs := by
  refine ⟨mem_of_lookup, fun h => ?_⟩
  induction fs generalizing v with
  | nil => cases h
  | cons f fs ih =>
      obtain ⟨hfirst, hrest⟩ := List.nodup_cons.1 hnodup
      rw [lookup_cons, Option.or_eq_some_iff]
      obtain rfl | h := List.mem_cons.1 h
      · have hnone : lookup name fs = none := by
          rw [Option.eq_none_iff_forall_ne_some]
          exact fun w hw => hfirst (List.mem_map.2 ⟨_, mem_of_lookup hw, rfl⟩)
        exact Or.inr ⟨hnone, if_pos rfl⟩
      · exact Or.inl (ih hrest h)

theorem lookup_perm (hnodup : (fs.map (·.1)).Nodup) (h : fs.Perm gs) :
    lookup name fs = lookup name gs := by
  have hnodup' : (gs.map (·.1)).Nodup := (h.map _).nodup_iff.1 hnodup
  ext v
  rw [lookup_eq_some_iff hnodup, lookup_eq_some_iff hnodup', h.mem_iff]

theorem lookup_filter (hname : name ∈ known) (fs : List (String × Json)) :
    lookup name (fs.filter (·.1 ∈ known)) = lookup name fs := by
  induction fs with
  | nil => rfl
  | cons f fs ih =>
      rw [lookup_cons]
      by_cases hf : f.1 ∈ known
      · rw [List.filter_cons_of_pos (by simpa using hf), lookup_cons, ih]
      · have hne : f.1 ≠ name := fun heq => hf (heq ▸ hname)
        rw [List.filter_cons_of_neg (by simpa using hf), ih, if_neg hne, Option.or_none]

/-- The known fields of two objects are the same, but for their order and as far as `same` tells
their values apart.  No known name occurs twice; other fields stand anywhere. -/
def SameFields (known : List String) (same : String → Json → Json → Prop)
    (fs gs : List (String × Json)) : Prop :=
  ((fs.filter (·.1 ∈ known)).map (·.1)).Nodup ∧
    ∃ hs, (fs.filter (·.1 ∈ known)).Perm hs ∧
      List.Forall₂ (fun h g => h.1 = g.1 ∧ same h.1 h.2 g.2) hs (gs.filter (·.1 ∈ known))

/-- Objects whose known fields stand in opposite orders. -/
theorem SameFields.of_reverse (hnodup : ((fs.filter (·.1 ∈ known)).map (·.1)).Nodup)
    (h : List.Forall₂ (fun h g => h.1 = g.1 ∧ same h.1 h.2 g.2)
      (fs.filter (·.1 ∈ known)).reverse (gs.filter (·.1 ∈ known))) :
    SameFields known same fs gs :=
  ⟨hnodup, _, (List.reverse_perm _).symm, h⟩

theorem SameFields.lookup (h : SameFields known same fs gs) (hname : name ∈ known) :
    Option.Rel (same name) (lookup name fs) (lookup name gs) := by
  obtain ⟨hnodup, hs, hperm, hsame⟩ := h
  rw [← lookup_filter hname fs, ← lookup_filter hname gs, lookup_perm hnodup hperm]
  generalize gs.filter (·.1 ∈ known) = gs' at hsame
  clear hperm
  induction hsame with
  | nil => exact .none
  | @cons f g hs gs' hfg _ ih =>
      rw [lookup_cons, lookup_cons, ← hfg.1]
      generalize Json.lookup name hs = x, Json.lookup name gs' = y at ih
      cases ih with
      | some hvw => exact .some hvw
      | none =>
          by_cases hf : f.1 = name
          · simp only [if_pos hf, Option.none_or]
            exact .some (hf ▸ hfg.2)
          · simp only [if_neg hf, Option.none_or]
            exact .none

/-! ## Records -/

/-- Records that a reader of the fields in `order` cannot tell apart. -/
inductive SameRecord (order : List String) (same : String → Json → Json → Prop) :
    Json → Json → Prop where
  | refl (v : Json) : SameRecord order same v v
  | object {fs gs : List (String × Json)} (h : SameFields order same fs gs) :
      SameRecord order same (.object fs) (.object gs)
  | array {vs ws : List Json} (hlength : vs.length = ws.length)
      (h : ∀ name ∈ order, Option.Rel (same name) vs[order.idxOf name]? ws[order.idxOf name]?) :
      SameRecord order same (.array vs) (.array ws)

def variantNames (tag : String) (variants : String → Option (List String))
    (fs : List (String × Json)) : List String :=
  tag :: (((lookup tag fs).bind string?).bind variants).getD []

/-- Tagged records that a reader cannot tell apart. -/
inductive SameVariant (tag : String) (variants : String → Option (List String)) :
    Json → Json → Prop where
  | refl (v : Json) : SameVariant tag variants v v
  | object {fs gs : List (String × Json)}
      (h : SameFields (variantNames tag variants fs) (fun _ => Eq) fs gs) :
      SameVariant tag variants (.object fs) (.object gs)

/-- Lists that differ by what their items do not tell. -/
inductive SameItems (same : Json → Json → Prop) : Json → Json → Prop where
  | refl (v : Json) : SameItems same v v
  | array {vs ws : List Json} (h : List.Forall₂ same vs ws) :
      SameItems same (.array vs) (.array ws)

theorem optionRel_refl {r : α → α → Prop} (hr : ∀ a, r a a) (x : Option α) : Option.Rel r x x := by
  cases x with
  | none => exact .none
  | some a => exact .some (hr a)

theorem optionRel_eq {x y : Option α} (h : Option.Rel Eq x y) : x = y := by
  cases h with
  | none => rfl
  | some h => exact congrArg some h

theorem SameRecord.fields (h : SameRecord order same v w) (hrefl : ∀ name v, same name v v) :
    Option.Rel (fun F G => ∀ name ∈ order, Option.Rel (same name) (F name) (G name))
      (record? order v) (record? order w) := by
  cases h with
  | refl => exact optionRel_refl (fun F name _ => optionRel_refl (hrefl name) (F name)) _
  | object h => exact .some fun name hname => h.lookup hname
  | @array vs ws hlength h =>
      simp only [record?, Fields.ofList?, hlength]
      by_cases hplaces : ws.length = order.length
      · rw [if_pos hplaces, if_pos hplaces]
        exact .some h
      · rw [if_neg hplaces, if_neg hplaces]
        exact .none

theorem exists_order_of_variant? {variants : String → Option (List String)} {p : String × Fields}
    (h : variant? tag variants v = some p) : ∃ names, variants p.1 = some names := by
  unfold variant? at h
  split at h
  next =>
    obtain ⟨w, -, h⟩ := Option.bind_eq_some_iff.1 h
    obtain ⟨name, -, h⟩ := Option.bind_eq_some_iff.1 h
    obtain ⟨names, hnames, h⟩ := Option.bind_eq_some_iff.1 h
    obtain rfl := Option.some.inj h
    exact ⟨names, hnames⟩
  next =>
    obtain ⟨name, -, h⟩ := Option.bind_eq_some_iff.1 h
    obtain ⟨names, hnames, h⟩ := Option.bind_eq_some_iff.1 h
    obtain ⟨F, -, h⟩ := Option.bind_eq_some_iff.1 h
    obtain rfl := Option.some.inj h
    exact ⟨names, hnames⟩
  next => cases h

theorem SameVariant.fields {variants : String → Option (List String)}
    (h : SameVariant tag variants v w) :
    Option.Rel (fun p q => p.1 = q.1 ∧
        ∃ names, variants p.1 = some names ∧ ∀ name ∈ names, p.2 name = q.2 name)
      (variant? tag variants v) (variant? tag variants w) := by
  cases h with
  | refl =>
      cases hv : variant? tag variants v with
      | none => exact .none
      | some p =>
          obtain ⟨names, hnames⟩ := exists_order_of_variant? hv
          exact .some ⟨rfl, names, hnames, fun _ _ => rfl⟩
  | @object fs gs h =>
      have htag := optionRel_eq (h.lookup (List.mem_cons_self ..))
      simp only [variant?, ← htag, Option.bind_eq_bind]
      cases hvalue : lookup tag fs with
      | none => exact .none
      | some v =>
          cases hname : string? v with
          | none => simp [hname]
          | some name =>
              cases hnames : variants name with
              | none => simp [hname, hnames]
              | some names =>
                  have hknown (field : String) (hfield : field ∈ names) :
                      lookup field fs = lookup field gs := by
                    apply optionRel_eq (h.lookup _)
                    simp [variantNames, hvalue, hname, hnames, hfield]
                  simp only [Option.bind_some, hname, hnames]
                  exact .some ⟨rfl, names, hnames, hknown⟩

/-- Records that cannot be told apart are read alike, if their fields are. -/
theorem SameRecord.bind_eq {read : Fields → Option α} (h : SameRecord order same v w)
    (hrefl : ∀ name v, same name v v)
    (hread : ∀ F G : Fields, (∀ name ∈ order, Option.Rel (same name) (F name) (G name)) →
      read F = read G) :
    record? order v >>= read = record? order w >>= read := by
  have hfields := h.fields hrefl
  generalize record? order v = x, record? order w = y at hfields
  cases hfields with
  | none => rfl
  | some hFG => exact hread _ _ hFG

theorem SameVariant.bind_eq {variants : String → Option (List String)}
    {read : String × Fields → Option α} (h : SameVariant tag variants v w)
    (hread : ∀ variant names (F G : Fields), variants variant = some names →
      (∀ name ∈ names, F name = G name) → read (variant, F) = read (variant, G)) :
    variant? tag variants v >>= read = variant? tag variants w >>= read := by
  have hfields := h.fields
  generalize variant? tag variants v = x, variant? tag variants w = y at hfields
  cases hfields with
  | none => rfl
  | @some p q hpq =>
      obtain ⟨name, F⟩ := p
      obtain ⟨name', G⟩ := q
      obtain ⟨rfl, names, hnames, hFG⟩ := hpq
      exact hread name names F G hnames hFG

theorem read_congr {F G : Fields} {decode : Json → Option α}
    (h : Option.Rel (same name) (F name) (G name))
    (hdecode : ∀ v w, same name v w → decode v = decode w) :
    F.read name decode = G.read name decode := by
  unfold Fields.read
  generalize F name = x, G name = y at h
  cases h with
  | none => rfl
  | some h => exact hdecode _ _ h

theorem read_congr_eq {F G : Fields} (h : Option.Rel Eq (F name) (G name))
    (decode : Json → Option α) : F.read name decode = G.read name decode := by
  rw [Fields.read, Fields.read, optionRel_eq h]

theorem listOf?_congr {same : Json → Json → Prop} {decode : Json → Option α}
    (h : SameItems same v w) (hdecode : ∀ v w, same v w → decode v = decode w) :
    listOf? decode v = listOf? decode w := by
  cases h with
  | refl => rfl
  | array h =>
      change List.mapM decode _ = List.mapM decode _
      induction h with
      | nil => rfl
      | cons hvw _ ih => rw [List.mapM_cons, List.mapM_cons, hdecode _ _ hvw, ih]

theorem listOf?_map {decode : Json → Option α} {encode : α → Json} {xs : List α}
    (h : ∀ x ∈ xs, decode (encode x) = some x) :
    listOf? decode (.array (xs.map encode)) = some xs := by
  change List.mapM decode _ = _
  induction xs with
  | nil => rfl
  | cons x xs ih =>
      obtain ⟨hx, hxs⟩ := List.forall_mem_cons.1 h
      rw [List.map_cons, List.mapM_cons, hx, ih hxs]
      rfl

theorem read_eq {F : Fields} {decode : Json → Option α} (hF : F name = some v) :
    F.read name decode = decode v := by
  rw [Fields.read, hF, Option.bind_some]

theorem read_string {F : Fields} {s : String} (hF : F name = some (.string s)) :
    F.read name string? = some s := read_eq hF

theorem read_ofNat {F : Fields} {n bound : Nat} (hF : F name = some (ofNat n)) (h : n < bound) :
    F.read name (natBelow? bound) = some n := by
  have hbound : (0 : Int) ≤ n ∧ (n : Int) < bound := by omega
  rw [read_eq hF]
  simp [natBelow?, ofNat, hbound]

theorem read_ofFloat {F : Fields} {x : Float} (hF : F name = some (ofFloat x))
    (h : x.isFinite = true) : F.read name double? = some x := by
  rw [read_eq hF, ofFloat, if_pos h]
  rfl

theorem read_list {F : Fields} {decode : Json → Option α} {encode : α → Json} {xs : List α}
    (hF : F name = some (.array (xs.map encode)))
    (h : ∀ x ∈ xs, decode (encode x) = some x) : F.read name (listOf? decode) = some xs :=
  (read_eq hF).trans (listOf?_map h)

end FleetSizing.Json
