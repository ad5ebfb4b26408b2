import FleetSizing.SortedMap.Basic
/-!
# Reading sorted maps

Every operation on a sorted map is told by the bindings that `get?` shows, and a map
is told by its bindings.
-/

namespace FleetSizing

theorem find?_eq_of_nodup {α β : Type} [DecidableEq β] {key : α → β} {xs : List α}
    (h : (xs.map key).Nodup) {x : α} (hx : x ∈ xs) :
    xs.find? (fun y => key y = key x) = some x := by
  induction xs with
  | nil => cases hx
  | cons y ys ih =>
      obtain ⟨hy, hys⟩ := List.nodup_cons.1 h
      rcases List.mem_cons.1 hx with rfl | hmem
      · exact List.find?_cons_of_pos (by simp)
      · have hne : key y ≠ key x := fun heq => hy (heq ▸ List.mem_map_of_mem hmem)
        rw [List.find?_cons_of_neg (by simpa using hne)]
        exact ih hys hmem

namespace SortedMap

variable {α β γ : Type} [Ord α]

theorem find_eq_none_of_forall_lt {k : α} {entries : List (α × β)}
    (hk : ∀ a ∈ entries, compare k a.1 = .lt) : find k entries = none := by
  induction entries with
  | nil => rfl
  | cons entry rest ih =>
      have hentry := hk entry (List.mem_cons_self ..)
      simp only [find, hentry]
      exact ih fun a ha => hk a (List.mem_cons_of_mem _ ha)

theorem find_toList_map_append {k k' : α} {o : Option β} {entries : List (α × β)} :
    find k' (o.toList.map (k, ·) ++ entries) =
      if compare k' k = .eq then o.or (find k' entries) else find k' entries := by
  cases o with
  | none => simp
  | some v => simp [find]

variable [Std.TransOrd α] [Std.LawfulEqOrd α]

theorem find_update {k : α} {f : Option β → Option β} {entries : List (α × β)}
    (hentries : entries.Pairwise fun a b => compare a.1 b.1 = .lt) (k' : α) :
    find k' (update k f entries) =
      if compare k' k = .eq then f (find k entries) else find k' entries := by
  induction entries with
  | nil =>
      have h : find k' ((f none).toList.map (k, ·) ++ []) = _ := find_toList_map_append
      simpa [update, find] using h
  | cons entry rest ih =>
      obtain ⟨key, v⟩ := entry
      obtain ⟨hhead, hrest⟩ := List.pairwise_cons.1 hentries
      unfold update
      split
      next hlt =>
        have hnone : find k ((key, v) :: rest) = none := by
          refine find_eq_none_of_forall_lt ?_
          intro a ha
          rcases List.mem_cons.1 ha with rfl | ha
          · exact hlt
          · exact Std.TransCmp.lt_trans hlt (hhead a ha)
        rw [find_toList_map_append, hnone]
        split
        next heq =>
          rw [Std.compare_eq_iff_eq.1 heq, hnone, Option.or_none]
        next => rfl
      next heq =>
        obtain rfl := Std.compare_eq_iff_eq.1 heq
        have hnone : find k rest = none := find_eq_none_of_forall_lt hhead
        rw [find_toList_map_append]
        split
        next heq' =>
          obtain rfl := Std.compare_eq_iff_eq.1 heq'
          simp [find, hnone]
        next hne => simp [find, hne]
      next hgt =>
        simp only [find]
        split
        next heq =>
          obtain rfl := Std.compare_eq_iff_eq.1 heq
          have hne : compare k' k ≠ .eq := by
            intro h
            rw [Std.compare_eq_iff_eq.1 h] at hgt
            simp [Std.ReflCmp.compare_self] at hgt
          simp [hne]
        next => simp [ih hrest, hgt]

omit [Std.TransOrd α] [Std.LawfulEqOrd α] in
theorem find_map {f : β → γ} {k : α} {entries : List (α × β)} :
    find k (entries.map fun a => (a.1, f a.2)) = (find k entries).map f := by
  induction entries with
  | nil => rfl
  | cons entry rest ih =>
      simp only [List.map_cons, find]
      split
      next => rfl
      next => exact ih

omit [Std.TransOrd α] in
theorem find_eq_some_iff {k : α} {v : β} {entries : List (α × β)}
    (hentries : entries.Pairwise fun a b => compare a.1 b.1 = .lt) :
    find k entries = some v ↔ (k, v) ∈ entries := by
  induction entries with
  | nil => simp [find]
  | cons entry rest ih =>
      obtain ⟨key, w⟩ := entry
      obtain ⟨hhead, hrest⟩ := List.pairwise_cons.1 hentries
      simp only [find, List.mem_cons, Prod.mk.injEq]
      split
      next heq =>
        obtain rfl := Std.compare_eq_iff_eq.1 heq
        have hmem : (k, v) ∉ rest := by
          intro hmem
          have h := hhead _ hmem
          simp [Std.ReflCmp.compare_self] at h
        simp [hmem, eq_comm]
      next hne =>
        have hkey : k ≠ key := by
          rintro rfl
          exact hne Std.ReflCmp.compare_self
        simp [hkey, ih hrest]

/-! ## Maps -/

omit [Std.TransOrd α] in
theorem get?_eq_some_iff {m : SortedMap α β} {k : α} {v : β} :
    m.get? k = some v ↔ (k, v) ∈ m.toList :=
  find_eq_some_iff m.sorted

variable {m : SortedMap α β} {k k' : α}

variable [DecidableEq α]

theorem get?_alter {f : Option β → Option β} :
    (m.alter k f).get? k' = if k' = k then f (m.get? k) else m.get? k' := by
  change find k' (update k f m.toList) = _
  rw [find_update m.sorted]
  by_cases h : k' = k
  · rw [if_pos (Std.compare_eq_iff_eq.2 h), if_pos h]
    rfl
  · rw [if_neg fun heq => h (Std.compare_eq_iff_eq.1 heq), if_neg h]
    rfl

theorem get?_insert {v : β} :
    (m.insert k v).get? k' = if k' = k then some v else m.get? k' :=
  get?_alter

theorem get?_erase : (m.erase k).get? k' = if k' = k then none else m.get? k' :=
  get?_alter

theorem get?_upsert {v₀ : β} {f : β → β} :
    (m.upsert k v₀ f).get? k' =
      if k' = k then some (f ((m.get? k).getD v₀)) else m.get? k' :=
  get?_alter

omit [Std.TransOrd α] [Std.LawfulEqOrd α] [DecidableEq α] in
@[simp] theorem get?_map {f : β → γ} : (m.map f).get? k = (m.get? k).map f :=
  find_map

omit [Std.TransOrd α] [DecidableEq α] in
@[simp] theorem get?_filter {p : α → β → Bool} :
    (m.filter p).get? k = (m.get? k).filter (p k) := by
  refine Option.ext fun v => ?_
  rw [get?_eq_some_iff, Option.filter_eq_some_iff, get?_eq_some_iff]
  simp [filter]

omit [Std.TransOrd α] [DecidableEq α] in
theorem mem_keys_iff : k ∈ m.keys ↔ (m.get? k).isSome := by
  simp only [keys, List.mem_map, Option.isSome_iff_exists, get?_eq_some_iff]
  constructor
  · rintro ⟨⟨_, v⟩, hmem, rfl⟩
    exact ⟨v, hmem⟩
  · rintro ⟨v, hmem⟩
    exact ⟨(k, v), hmem, rfl⟩

theorem mem_keys_upsert_iff {v₀ : β} {f : β → β} :
    k' ∈ (m.upsert k v₀ f).keys ↔ k' = k ∨ k' ∈ m.keys := by
  rw [mem_keys_iff, get?_upsert, mem_keys_iff]
  by_cases h : k' = k <;> simp [h]

omit [Std.TransOrd α] [Std.LawfulEqOrd α] [DecidableEq α] in
theorem keys_map (f : β → γ) (m : SortedMap α β) : (m.map f).keys = m.keys := by
  unfold keys map
  rw [List.map_map]
  rfl

omit [Std.TransOrd α] [Std.LawfulEqOrd α] [DecidableEq α] in
theorem pairwise_keys (m : SortedMap α β) :
    m.keys.Pairwise fun a b => compare a b = .lt :=
  m.sorted.map _ fun _ _ h => h

omit [Std.TransOrd α] [DecidableEq α] in
theorem nodup_keys (m : SortedMap α β) : m.keys.Nodup := by
  refine m.pairwise_keys.imp fun {a b} hlt heq => ?_
  have hself : compare b b = .eq := Std.ReflCmp.compare_self
  rw [heq, hself] at hlt
  cases hlt

omit [Std.TransOrd α] in
theorem find?_toList (m : SortedMap α β) (k : α) :
    m.toList.find? (·.1 = k) = (m.get? k).map (k, ·) := by
  cases h : m.get? k with
  | none =>
      rw [Option.map_none, List.find?_eq_none]
      rintro ⟨k', v⟩ hmem heq
      obtain rfl := of_decide_eq_true heq
      rw [get?_eq_some_iff.2 hmem] at h
      cases h
  | some v => exact find?_eq_of_nodup m.nodup_keys (get?_eq_some_iff.1 h)

omit [Std.TransOrd α] [DecidableEq α] in
theorem keys_eq_singleton (h : ∀ k', k' ∈ m.keys ↔ k' = k) : m.keys = [k] := by
  rw [← List.perm_singleton, List.perm_ext_iff_of_nodup m.nodup_keys (by simp)]
  intro k'
  rw [h, List.mem_singleton]

omit [Std.LawfulEqOrd α] [DecidableEq α] in
private theorem eq_of_pairwise_of_mem_iff {xs ys : List (α × β)}
    (hxs : xs.Pairwise fun a b => compare a.1 b.1 = .lt)
    (hys : ys.Pairwise fun a b => compare a.1 b.1 = .lt)
    (h : ∀ a, a ∈ xs ↔ a ∈ ys) : xs = ys := by
  induction xs generalizing ys with
  | nil =>
      cases ys with
      | nil => rfl
      | cons y ys => simpa using h y
  | cons x xs ih =>
      cases ys with
      | nil => simpa using h x
      | cons y ys =>
          obtain ⟨hx, hxs'⟩ := List.pairwise_cons.1 hxs
          obtain ⟨hy, hys'⟩ := List.pairwise_cons.1 hys
          have irrefl (a : α × β) : compare a.1 a.1 ≠ .lt := by
            simp [Std.ReflCmp.compare_self]
          have hxy : x = y := by
            rcases List.mem_cons.1 ((h x).1 (List.mem_cons_self ..)) with hxy | hmem
            · exact hxy
            · rcases List.mem_cons.1 ((h y).2 (List.mem_cons_self ..)) with hyx | hmem'
              · exact hyx.symm
              · exact absurd (Std.TransCmp.lt_trans (hy x hmem) (hx y hmem')) (irrefl y)
          subst hxy
          refine congrArg (x :: ·) (ih hxs' hys' fun a => ?_)
          constructor
          · intro ha
            rcases List.mem_cons.1 ((h a).1 (List.mem_cons_of_mem _ ha)) with rfl | ha'
            · exact absurd (hx a ha) (irrefl a)
            · exact ha'
          · intro ha
            rcases List.mem_cons.1 ((h a).2 (List.mem_cons_of_mem _ ha)) with rfl | ha'
            · exact absurd (hy a ha) (irrefl a)
            · exact ha'

omit [DecidableEq α] in
theorem ext_get? {m₁ m₂ : SortedMap α β} (h : ∀ k, m₁.get? k = m₂.get? k) : m₁ = m₂ := by
  have hmem (a : α × β) : a ∈ m₁.toList ↔ a ∈ m₂.toList := by
    rw [← get?_eq_some_iff, ← get?_eq_some_iff, h]
  have hlist := eq_of_pairwise_of_mem_iff m₁.sorted m₂.sorted hmem
  cases m₁
  cases m₂
  exact (SortedMap.mk.injEq ..).mpr hlist

end SortedMap

end FleetSizing
