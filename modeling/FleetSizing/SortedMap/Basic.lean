/-!
# Maps sorted by key

A finite map kept as the list of its entries in strictly increasing key order.
Two maps with the same bindings are equal, and walking a map visits its keys in
order, which is the order every report lists them in.
-/

namespace FleetSizing

/-- A finite map from `α` to `β`, its entries in strictly increasing key order. -/
structure SortedMap (α : Type) (β : Type) [Ord α] where
  toList : List (α × β)
  sorted : toList.Pairwise fun a b => compare a.1 b.1 = .lt

namespace SortedMap

variable {α β γ : Type} [Ord α]

def find (k : α) : List (α × β) → Option β
  | [] => none
  | (k', v) :: rest => if compare k k' = .eq then some v else find k rest

/-- Replaces the binding of `k`, absent or present, by what `f` makes of it. -/
def update (k : α) (f : Option β → Option β) : List (α × β) → List (α × β)
  | [] => (f none).toList.map (k, ·)
  | (k', v) :: rest =>
    match compare k k' with
    | .lt => (f none).toList.map (k, ·) ++ (k', v) :: rest
    | .eq => (f (some v)).toList.map (k, ·) ++ rest
    | .gt => (k', v) :: update k f rest

theorem fst_eq_or_mem_of_mem_update {k : α} {f : Option β → Option β}
    {entries : List (α × β)} {a : α × β} (ha : a ∈ update k f entries) :
    a.1 = k ∨ a ∈ entries := by
  induction entries with
  | nil =>
      simp only [update, List.mem_map] at ha
      obtain ⟨v, _, rfl⟩ := ha
      exact Or.inl rfl
  | cons entry rest ih =>
      obtain ⟨k', v⟩ := entry
      unfold update at ha
      split at ha
      · rcases List.mem_append.1 ha with ha | ha
        · obtain ⟨v, _, rfl⟩ := List.mem_map.1 ha
          exact Or.inl rfl
        · exact Or.inr ha
      · rcases List.mem_append.1 ha with ha | ha
        · obtain ⟨v, _, rfl⟩ := List.mem_map.1 ha
          exact Or.inl rfl
        · exact Or.inr (List.mem_cons_of_mem _ ha)
      · rcases List.mem_cons.1 ha with rfl | ha
        · exact Or.inr (List.mem_cons_self ..)
        · exact (ih ha).imp_right (List.mem_cons_of_mem _)

private theorem pairwise_toList_map_append {k : α} {o : Option β}
    {entries : List (α × β)}
    (hk : ∀ a ∈ entries, compare k a.1 = .lt)
    (hentries : entries.Pairwise fun a b => compare a.1 b.1 = .lt) :
    (o.toList.map (k, ·) ++ entries).Pairwise
      fun a b => compare a.1 b.1 = .lt := by
  cases o with
  | none => simpa using hentries
  | some v => simpa using ⟨fun a b hab => hk (a, b) hab, hentries⟩

theorem pairwise_update [Std.TransOrd α] [Std.LawfulEqOrd α] {k : α}
    {f : Option β → Option β} {entries : List (α × β)}
    (hentries : entries.Pairwise fun a b => compare a.1 b.1 = .lt) :
    (update k f entries).Pairwise fun a b => compare a.1 b.1 = .lt := by
  induction entries with
  | nil =>
      have hk : ∀ a ∈ ([] : List (α × β)), compare k a.1 = .lt := by simp
      have h := pairwise_toList_map_append (o := f none) hk List.Pairwise.nil
      simpa [update] using h
  | cons entry rest ih =>
      obtain ⟨k', v⟩ := entry
      obtain ⟨hhead, hrest⟩ := List.pairwise_cons.1 hentries
      unfold update
      split
      next hlt =>
        refine pairwise_toList_map_append ?_ hentries
        intro a ha
        rcases List.mem_cons.1 ha with rfl | ha
        · exact hlt
        · exact Std.TransCmp.lt_trans hlt (hhead a ha)
      next heq =>
        refine pairwise_toList_map_append ?_ hrest
        intro a ha
        rw [Std.compare_eq_iff_eq.1 heq]
        exact hhead a ha
      next hgt =>
        refine List.pairwise_cons.2 ⟨?_, ih hrest⟩
        intro a ha
        rcases fst_eq_or_mem_of_mem_update ha with hk | ha
        · rw [hk]
          exact Std.OrientedCmp.gt_iff_lt.1 hgt
        · exact hhead a ha

/-! ## Maps -/

def empty : SortedMap α β := ⟨[], List.Pairwise.nil⟩

instance : EmptyCollection (SortedMap α β) := ⟨empty⟩

instance : Inhabited (SortedMap α β) := ⟨empty⟩

def get? (m : SortedMap α β) (k : α) : Option β := find k m.toList

/-- Changes the binding of `k` to what `f` makes of the present one. -/
def alter [Std.TransOrd α] [Std.LawfulEqOrd α] (m : SortedMap α β) (k : α)
    (f : Option β → Option β) : SortedMap α β :=
  ⟨update k f m.toList, pairwise_update m.sorted⟩

def insert [Std.TransOrd α] [Std.LawfulEqOrd α] (m : SortedMap α β) (k : α) (v : β) :
    SortedMap α β :=
  m.alter k fun _ => some v

def erase [Std.TransOrd α] [Std.LawfulEqOrd α] (m : SortedMap α β) (k : α) :
    SortedMap α β :=
  m.alter k fun _ => none

/-- Changes the value of `k` by `f`, taking `v₀` for an absent one. -/
def upsert [Std.TransOrd α] [Std.LawfulEqOrd α] (m : SortedMap α β) (k : α) (v₀ : β)
    (f : β → β) : SortedMap α β :=
  m.alter k fun v => some (f (v.getD v₀))

def filter (m : SortedMap α β) (p : α → β → Bool) : SortedMap α β :=
  ⟨m.toList.filter fun a => p a.1 a.2, m.sorted.filter _⟩

def map (f : β → γ) (m : SortedMap α β) : SortedMap α γ :=
  ⟨m.toList.map fun a => (a.1, f a.2), m.sorted.map _ fun _ _ h => h⟩

def keys (m : SortedMap α β) : List α := m.toList.map (·.1)

def values (m : SortedMap α β) : List β := m.toList.map (·.2)

def size (m : SortedMap α β) : Nat := m.toList.length

end SortedMap

end FleetSizing
