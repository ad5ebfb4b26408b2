/-!
# Sums over lists

The sum of a natural number that each element of a list has.
-/

namespace FleetSizing

def sumOf (f : α → Nat) (xs : List α) : Nat := xs.foldr (fun x n => f x + n) 0

variable {α β : Type} {f g : α → Nat}

@[simp] theorem sumOf_nil : sumOf f [] = 0 := by simp [sumOf]

@[simp] theorem sumOf_cons (x : α) (xs : List α) :
    sumOf f (x :: xs) = f x + sumOf f xs := rfl

@[simp] theorem sumOf_append (xs ys : List α) :
    sumOf f (xs ++ ys) = sumOf f xs + sumOf f ys := by
  induction xs with
  | nil => simp
  | cons x xs ih => simp [ih, Nat.add_assoc]

@[simp] theorem sumOf_map (h : β → α) (xs : List β) :
    sumOf f (xs.map h) = sumOf (fun x => f (h x)) xs := by
  induction xs with
  | nil => rfl
  | cons x xs ih => simp [ih]

theorem sumOf_add (xs : List α) :
    sumOf (fun x => f x + g x) xs = sumOf f xs + sumOf g xs := by
  induction xs with
  | nil => rfl
  | cons x xs ih =>
      simp only [sumOf_cons, ih]
      omega

theorem sumOf_perm {xs ys : List α} (h : xs.Perm ys) : sumOf f xs = sumOf f ys := by
  induction h with
  | nil => rfl
  | cons x h ih => rw [sumOf_cons, sumOf_cons, ih]
  | swap x y xs =>
      simp only [sumOf_cons]
      omega
  | trans h₁ h₂ ih₁ ih₂ => exact ih₁.trans ih₂

theorem sumOf_eq_zero {xs : List α} (h : ∀ x ∈ xs, f x = 0) : sumOf f xs = 0 := by
  induction xs with
  | nil => rfl
  | cons x xs ih =>
      rw [sumOf_cons, h x (List.mem_cons_self ..), ih fun y hy => h y (List.mem_cons_of_mem _ hy)]

theorem sumOf_congr {xs : List α} (h : ∀ x ∈ xs, f x = g x) :
    sumOf f xs = sumOf g xs := by
  induction xs with
  | nil => rfl
  | cons x xs ih =>
      have hx := h x (List.mem_cons_self ..)
      have hxs := ih fun y hy => h y (List.mem_cons_of_mem _ hy)
      rw [sumOf_cons, sumOf_cons, hx, hxs]

theorem sumOf_filter {p : α → Bool} {xs : List α} (h : ∀ x ∈ xs, p x = false → f x = 0) :
    sumOf f (xs.filter p) = sumOf f xs := by
  induction xs with
  | nil => rfl
  | cons x xs ih =>
      have hxs := ih fun y hy => h y (List.mem_cons_of_mem _ hy)
      cases hp : p x with
      | false =>
          rw [List.filter_cons_of_neg (by simp [hp]), hxs, sumOf_cons,
            h x (List.mem_cons_self ..) hp, Nat.zero_add]
      | true => rw [List.filter_cons_of_pos hp, sumOf_cons, sumOf_cons, hxs]

theorem sumOf_foldl {σ : Type} {step : σ → α → σ} {field : σ → Nat}
    (h : ∀ s a, field (step s a) = field s + f a) (s : σ) (xs : List α) :
    field (xs.foldl step s) = field s + sumOf f xs := by
  induction xs generalizing s with
  | nil => rfl
  | cons x xs ih => rw [List.foldl_cons, ih, h, sumOf_cons, Nat.add_assoc]

end FleetSizing
