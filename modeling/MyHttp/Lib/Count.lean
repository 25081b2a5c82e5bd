import Mathlib.Algebra.BigOperators.Fin
import Mathlib.Algebra.Order.BigOperators.Group.Finset

/-! Counting over the members of a finite family: what changing one member does to a total, and what a total says
    about the members. -/

namespace Lib.Count

variable {n : Nat} {α : Type*}

/-- The sum of a measure over a family. -/
def total (g : α → Nat) (xs : Fin n → α) : Nat := ∑ i, g (xs i)

/-- Changing one member changes the total by the difference at that member. -/
theorem total_update (g : α → Nat) (xs : Fin n → α) (w : Fin n) (x : α) :
    total g (Function.update xs w x) + g (xs w) = total g xs + g x := by
  have hrest : ∑ i ∈ Finset.univ.erase w, g (Function.update xs w x i) = ∑ i ∈ Finset.univ.erase w, g (xs i) := by
    refine Finset.sum_congr rfl fun i hi => ?_
    rw [Function.update_of_ne (Finset.ne_of_mem_erase hi)]
  have hnew := Finset.add_sum_erase Finset.univ (fun i => g (Function.update xs w x i)) (Finset.mem_univ w)
  have hold := Finset.add_sum_erase Finset.univ (fun i => g (xs i)) (Finset.mem_univ w)
  rw [Function.update_self] at hnew
  unfold total
  omega

theorem total_zero {g : α → Nat} {xs : Fin n → α} (h : ∀ w, g (xs w) = 0) : total g xs = 0 :=
  Finset.sum_eq_zero fun w _ => h w

theorem le_total (g : α → Nat) (xs : Fin n → α) (w : Fin n) : g (xs w) ≤ total g xs :=
  Finset.single_le_sum (f := fun i => g (xs i)) (fun _ _ => Nat.zero_le _) (Finset.mem_univ w)

/-- Two members together count no more than all of them. -/
theorem add_le_total (g : α → Nat) (xs : Fin n → α) {v w : Fin n} (h : v ≠ w) : g (xs v) + g (xs w) ≤ total g xs := by
  have hpair := Finset.sum_le_sum_of_subset (f := fun i => g (xs i)) (Finset.subset_univ {v, w})
  rwa [Finset.sum_pair h] at hpair

/-- Two measures that stay below a third at every member do so in total. -/
theorem total_add_le {f g k : α → Nat} (h : ∀ x, f x + g x ≤ k x) (xs : Fin n → α) :
    total f xs + total g xs ≤ total k xs := by
  unfold total
  rw [← Finset.sum_add_distrib]
  exact Finset.sum_le_sum fun i _ => h (xs i)

/-- Taking the first entry that fits out of a list takes one entry out. -/
theorem countP_eraseP {α : Type*} {p q : α → Bool} {xs : List α} {x : α} (h : xs.find? p = some x) :
    xs.countP q = (xs.eraseP p).countP q + if q x then 1 else 0 := by
  induction xs with
  | nil => cases h
  | cons y ys ih =>
    rw [List.find?_cons] at h
    cases hp : p y <;> rw [hp] at h
    · have := ih h
      rw [List.eraseP_cons_of_neg (by simp [hp]), List.countP_cons, List.countP_cons]
      omega
    · obtain rfl := Option.some.inj h
      rw [List.eraseP_cons_of_pos hp, List.countP_cons]

/-- Replacing an entry of a list changes the sum by the difference at that entry. -/
theorem sum_map_set {α : Type*} (g : α → Nat) {xs : List α} {i : Nat} {x : α} (y : α) (h : xs[i]? = some x) :
    ((xs.set i y).map g).sum + g x = (xs.map g).sum + g y := by
  induction xs generalizing i with
  | nil => cases h
  | cons z zs ih =>
    cases i with
    | zero =>
      obtain rfl : z = x := by simpa using h
      simp only [List.set_cons_zero, List.map_cons, List.sum_cons]
      omega
    | succ i =>
      have := ih (i := i) (by simpa using h)
      simp only [List.set_cons_succ, List.map_cons, List.sum_cons]
      omega

/-- What is at a place of a list with places added to it. -/
theorem getElem?_grow {α : Type*} {f : Nat → α} {xs : List α} {k j : Nat} {x : α}
    (h : (xs ++ (List.range k).map fun i => f (xs.length + i))[j]? = some x) :
    xs[j]? = some x ∨ x = f j ∧ xs.length ≤ j := by
  rw [List.getElem?_append] at h
  split_ifs at h with hlt
  · exact Or.inl h
  · rw [List.getElem?_map, Option.map_eq_some_iff] at h
    obtain ⟨i, hi, rfl⟩ := h
    obtain ⟨-, rfl⟩ := List.getElem?_eq_some_iff.mp hi
    rw [List.getElem_range, Nat.add_sub_cancel' (Nat.not_lt.mp hlt)]
    exact Or.inr ⟨rfl, Nat.not_lt.mp hlt⟩

/-- Places that count nothing do not change the sum. -/
theorem sum_map_grow {α : Type*} {g : α → Nat} {f : Nat → α} (hf : ∀ i, g (f i) = 0) (xs : List α) (k : Nat) :
    ((xs ++ (List.range k).map fun i => f (xs.length + i)).map g).sum = (xs.map g).sum := by
  have hnew : ((List.range k).map fun i => f (xs.length + i)).map g = (List.range k).map fun _ => 0 := by
    rw [List.map_map]
    exact List.map_congr_left fun i _ => hf _
  rw [List.map_append, List.sum_append, hnew]
  simp

end Lib.Count
