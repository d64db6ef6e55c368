import Mathlib

/-!
# Sums and counts over a list of which one member changes

The threads of a machine are the members of a list, and a step changes one of them. What is
added up over the list changes by what that member adds.

## Main definitions

* `sum_map_set_add`, `countP_set_add`: one member changes.
* `countP_le_of_assigned`: members that each have another one to themselves.
-/

namespace Transition

variable {α : Type} {xs : List α} {t : ℕ} {x : α}

theorem modify_eq_set_of_getElem? (f : α → α) (h : xs[t]? = some x) :
    xs.modify t f = xs.set t (f x) := by
  ext i y
  rw [List.getElem?_modify, List.getElem?_set]
  by_cases hi : t = i
  · obtain ⟨hlt, rfl⟩ := List.getElem?_eq_some_iff.mp h
    subst hi
    simp [hlt]
  · simp [hi]

/-- Changing one member changes a sum by what the member adds. -/
theorem sum_map_set_add {f : α → ℕ} (h : xs[t]? = some x) (y : α) :
    ((xs.set t y).map f).sum + f x = (xs.map f).sum + f y := by
  induction xs generalizing t with
  | nil => simp at h
  | cons z xs ih =>
      cases t with
      | zero =>
          obtain rfl : z = x := by simpa using h
          simp only [List.set_cons_zero, List.map_cons, List.sum_cons]
          omega
      | succ t =>
          have hrest := ih (t := t) (by simpa using h)
          simp only [List.set_cons_succ, List.map_cons, List.sum_cons]
          omega

/-- A count is a sum of ones. -/
theorem countP_eq_sum_map (f : α → Bool) (xs : List α) :
    xs.countP f = (xs.map fun x => (f x).toNat).sum := by
  induction xs with
  | nil => rfl
  | cons x xs ih => cases h : f x <;> simp [h, ih, Nat.add_comm]

/-- Changing one member changes a count by what the member counts. -/
theorem countP_set_add {f : α → Bool} (h : xs[t]? = some x) (y : α) :
    (xs.set t y).countP f + (f x).toNat = xs.countP f + (f y).toNat := by
  rw [countP_eq_sum_map, countP_eq_sum_map]
  exact sum_map_set_add (f := fun x => (f x).toNat) h y

/-- A count is the number of the places where what is counted stands. -/
theorem countP_eq_card (f : α → Bool) (xs : List α) :
    xs.countP f = ((Finset.range xs.length).filter fun i => (xs[i]?.map f).getD false).card := by
  induction xs using List.reverseRecOn with
  | nil => rfl
  | append_singleton xs x ih =>
      have hsame : (Finset.range xs.length).filter (fun i => ((xs ++ [x])[i]?.map f).getD false) =
          (Finset.range xs.length).filter fun i => (xs[i]?.map f).getD false := by
        refine Finset.filter_congr fun i hi => ?_
        rw [List.getElem?_append_left (Finset.mem_range.mp hi)]
      rw [List.countP_append, List.length_append, List.length_singleton, Finset.range_add_one,
        Finset.filter_insert, hsame, List.getElem?_concat_length, ih]
      cases h : f x <;> simp [h]

/-- Where each member that counts on the left has a member that counts on the right to
itself, there are no more on the left. -/
theorem countP_le_of_assigned {β : Type} {ys : List β} {f : α → Bool} {g : β → Bool}
    (assigned : ℕ → Option ℕ)
    (h : ∀ i x, xs[i]? = some x → f x = true →
      ∃ j y, assigned j = some i ∧ ys[j]? = some y ∧ g y = true) :
    xs.countP f ≤ ys.countP g := by
  rw [countP_eq_card, countP_eq_card]
  refine Finset.card_le_card_of_surjOn (fun j => (assigned j).getD 0) fun i hi => ?_
  have hcounts : (xs[i]?.map f).getD false = true := (Finset.mem_filter.mp (Finset.mem_coe.mp hi)).2
  cases hx : xs[i]? with
  | none =>
      rw [hx] at hcounts
      exact absurd hcounts (by simp)
  | some x =>
      rw [hx] at hcounts
      obtain ⟨j, y, hj, hy, hg⟩ := h i x hx hcounts
      have hlt : j < ys.length := (List.getElem?_eq_some_iff.mp hy).1
      have hcounted : (ys[j]?.map g).getD false = true := by
        rw [hy]
        exact hg
      refine ⟨j, ?_, by simp [hj]⟩
      exact Finset.mem_coe.mpr (Finset.mem_filter.mpr ⟨Finset.mem_range.mpr hlt, hcounted⟩)

end Transition
