import Mathlib.Data.List.Basic
import Mathlib.Logic.Function.Basic

/-!
# A table that hands out its lowest free number

The allocation rule of POSIX descriptors: a new entry takes the smallest number not
in use, and a released number is free at once. A table is known through `get`, the
entry at a number; `get_alloc` and `get_release` give it after each operation, and
`lowestFree_le` says that the number handed out is the lowest one.

Users of such a table hold the numbers they were handed. `Ledger` ties the two views
together: an entry that has an owner is one that its owner holds. Allocation for a
user who holds nothing and release of a held number keep it, in any order.

## Main definitions

* `Slots α`, `Slots.get`: the table and its entries.
* `Slots.lowestFree`, `Slots.alloc`, `Slots.release`: the operations.
* `Ledger base owner held t`: who holds which number of the table.
-/

namespace SlotTable

/-- Position `n` holds the entry with number `n`, if that number is in use. -/
structure Slots (α : Type*) where
  slots : List (Option α)
  deriving DecidableEq

namespace Slots

variable {α : Type*}

/-- The entry at a number. -/
def get (t : Slots α) (n : ℕ) : Option α := t.slots.getD n none

/-- The smallest number not in use. -/
def lowestFree (t : Slots α) : ℕ := t.slots.findIdx Option.isNone

/-- Put an entry at the smallest number not in use. -/
def alloc (t : Slots α) (a : α) : Slots α :=
  if t.lowestFree < t.slots.length then ⟨t.slots.set t.lowestFree (some a)⟩
  else ⟨t.slots ++ [some a]⟩

/-- Free a number. -/
def release (t : Slots α) (n : ℕ) : Slots α := ⟨t.slots.set n none⟩

@[simp] theorem get_lowestFree (t : Slots α) : t.get t.lowestFree = none := by
  rw [get, List.getD_eq_getElem?_getD]
  by_cases h : t.lowestFree < t.slots.length
  · have hnone := List.findIdx_getElem (w := h)
    rw [List.getElem?_eq_getElem h, Option.getD_some]
    exact Option.isNone_iff_eq_none.mp hnone
  · rw [List.getElem?_eq_none (by omega), Option.getD_none]

/-- A free number is no smaller than the one handed out next. -/
theorem lowestFree_le {t : Slots α} {n : ℕ} (h : t.get n = none) : t.lowestFree ≤ n := by
  by_contra hlt
  have hn : n < t.lowestFree := by omega
  have hlen : n < t.slots.length := Nat.lt_of_lt_of_le hn List.findIdx_le_length
  have hsome : (t.slots[n]).isNone = false := List.not_of_lt_findIdx hn
  rw [get, List.getD_eq_getElem?_getD, List.getElem?_eq_getElem hlen, Option.getD_some] at h
  simp [h] at hsome

/-- Allocation puts the new entry at the number handed out and leaves the rest. -/
theorem get_alloc (t : Slots α) (a : α) :
    (t.alloc a).get = Function.update t.get t.lowestFree (some a) := by
  funext n
  have hle : t.lowestFree ≤ t.slots.length := List.findIdx_le_length
  by_cases hn : n = t.lowestFree
  · subst hn
    rw [Function.update_self, alloc]
    split
    · next h => simp [get, h]
    · next h =>
        have heq : t.lowestFree = t.slots.length := by omega
        simp [get, heq]
  · rw [Function.update_of_ne hn, alloc]
    split
    · next h => simp [get, List.getElem?_set_ne (Ne.symm hn)]
    · next h =>
        have heq : t.lowestFree = t.slots.length := by omega
        rw [heq] at hn
        rcases Nat.lt_or_gt_of_ne hn with hlt | hgt
        · simp [get, List.getElem?_append_left hlt]
        · have h1 : (t.slots ++ [some a])[n]? = none := by
            rw [List.getElem?_eq_none_iff]; simp; omega
          have h2 : t.slots[n]? = none := by
            rw [List.getElem?_eq_none_iff]; omega
          simp [get, h1, h2]

/-- Releasing a number frees it and leaves the rest. -/
theorem get_release (t : Slots α) (n : ℕ) :
    (t.release n).get = Function.update t.get n none := by
  funext m
  by_cases hm : m = n
  · subst hm
    by_cases h : m < t.slots.length
    · simp [get, release, h]
    · have hnone : (t.slots.set m none)[m]? = none := by
        rw [List.getElem?_eq_none_iff, List.length_set]; omega
      simp [get, release, hnone]
  · rw [Function.update_of_ne hm]
    simp [get, release, List.getElem?_set_ne (Ne.symm hm)]

end Slots

/-! ## Who holds which number -/

/-- The entries of the table are those without an owner, at the numbers in `base`,
and one for each user who holds a number, at that number. -/
structure Ledger {α ι : Type*} (base : ℕ → Prop) (owner : α → Option ι) (held : ι → Option ℕ)
    (t : Slots α) : Prop where
  unowned : ∀ n, (∃ a, t.get n = some a ∧ owner a = none) ↔ base n
  owned : ∀ n i, (∃ a, t.get n = some a ∧ owner a = some i) ↔ held i = some n

namespace Ledger

variable {α ι : Type*} {base : ℕ → Prop} {owner : α → Option ι} {held : ι → Option ℕ}
  {t : Slots α}

/-- No two users hold the same number. -/
theorem eq_of_held (h : Ledger base owner held t) {i j : ι} {n : ℕ} (hi : held i = some n)
    (hj : held j = some n) : i = j := by
  rcases (h.owned n i).mpr hi with ⟨a, ha, hai⟩
  rcases (h.owned n j).mpr hj with ⟨b, hb, hbj⟩
  have hab : a = b := Option.some.inj (ha.symm.trans hb)
  rw [hab, hbj] at hai
  exact (Option.some.inj hai).symm

/-- Nobody holds a number of `base`. -/
theorem not_base_of_held (h : Ledger base owner held t) {i : ι} {n : ℕ}
    (hi : held i = some n) : ¬ base n := by
  intro hn
  rcases (h.owned n i).mpr hi with ⟨a, ha, hai⟩
  rcases (h.unowned n).mpr hn with ⟨b, hb, hbn⟩
  have hab : a = b := Option.some.inj (ha.symm.trans hb)
  rw [hab, hbn] at hai
  exact absurd hai (by simp)

/-- A number is in use when it is in `base` or held. -/
theorem in_use (h : Ledger base owner held t) (n : ℕ) :
    (∃ a, t.get n = some a) ↔ base n ∨ ∃ i, held i = some n := by
  constructor
  · intro ⟨a, ha⟩
    cases ho : owner a with
    | none => exact Or.inl ((h.unowned n).mp ⟨a, ha, ho⟩)
    | some i => exact Or.inr ⟨i, (h.owned n i).mp ⟨a, ha, ho⟩⟩
  · intro hn
    rcases hn with hn | ⟨i, hi⟩
    · rcases (h.unowned n).mpr hn with ⟨a, ha, -⟩
      exact ⟨a, ha⟩
    · rcases (h.owned n i).mpr hi with ⟨a, ha, -⟩
      exact ⟨a, ha⟩

variable [DecidableEq ι]

/-- A user who holds nothing is handed the lowest free number. -/
theorem alloc (h : Ledger base owner held t) {i : ι} {a : α} (hi : held i = none)
    (ha : owner a = some i) :
    Ledger base owner (Function.update held i (some t.lowestFree)) (t.alloc a) := by
  constructor
  · intro n
    rw [Slots.get_alloc, ← h.unowned n]
    by_cases hn : n = t.lowestFree
    · subst hn
      simp [ha]
    · rw [Function.update_of_ne hn]
  · intro n j
    rw [Slots.get_alloc]
    by_cases hn : n = t.lowestFree
    · subst hn
      rw [Function.update_self]
      by_cases hj : j = i
      · simp [hj, ha]
      · have hfree := h.owned t.lowestFree j
        simp only [Slots.get_lowestFree, reduceCtorEq, false_and, exists_false, false_iff] at hfree
        simp [Function.update_of_ne hj, hfree, ha, Ne.symm hj]
    · rw [Function.update_of_ne hn, h.owned n j]
      by_cases hj : j = i
      · simp [hj, hi, Ne.symm hn]
      · rw [Function.update_of_ne hj]

/-- A user gives back the number they hold. -/
theorem release (h : Ledger base owner held t) {i : ι} {n : ℕ} (hi : held i = some n) :
    Ledger base owner (Function.update held i none) (t.release n) := by
  constructor
  · intro m
    rw [Slots.get_release, ← h.unowned m]
    by_cases hm : m = n
    · subst hm
      rw [h.unowned m, Function.update_self]
      simp [h.not_base_of_held hi]
    · rw [Function.update_of_ne hm]
  · intro m j
    rw [Slots.get_release]
    by_cases hm : m = n
    · subst hm
      rw [Function.update_self]
      by_cases hj : j = i
      · simp [hj]
      · have hne : held j ≠ some m := fun hjm => hj (h.eq_of_held hjm hi)
        simp [Function.update_of_ne hj, hne]
    · rw [Function.update_of_ne hm, h.owned m j]
      by_cases hj : j = i
      · simp [hj, hi, Ne.symm hm]
      · rw [Function.update_of_ne hj]

end Ledger

end SlotTable
