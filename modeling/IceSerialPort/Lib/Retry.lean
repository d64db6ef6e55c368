import Mathlib

/-!
# Trying again

A loop makes one attempt after another, until one of them is not to be tried again. What
it remembers between two attempts, such as how many there have been, decides with the
attempt itself whether there is another one.

Of the attempts that could be made, `made` are those that the loop does make; every one of
them but the last has been tried again. So if an attempt that may be tried again costs
nothing, or has to be paid for from what is left, the whole loop costs little more than
one attempt.

## Main definitions

* `made again s as`: the attempts that are made of `as`.
* `sum_map_made_le`: their cost, where trying again is paid for.
* `sum_map_made_le_one`: their cost, where trying again is free.
-/

namespace Transition

variable {S α : Type}

/-- The attempts that are made, beginning in `s`. -/
def made (again : S → α → Option S) : S → List α → List α
  | _, [] => []
  | s, a :: as =>
      match again s a with
      | none => [a]
      | some s' => a :: made again s' as

variable {again : S → α → Option S} {cost : α → ℕ}

theorem made_cons_of_none {s : S} {a : α} (h : again s a = none) (as : List α) :
    made again s (a :: as) = [a] := by
  rw [made, h]

theorem made_cons_of_some {s s' : S} {a : α} (h : again s a = some s') (as : List α) :
    made again s (a :: as) = a :: made again s' as := by
  rw [made, h]

/-- **Trying again is paid for.** The invariant `I` is there for what the loop remembers. -/
theorem sum_map_made_le (I : S → Prop) (left : S → ℕ) (hcost : ∀ a, cost a ≤ 1)
    (hkeep : ∀ s a s', I s → again s a = some s' → I s')
    (hpay : ∀ s a s', I s → again s a = some s' → cost a + left s' ≤ left s) {s : S} (hs : I s)
    (as : List α) : ((made again s as).map cost).sum ≤ left s + 1 := by
  induction as generalizing s with
  | nil => simp [made]
  | cons a as ih =>
      cases hagain : again s a with
      | none =>
          have := hcost a
          rw [made_cons_of_none hagain, List.map_singleton, List.sum_singleton]
          omega
      | some s' =>
          have hrest := ih (hkeep s a s' hs hagain)
          have hpaid := hpay s a s' hs hagain
          rw [made_cons_of_some hagain, List.map_cons, List.sum_cons]
          omega

/-- **Trying again is free**, and so the loop costs no more than one attempt. -/
theorem sum_map_made_le_one (hcost : ∀ a, cost a ≤ 1)
    (hfree : ∀ s a s', again s a = some s' → cost a = 0) (s : S) (as : List α) :
    ((made again s as).map cost).sum ≤ 1 :=
  sum_map_made_le (fun _ => True) (fun _ => 0) hcost (fun _ _ _ _ _ => trivial)
    (fun s a s' _ h => (hfree s a s' h).le) trivial as

end Transition
