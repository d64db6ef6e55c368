import Mathlib.Data.List.Basic
import Mathlib.Order.MinMax

/-!
# Finite maps with a hint

A table in which the next search is likely to be for the entry that was touched last can
remember the place of that entry. The hint saves a search and must not change its result,
which it does not as long as it points at an entry: an insertion moves it to the new
entry, and the erasure of the entry it points at moves it to the next one.

## Main definitions

* `HintedMap`: entries with different keys, and perhaps the key of one of them.
* `insert`, `erase`, `find`: the operations, with the semantics of an ordered map.

## Main results

* `find_insert`, `find_erase`: what is found after an insertion and after an erasure.
* `isSome_of_hint`: a hint is worth following.
-/

namespace Transition

/-- A finite map that remembers the key of one of its entries. -/
structure HintedMap (K V : Type) where
  entries : List (K × V)
  hint : Option K
  nodup : (entries.map Prod.fst).Nodup
  hint_mem : ∀ k ∈ hint, k ∈ entries.map Prod.fst

namespace HintedMap

variable {K V : Type}

/-- No entries, and the hint points behind them. -/
def empty : HintedMap K V := ⟨[], none, List.nodup_nil, by simp⟩

instance : EmptyCollection (HintedMap K V) := ⟨empty⟩

@[simp] theorem entries_empty : (∅ : HintedMap K V).entries = [] := rfl

/-- The key has an entry. -/
def Has (m : HintedMap K V) (k : K) : Prop := k ∈ m.entries.map Prod.fst

variable [LinearOrder K]

instance (m : HintedMap K V) (k : K) : Decidable (m.Has k) :=
  inferInstanceAs (Decidable (_ ∈ _))

/-- A search without the hint. -/
def find (m : HintedMap K V) (k : K) : Option V := m.entries.lookup k

theorem find_eq_some {m : HintedMap K V} {k : K} {v : V} :
    m.find k = some v ↔ (k, v) ∈ m.entries := by
  have hnodup := m.nodup
  rw [find]
  revert hnodup
  generalize m.entries = es
  intro hnodup
  induction es with
  | nil => simp
  | cons e es ih =>
      obtain ⟨hnew, hrest⟩ := List.nodup_cons.mp hnodup
      rw [List.lookup_cons]
      by_cases hk : k = e.1
      · subst hk
        have habsent : (e.1, v) ∉ es := fun hmem => hnew (List.mem_map.mpr ⟨_, hmem, rfl⟩)
        simp only [BEq.rfl, Option.some.injEq, List.mem_cons, habsent, or_false]
        constructor
        · rintro rfl
          rfl
        · intro h
          rw [← h]
      · have hne : (k == e.1) = false := by simpa using hk
        have habsent : (k, v) ≠ e := fun heq => hk (by rw [← heq])
        simp only [hne, List.mem_cons, habsent, false_or]
        exact ih hrest

theorem has_iff {m : HintedMap K V} {k : K} : m.Has k ↔ ∃ v, m.find k = some v := by
  simp only [Has, find_eq_some, List.mem_map, Prod.exists, exists_and_right, exists_eq_right]

/-- A hint is worth following: it points at an entry. -/
theorem isSome_of_hint {m : HintedMap K V} {k : K} (h : m.hint = some k) :
    ∃ v, m.find k = some v :=
  has_iff.mp (m.hint_mem k h)

/-! ## Insertion and erasure -/

/-- What the map has under the key stays. The hint points at it. -/
def insert (m : HintedMap K V) (k : K) (v : V) : HintedMap K V :=
  if h : m.Has k then { m with hint := some k, hint_mem := by rintro k' ⟨⟩; exact h }
  else ⟨(k, v) :: m.entries, some k, List.nodup_cons.mpr ⟨h, m.nodup⟩, by simp⟩

theorem entries_insert {m : HintedMap K V} {k : K} (h : ¬ m.Has k) (v : V) :
    (m.insert k v).entries = (k, v) :: m.entries := by
  rw [insert, dif_neg h]

theorem mem_insert {m : HintedMap K V} {k : K} {v : V} {e : K × V}
    (h : e ∈ (m.insert k v).entries) : e = (k, v) ∨ e ∈ m.entries := by
  rw [insert] at h
  split at h
  · exact Or.inr h
  · exact List.mem_cons.mp h

theorem find_insert {m : HintedMap K V} {k : K} (h : ¬ m.Has k) (v : V) (k' : K) :
    (m.insert k v).find k' = if k' = k then some v else m.find k' := by
  rw [find, entries_insert h, List.lookup_cons]
  by_cases hk : k' = k
  · simp [hk]
  · have hne : (k' == k) = false := by simpa using hk
    simp [hne, hk, find]

/-- The entry behind the one with this key. -/
def next (es : List (K × V)) (k : K) : Option K :=
  ((es.map Prod.fst).filter (k < ·)).min?

/-- Without the entry; a hint that pointed at it goes on to the next one. -/
def erase (m : HintedMap K V) (k : K) : HintedMap K V where
  entries := m.entries.filter (·.1 ≠ k)
  hint := if m.hint = some k then next m.entries k else m.hint
  nodup := m.nodup.sublist (List.filter_sublist.map Prod.fst)
  hint_mem := by
    intro k' hk'
    have : Std.MinEqOr K := ⟨min_choice⟩
    have hmem : k' ∈ m.entries.map Prod.fst ∧ k' ≠ k := by
      split at hk'
      · obtain ⟨hmem, hlt⟩ := List.mem_filter.mp (List.min?_mem hk')
        exact ⟨hmem, ne_of_gt (of_decide_eq_true hlt)⟩
      · next hne =>
        refine ⟨m.hint_mem k' hk', ?_⟩
        rintro rfl
        exact hne hk'
    obtain ⟨e, he, rfl⟩ := List.mem_map.mp hmem.1
    exact List.mem_map_of_mem (List.mem_filter.mpr ⟨he, by simpa using hmem.2⟩)

theorem find_erase (m : HintedMap K V) (k k' : K) :
    (m.erase k).find k' = if k' = k then none else m.find k' := by
  ext v
  rw [find_eq_some]
  by_cases hk : k' = k
  · simp [erase, hk]
  · simp [erase, hk, find_eq_some]

end HintedMap

end Transition
