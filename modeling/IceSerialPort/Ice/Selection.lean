import Mathlib.Data.List.Basic
import Mathlib.Order.Interval.Set.Defs

/-!
# Which descriptor is served next

`select` tells a thread of the pool which descriptors are readable, and the thread
serves one of them. It goes on from the last one that was served, upwards and once
around: a round robin, so that a busy connection cannot keep the others waiting.

## Main definitions

* `nextFd`: the search loop, with its count of wraps.
* `roundRobin`: the descriptor that is served, if one in the range is readable.
* `distance`: how many descriptors are looked at until this one's turn.

## Main results

* `roundRobin_spec`: the search ends at the readable descriptor whose turn comes first.
* `distance_lt`: serving another descriptor brings the turn of this one nearer.
-/

namespace IceSerialPort.Ice

/-- The loop of `ThreadPool::run` over `_lastFd`: one up, at `_maxFd` back to `_minFd`,
until a descriptor in `fdSet` is met or the second wrap. The number of rounds that the
loop can take is bounded by the first argument. -/
def nextFd (isSet : Int → Bool) (minFd maxFd : Int) : ℕ → Int → ℕ → Int × ℕ
  | 0, lastFd, loops => (lastFd, loops)
  | n + 1, lastFd, loops =>
      let next := if lastFd + 1 > maxFd then (minFd, loops + 1) else (lastFd + 1, loops)
      if !isSet next.1 && decide (next.2 ≤ 1) then nextFd isSet minFd maxFd n next.1 next.2
      else next

/-- Rounds enough for two passes over the range. -/
def rounds (minFd maxFd : Int) : ℕ := 2 * (maxFd - minFd + 2).toNat

/-- The round robin of `ThreadPool::run`; -1 is `INVALID_SOCKET`. Without a result,
`select` has reported a descriptor that is not in the range. -/
def roundRobin (isSet : Int → Bool) (lastFd minFd maxFd : Int) : Option Int :=
  let lastFd := if lastFd < minFd - 1 ∨ lastFd = -1 then minFd - 1 else lastFd
  let found := nextFd isSet minFd maxFd (rounds minFd maxFd) lastFd 0
  if found.2 > 1 then none else some found.1

section Search

variable (isSet : Int → Bool) (minFd : Int) {maxFd lastFd fd : Int} (n loops : ℕ)

theorem nextFd_succ :
    nextFd isSet minFd maxFd (n + 1) lastFd loops =
      let next := if lastFd + 1 > maxFd then (minFd, loops + 1) else (lastFd + 1, loops)
      if !isSet next.1 && decide (next.2 ≤ 1) then nextFd isSet minFd maxFd n next.1 next.2
      else next := rfl

/-- A readable descriptor ahead: the search ends there or before, without a wrap. -/
theorem nextFd_ahead (hloops : loops ≤ 1) (hlt : lastFd < fd) (hle : fd ≤ maxFd)
    (hset : isSet fd = true) (hn : (fd - lastFd).toNat ≤ n) :
    ∃ k, nextFd isSet minFd maxFd n lastFd loops = (k, loops) ∧ isSet k = true ∧ lastFd < k ∧
      k ≤ fd := by
  induction n generalizing lastFd with
  | zero => omega
  | succ n ih =>
      have hwrap : ¬ lastFd + 1 > maxFd := by omega
      rw [nextFd_succ]
      simp only [if_neg hwrap]
      by_cases hnext : isSet (lastFd + 1) = true
      · refine ⟨lastFd + 1, ?_, hnext, by omega, by omega⟩
        simp [hnext]
      · have hne : lastFd + 1 ≠ fd := by
          rintro rfl
          exact hnext hset
        have hlt' : lastFd + 1 < fd := by omega
        obtain ⟨k, hk, hkset, hk1, hk2⟩ := ih hlt' (by omega)
        refine ⟨k, ?_, hkset, by omega, hk2⟩
        simpa [hnext, hloops] using hk

/-- A readable descriptor behind: the search ends ahead, or there or before it after one
wrap. -/
theorem nextFd_behind (hmin : minFd ≤ fd) (hle : fd ≤ maxFd) (hbehind : fd ≤ lastFd)
    (hset : isSet fd = true)
    (hn : (max maxFd lastFd - lastFd).toNat + (fd - minFd + 1).toNat ≤ n) :
    ∃ k loops, nextFd isSet minFd maxFd n lastFd 0 = (k, loops) ∧ isSet k = true ∧
      ((loops = 0 ∧ lastFd < k ∧ k ≤ maxFd) ∨ (loops = 1 ∧ minFd ≤ k ∧ k ≤ fd)) := by
  induction n generalizing lastFd with
  | zero => omega
  | succ n ih =>
      rw [nextFd_succ]
      by_cases hwrap : lastFd + 1 > maxFd
      · simp only [if_pos hwrap]
        by_cases hnext : isSet minFd = true
        · refine ⟨minFd, 1, ?_, hnext, Or.inr ⟨rfl, Int.le_refl minFd, hmin⟩⟩
          simp [hnext]
        · have hne : minFd ≠ fd := by
            rintro rfl
            exact hnext hset
          have hlt : minFd < fd := by omega
          obtain ⟨k, hk, hkset, hk1, hk2⟩ :=
            nextFd_ahead isSet minFd n 1 (Nat.le_refl 1) hlt hle hset (by omega)
          refine ⟨k, 1, ?_, hkset, Or.inr ⟨rfl, by omega, hk2⟩⟩
          simpa [hnext] using hk
      · simp only [if_neg hwrap]
        by_cases hnext : isSet (lastFd + 1) = true
        · refine ⟨lastFd + 1, 0, ?_, hnext, Or.inl ⟨rfl, by omega, by omega⟩⟩
          simp [hnext]
        · have hbehind' : fd ≤ lastFd + 1 := by omega
          obtain ⟨k, loops, hk, hkset, hcase⟩ := ih hbehind' (by omega)
          refine ⟨k, loops, ?_, hkset, ?_⟩
          · simpa [hnext] using hk
          · rcases hcase with ⟨h0, h1, h2⟩ | h
            · exact Or.inl ⟨h0, by omega, h2⟩
            · exact Or.inr h

end Search

/-- How many descriptors are looked at, from `lastFd` on, until it is the turn of `fd`. -/
def distance (lastFd minFd maxFd fd : Int) : Int :=
  let lastFd := if lastFd < minFd - 1 ∨ lastFd = -1 then minFd - 1 else min lastFd maxFd
  if lastFd < fd then fd - lastFd else maxFd - lastFd + (fd - minFd + 1)

/-- **The search ends where the turn comes first.** As long as some descriptor of the range
is readable, one is served, and none that is readable would have been met before it. -/
theorem roundRobin_spec {isSet : Int → Bool} {lastFd minFd maxFd fd : Int} (hmin : minFd ≤ fd)
    (hle : fd ≤ maxFd) (hset : isSet fd = true) :
    ∃ k, roundRobin isSet lastFd minFd maxFd = some k ∧ isSet k = true ∧ minFd ≤ k ∧ k ≤ maxFd ∧
      distance lastFd minFd maxFd k ≤ distance lastFd minFd maxFd fd := by
  simp only [roundRobin, distance]
  split
  · -- The search starts below the range.
    have hlt : minFd - 1 < fd := by omega
    obtain ⟨k, hk, hkset, hk1, hk2⟩ := nextFd_ahead isSet minFd (rounds minFd maxFd) 0
      (Nat.zero_le 1) hlt hle hset (by rw [rounds]; omega)
    refine ⟨k, by rw [hk]; rfl, hkset, by omega, by omega, ?_⟩
    rw [if_pos (by omega), if_pos (by omega)]
    omega
  · next hlast =>
    by_cases hahead : lastFd < fd
    · obtain ⟨k, hk, hkset, hk1, hk2⟩ := nextFd_ahead isSet minFd (rounds minFd maxFd) 0
        (Nat.zero_le 1) hahead hle hset (by rw [rounds]; omega)
      refine ⟨k, by rw [hk]; rfl, hkset, by omega, by omega, ?_⟩
      rw [if_pos (by omega), if_pos (by omega)]
      omega
    · have hbehind : fd ≤ lastFd := by omega
      obtain ⟨k, loops, hk, hkset, hcase⟩ := nextFd_behind isSet minFd (rounds minFd maxFd) hmin
        hle hbehind hset (by rw [rounds]; omega)
      rcases hcase with ⟨rfl, hk1, hk2⟩ | ⟨rfl, hk1, hk2⟩
      · refine ⟨k, by rw [hk]; rfl, hkset, by omega, hk2, ?_⟩
        rw [if_pos (by omega), if_neg (by omega)]
        omega
      · refine ⟨k, by rw [hk]; rfl, hkset, hk1, by omega, ?_⟩
        rw [if_neg (by omega), if_neg (by omega)]
        omega

/-! ## No descriptor waits for long -/

/-- Serving another descriptor first brings the turn of `fd` nearer. -/
theorem distance_lt {isSet : Int → Bool} {lastFd minFd maxFd fd k : Int} (hzero : 0 ≤ minFd)
    (hmin : minFd ≤ fd) (hle : fd ≤ maxFd) (hset : isSet fd = true)
    (hk : roundRobin isSet lastFd minFd maxFd = some k) (hne : k ≠ fd) :
    distance k minFd maxFd fd < distance lastFd minFd maxFd fd := by
  obtain ⟨k', hk', -, hk1, hk2, hdist⟩ := @roundRobin_spec isSet lastFd minFd maxFd fd hmin hle hset
  obtain rfl : k = k' := Option.some.inj (hk.symm.trans hk')
  simp only [distance] at hdist ⊢
  split_ifs at hdist ⊢ <;> omega

theorem distance_pos {lastFd minFd maxFd fd : Int} (hmin : minFd ≤ fd) :
    0 < distance lastFd minFd maxFd fd := by
  simp only [distance]
  split_ifs <;> omega

/-- Once the last descriptor served is one of the range, no distance exceeds its length. -/
theorem distance_le {lastFd minFd maxFd fd : Int} (hmin : minFd ≤ fd) (hle : fd ≤ maxFd) :
    distance lastFd minFd maxFd fd ≤ maxFd - minFd + 1 := by
  simp only [distance]
  split_ifs <;> omega

end IceSerialPort.Ice
