import IceSerialPort.Ice.PoolRegistry
import IceSerialPort.Lib.Counting

/-!
# The threads of the pool and its counters

At every moment at which the mutex is free the counters of the pool say how many threads
are doing what: `_inUse` those in a handler, `_running` all that are left, and `_promote`
whether nobody leads.

## Main definitions

* `Kind`, `Thread.kind`, `ThreadPool.count`: kinds of threads, and how many there are.
* `Counted`, `Alone`, `Clean`, `Sound`: the invariant of the pool.

## Main results

* `Counted.follow`, `Counted.comeBack`, `Counted.release`: threads wait, come back and end.
* `Vacant.addInUse`, `Tallied.startThread`: a follower is promoted.
-/

namespace IceSerialPort.Ice

open Transition

variable {H : Type}

/-! ## Kinds of threads -/

/-- What a thread counts as. -/
inductive Kind where
  /-- The one thread that may be in `select`, or that will promote another one. -/
  | leads
  /-- In a handler. -/
  | busy
  /-- Waiting to be promoted, and not in `wait()`. -/
  | ready
  /-- In `wait()`. -/
  | asleep
  /-- On its way out. -/
  | out
  deriving DecidableEq

def Thread.kind : Thread H → Kind
  | .follower => .ready
  | .blocked => .asleep
  | .woken => .ready
  | .leader => .leads
  | .handling _ => .leads
  | .dispatching => .busy
  | .leaving => .leads
  | .ending => .out
  | .ended => .out
  | .joined => .out

namespace ThreadPool

/-- How many threads are of a kind. -/
def count (p : ThreadPool H) (k : Kind) : ℕ := p.threads.countP fun x => x.kind = k

section Counts

variable {p q : ThreadPool H} {t : ℕ} {x : Thread H} {kind : Kind}

theorem count_pos (h : p.threads[t]? = some x) (hx : x.kind = kind) : 0 < p.count kind :=
  List.countP_pos_iff.mpr ⟨x, List.mem_of_getElem? h, decide_eq_true hx⟩

/-- A thread that goes on to something else is of another kind, or of the same. -/
theorem count_goes (h : p.threads[t]? = some x) (hx : x.kind = kind) (y : Thread H) (k : Kind) :
    (p.goes t y).count k + (if kind = k then 1 else 0) =
      p.count k + (if y.kind = k then 1 else 0) := by
  have hset := countP_set_add (f := fun x : Thread H => x.kind = k) h y
  rw [hx] at hset
  by_cases h1 : kind = k <;> by_cases h2 : y.kind = k <;> simpa [count, goes, h1, h2] using hset

/-- How the counts change when a thread goes on to something else. -/
theorem counts_goes (h : p.threads[t]? = some x) (hx : x.kind = kind) (y : Thread H) :
    (p.goes t y).count .leads + (if kind = .leads then 1 else 0) =
      p.count .leads + (if y.kind = .leads then 1 else 0) ∧
    (p.goes t y).count .busy + (if kind = .busy then 1 else 0) =
      p.count .busy + (if y.kind = .busy then 1 else 0) ∧
    (p.goes t y).count .ready + (if kind = .ready then 1 else 0) =
      p.count .ready + (if y.kind = .ready then 1 else 0) ∧
    (p.goes t y).count .asleep + (if kind = .asleep then 1 else 0) =
      p.count .asleep + (if y.kind = .asleep then 1 else 0) :=
  ⟨count_goes h hx y _, count_goes h hx y _, count_goes h hx y _, count_goes h hx y _⟩

/-- A thread that stays of its kind changes no count. -/
theorem count_goes_same (h : p.threads[t]? = some x) {y : Thread H} (hy : y.kind = x.kind)
    (k : Kind) : (p.goes t y).count k = p.count k := by
  have hg := count_goes h rfl y k
  rw [hy] at hg
  omega

variable [DecidableEq H]

/-- Whom `notify` wakes. -/
theorem notify_cases {woken : Option ℕ} (h : p.notify woken = some q) :
    (∃ t, p.threads[t]? = some .blocked ∧ q = p.goes t .woken) ∨
      (.blocked ∉ p.threads ∧ q = p) := by
  cases woken with
  | some t =>
      simp only [notify, Option.ite_none_right_eq_some, Option.some.injEq] at h
      exact Or.inl ⟨t, h.1, h.2.symm⟩
  | none =>
      simp only [notify, Option.ite_none_left_eq_some, Option.some.injEq] at h
      exact Or.inr ⟨h.1, h.2.symm⟩

/-- `notify` wakes somebody if somebody sleeps. -/
theorem count_notify {woken : Option ℕ} (h : p.notify woken = some q) :
    q.count .leads = p.count .leads ∧ q.count .busy = p.count .busy ∧
      q.count .ready + q.count .asleep = p.count .ready + p.count .asleep ∧
      (q.count .asleep = 0 ∨ 0 < q.count .ready) := by
  rcases notify_cases h with ⟨t, ht, rfl⟩ | ⟨hno, rfl⟩
  · have hg := counts_goes ht rfl .woken
    simp only [Thread.kind, reduceCtorEq, if_true, if_false] at hg
    omega
  · refine ⟨rfl, rfl, rfl, Or.inl ?_⟩
    rw [count, List.countP_eq_zero]
    intro x hx hasleep
    rw [decide_eq_true_iff] at hasleep
    cases x <;> first | exact hno hx | exact absurd hasleep (by rintro ⟨⟩)

end Counts

end ThreadPool

/-! ## The threads and the counters -/

namespace ThreadPool

/-- With several threads: one leader, or a promotion that one of the waiting threads will
see; the counters count; unless a thread could not be created, one is left to lead. -/
structure Counted (p : ThreadPool H) : Prop where
  leads : p.count .leads + p.promote.toNat = 1
  inUse : p.destroyed = false → p.inUse = p.count .busy
  running : p.destroyed = false →
    p.running = p.count .leads + p.count .busy + p.count .ready + p.count .asleep
  bound : p.count .leads + p.count .busy + p.count .ready + p.count .asleep ≤ p.sizes.sizeMax
  least : p.destroyed = false → p.sizes.size ≤ p.running
  spare : p.destroyed = false → .cannotCreateThread ∉ p.log →
    p.inUse = p.sizes.sizeMax ∨ p.inUse < p.running
  awake : p.promote = true → p.count .asleep = 0 ∨ 0 < p.count .ready

/-- With one thread: it is the leader until it is in a handler. -/
structure Alone (p : ThreadPool H) : Prop where
  waits : p.count .ready + p.count .asleep = 0
  most : p.count .leads + p.count .busy ≤ 1
  least : p.destroyed = false → p.count .leads + p.count .busy = 1

/-- A thread leaves only when the pool is destroyed, and `select` has surprised nobody. -/
structure Clean (p : ThreadPool H) : Prop where
  leaving : .leaving ∈ p.threads → p.destroyed = true
  readable : .notReadable ∉ p.log
  registered : .notRegistered ∉ p.log

/-- The invariant of the pool. -/
structure Sound (p : ThreadPool H) : Prop where
  registry : p.registry.Consistent
  clean : p.Clean
  many : 1 < p.sizes.sizeMax → p.Counted
  one : ¬ 1 < p.sizes.sizeMax → p.Alone

section Workers

variable {p q : ThreadPool H}

theorem Counted.of_workers (h : p.Counted) (hw : q.workers = p.workers) : q.Counted := by
  injection hw with hsizes hd hthreads hr hu hp hlog
  have hc : q.count = p.count := by
    funext k
    rw [count, count, hthreads]
  constructor <;> simp only [hc, hsizes, hd, hr, hu, hp, hlog]
  case leads => exact h.leads
  case inUse => exact h.inUse
  case running => exact h.running
  case bound => exact h.bound
  case least => exact h.least
  case spare => exact h.spare
  case awake => exact h.awake

theorem Alone.of_workers (h : p.Alone) (hw : q.workers = p.workers) : q.Alone := by
  injection hw with hsizes hd hthreads
  have hc : q.count = p.count := by
    funext k
    rw [count, count, hthreads]
  constructor <;> simp only [hc, hd]
  case waits => exact h.waits
  case most => exact h.most
  case least => exact h.least

theorem Clean.of_workers (h : p.Clean) (hw : q.workers = p.workers) : q.Clean := by
  injection hw with hsizes hd hthreads hr hu hp hlog
  constructor <;> simp only [hd, hthreads, hlog]
  case leaving => exact h.leaving
  case readable => exact h.readable
  case registered => exact h.registered

/-- What does not concern the threads. -/
theorem Sound.of_workers (h : p.Sound) (hw : q.workers = p.workers)
    (hr : q.registry.Consistent) : q.Sound where
  registry := hr
  clean := h.clean.of_workers hw
  many hmax := by
    have hsizes : q.sizes = p.sizes := congrArg Workers.sizes hw
    exact (h.many (hsizes ▸ hmax)).of_workers hw
  one hmax := by
    have hsizes : q.sizes = p.sizes := congrArg Workers.sizes hw
    exact (h.one (hsizes ▸ hmax)).of_workers hw

end Workers

/-! ### One thread goes on -/

section Goes

variable (p : ThreadPool H) (t : ℕ) (x : Thread H)

@[simp] theorem goes_sizes : (p.goes t x).sizes = p.sizes := rfl
@[simp] theorem goes_destroyed : (p.goes t x).destroyed = p.destroyed := rfl
@[simp] theorem goes_running : (p.goes t x).running = p.running := rfl
@[simp] theorem goes_inUse : (p.goes t x).inUse = p.inUse := rfl
@[simp] theorem goes_promote : (p.goes t x).promote = p.promote := rfl
@[simp] theorem goes_timeout : (p.goes t x).timeout = p.timeout := rfl
@[simp] theorem goes_log : (p.goes t x).log = p.log := rfl
@[simp] theorem goes_registry : (p.goes t x).registry = p.registry := rfl

theorem follow_goes : (p.goes t x).follow t = p.follow t := by
  simp only [ThreadPool.follow, goes, List.set_set]

theorem follow_registry : (p.follow t).registry = p.registry := by
  rw [ThreadPool.follow]
  split <;> rfl

theorem follow_sizes : (p.follow t).sizes = p.sizes := by
  rw [ThreadPool.follow]
  split <;> rfl

end Goes

section Steps

variable {p q : ThreadPool H} {t : ℕ} {x y : Thread H}

theorem getElem?_goes (h : p.threads[t]? = some x) (y : Thread H) :
    (p.goes t y).threads[t]? = some y :=
  List.getElem?_set_self (List.getElem?_eq_some_iff.mp h).1

theorem Clean.goes (h : p.Clean) (hy : y = .leaving → p.destroyed = true) : (p.goes t y).Clean where
  leaving hmem := (List.mem_or_eq_of_mem_set hmem).elim h.leaving fun heq => hy heq.symm
  readable := h.readable
  registered := h.registered

theorem Clean.follow (h : p.Clean) : (p.follow t).Clean := by
  rw [ThreadPool.follow]
  split
  · have hc : (p.goes t .leader).Clean := h.goes (by simp)
    exact ⟨hc.leaving, hc.readable, hc.registered⟩
  · exact h.goes (by simp)

/-- A thread that stays of its kind breaks nothing. -/
theorem Counted.goes_same (h : p.Counted) (ht : p.threads[t]? = some x) (hy : y.kind = x.kind) :
    (p.goes t y).Counted := by
  have hc : (p.goes t y).count = p.count := funext (count_goes_same ht hy)
  constructor
  case leads => exact hc ▸ h.leads
  case inUse => exact hc ▸ h.inUse
  case running => exact hc ▸ h.running
  case bound => exact hc ▸ h.bound
  case least => exact h.least
  case spare => exact h.spare
  case awake => exact hc ▸ h.awake

theorem Alone.goes_same (h : p.Alone) (ht : p.threads[t]? = some x) (hy : y.kind = x.kind) :
    (p.goes t y).Alone := by
  have hc : (p.goes t y).count = p.count := funext (count_goes_same ht hy)
  constructor <;> rw [hc]
  case waits => exact h.waits
  case most => exact h.most
  case least => exact h.least

theorem Sound.goes_same (h : p.Sound) (ht : p.threads[t]? = some x) (hy : y.kind = x.kind)
    (hleaving : y = .leaving → p.destroyed = true) : (p.goes t y).Sound where
  registry := h.registry
  clean := h.clean.goes hleaving
  many hmax := (h.many hmax).goes_same ht hy
  one hmax := (h.one hmax).goes_same ht hy

/-- **A thread that waits looks at `_promote`.** -/
theorem Counted.follow (h : p.Counted) (ht : p.threads[t]? = some x) (hx : x.kind = .ready) :
    (p.follow t).Counted := by
  obtain ⟨hl, hu, hr, hb, hm, hs, ha⟩ := h
  have hpos := count_pos ht hx
  by_cases hp : p.promote = true
  · have hg := counts_goes ht hx .leader
    simp only [Thread.kind, reduceCtorEq, if_true, if_false] at hg
    rw [hp, Bool.toNat_true] at hl
    have hq : p.follow t = { p.goes t .leader with promote := false } := if_pos hp
    rw [hq]
    constructor <;> dsimp only [count, goes] at *
    case leads => rw [Bool.toNat_false]; omega
    case inUse => intro hd; rw [hu hd]; omega
    case running => intro hd; rw [hr hd]; omega
    case bound => omega
    case least => exact hm
    case spare => exact hs
    case awake => exact (by simp)
  · have hg := counts_goes ht hx .blocked
    simp only [Thread.kind, reduceCtorEq, if_true, if_false] at hg
    have hq : p.follow t = p.goes t .blocked := if_neg hp
    rw [hq]
    constructor <;> dsimp only [count, goes] at *
    case leads => omega
    case inUse => intro hd; rw [hu hd]; omega
    case running => intro hd; rw [hr hd]; omega
    case bound => omega
    case least => exact hm
    case spare => exact hs
    case awake => exact fun hp' => absurd hp' hp

/-- A thread in `wait()` wakes up. -/
theorem Counted.wake (h : p.Counted) (ht : p.threads[t]? = some .blocked) :
    (p.goes t .woken).Counted := by
  obtain ⟨hl, hu, hr, hb, hm, hs, ha⟩ := h
  have hg := counts_goes ht rfl (.woken : Thread H)
  simp only [Thread.kind, reduceCtorEq, if_true, if_false] at hg
  constructor <;> dsimp only [count, goes] at *
  case leads => omega
  case inUse => intro hd; rw [hu hd]; omega
  case running => intro hd; rw [hr hd]; omega
  case bound => omega
  case least => exact hm
  case spare => exact hs
  case awake => exact fun _ => Or.inr (by omega)

/-- **A thread comes back from its handler**, and waits with the others. What is counted
as in use is `n`. -/
theorem Counted.comeBack (h : p.Counted) (ht : p.threads[t]? = some .dispatching) {n : ℤ}
    (hn : p.destroyed = false → n = p.inUse - 1) : ({ p with inUse := n }.follow t).Counted := by
  rw [← follow_goes { p with inUse := n } t .follower]
  refine Counted.follow ?_ (getElem?_goes (p := { p with inUse := n }) ht .follower) rfl
  obtain ⟨hl, hu, hr, hb, hm, hs, ha⟩ := h
  have hpos := count_pos ht rfl
  have hg := counts_goes ht rfl (.follower : Thread H)
  simp only [Thread.kind, reduceCtorEq, if_true, if_false] at hg hpos
  constructor <;> dsimp only [count, goes] at *
  case leads => omega
  case inUse => intro hd; rw [hn hd, hu hd]; omega
  case running => intro hd; rw [hr hd]; omega
  case bound => omega
  case least => exact hm
  case spare =>
    intro hd hno
    rcases hs hd hno with hmax | hlt
    · right
      rw [hn hd, hr hd, hu hd]
      omega
    · right
      rw [hn hd]
      omega
  case awake => exact fun _ => Or.inr (by omega)

/-- The thread of a pool that has only one. -/
theorem Alone.goes (h : p.Alone) (ht : p.threads[t]? = some x)
    (hx : x.kind = .leads ∨ x.kind = .busy)
    (hy : y.kind = .leads ∨ y.kind = .busy ∨ (y.kind = .out ∧ p.destroyed = true)) :
    (p.goes t y).Alone := by
  obtain ⟨hl, hb, hr, ha⟩ := counts_goes ht rfl y
  have hsum : (p.goes t y).count .leads + (p.goes t y).count .busy + 1 =
      p.count .leads + p.count .busy + if y.kind = .out then 0 else 1 := by
    rcases hx with hx | hx <;> rcases hy with hy | hy | ⟨hy, -⟩ <;> simp [hx, hy] at hl hb ⊢ <;>
      omega
  have hrest : (p.goes t y).count .ready + (p.goes t y).count .asleep =
      p.count .ready + p.count .asleep := by
    rcases hx with hx | hx <;> rcases hy with hy | hy | ⟨hy, -⟩ <;> simp [hx, hy] at hr ha ⊢ <;>
      omega
  constructor
  case waits => rw [hrest]; exact h.waits
  case most =>
    have hmost := h.most
    split at hsum <;> omega
  case least =>
    intro (hd : p.destroyed = false)
    have hleast := h.least hd
    have hout : y.kind ≠ .out := by
      rintro hout
      simp [hout, hd] at hy
    rw [if_neg hout] at hsum
    omega

end Steps

/-! ### A follower is promoted -/

/-- What the counters say while a thread may have to be started. -/
structure Tallied (p : ThreadPool H) : Prop where
  leads : p.count .leads + p.promote.toNat = 1
  inUse : p.inUse = p.count .busy
  running : p.running = p.count .leads + p.count .busy + p.count .ready + p.count .asleep
  bound : p.count .leads + p.count .busy + p.count .ready + p.count .asleep ≤ p.sizes.sizeMax
  least : p.sizes.size ≤ p.running
  awake : p.promote = true → p.count .asleep = 0 ∨ 0 < p.count .ready

/-- The leader has gone on to something else, and nobody has been promoted yet. -/
structure Vacant (p : ThreadPool H) : Prop where
  leads : p.count .leads = 0
  promote : p.promote = false
  inUse : p.destroyed = false → p.inUse + 1 = p.count .busy
  running : p.destroyed = false → p.running = p.count .busy + p.count .ready + p.count .asleep
  bound : p.count .busy + p.count .ready + p.count .asleep ≤ p.sizes.sizeMax
  least : p.destroyed = false → p.sizes.size ≤ p.running

section Promotion

variable {p q : ThreadPool H} {t : ℕ} {x y : Thread H}

theorem Counted.vacant (h : p.Counted) (ht : p.threads[t]? = some x) (hx : x.kind = .leads)
    (hy : y.kind = .busy ∨ (y.kind = .out ∧ p.destroyed = true)) : (p.goes t y).Vacant := by
  obtain ⟨hl, hu, hr, hb, hm, -, -⟩ := h
  have hpos := count_pos ht hx
  have hg := counts_goes ht hx y
  have hpromote : p.promote = false := by
    cases hp : p.promote with
    | false => rfl
    | true =>
        rw [hp, Bool.toNat_true] at hl
        omega
  rcases hy with hy | ⟨hy, hd'⟩ <;> simp only [hy, reduceCtorEq, if_true, if_false] at hg
  · constructor
    case leads => omega
    case promote => exact hpromote
    case inUse => intro hd; rw [goes_inUse, hu hd]; omega
    case running => intro hd; rw [goes_running, hr hd]; omega
    case bound => rw [goes_sizes]; omega
    case least => exact hm
  · constructor
    case leads => omega
    case promote => exact hpromote
    case inUse => exact fun hd => absurd (hd'.symm.trans hd) (by simp)
    case running => exact fun hd => absurd (hd'.symm.trans hd) (by simp)
    case bound => rw [goes_sizes]; omega
    case least => exact hm

variable [DecidableEq H]

/-- `notify` changes nothing but a thread that it wakes. -/
theorem notify_eq {woken : Option ℕ} (h : p.notify woken = some q) :
    q = { p with threads := q.threads } := by
  rcases notify_cases h with ⟨t, -, rfl⟩ | ⟨-, rfl⟩ <;> rfl

theorem Clean.notify {woken : Option ℕ} (h : p.Clean) (hq : p.notify woken = some q) :
    q.Clean := by
  rcases notify_cases hq with ⟨t, -, rfl⟩ | ⟨-, rfl⟩
  · exact h.goes (by simp)
  · exact h

theorem Vacant.notify {woken : Option ℕ} (h : p.Vacant) (hq : p.notify woken = some q) :
    q.Vacant := by
  obtain ⟨hl, hb, hw, -⟩ := count_notify hq
  have heq := notify_eq hq
  have hd : q.destroyed = p.destroyed := by rw [heq]
  have hp : q.promote = p.promote := by rw [heq]
  have hu : q.inUse = p.inUse := by rw [heq]
  have hr : q.running = p.running := by rw [heq]
  have hs : q.sizes = p.sizes := by rw [heq]
  constructor <;> simp only [hl, hb, hd, hp, hu, hr, hs]
  case leads => exact h.leads
  case promote => exact h.promote
  case inUse => exact h.inUse
  case running => intro hd; rw [h.running hd]; omega
  case bound => have := h.bound; omega
  case least => exact h.least

end Promotion

section Started

variable {p : ThreadPool H}

/-- A promotion in a pool that is destroyed. -/
theorem Vacant.promoted (h : p.Vacant) (hd : p.destroyed = true)
    (hawake : p.count .asleep = 0 ∨ 0 < p.count .ready) :
    ({ p with promote := true } : ThreadPool H).Counted := by
  have hno : ∀ {P : Prop}, p.destroyed = false → P := fun hd' => absurd (hd.symm.trans hd') (by simp)
  obtain ⟨hl, -, -, -, hb, -⟩ := h
  constructor <;> dsimp only [count] at *
  case leads => rw [hl, Bool.toNat_true]
  case inUse => exact hno
  case running => exact hno
  case bound => omega
  case least => exact hno
  case spare => exact hno
  case awake => exact fun _ => hawake

/-- A promotion by a thread that counts as in use from now on. -/
theorem Vacant.addInUse (h : p.Vacant) (hd : p.destroyed = false)
    (hawake : p.count .asleep = 0 ∨ 0 < p.count .ready) :
    ({ p with promote := true } : ThreadPool H).addInUse.Tallied := by
  obtain ⟨hl, -, hu, hr, hb, hm⟩ := h
  have hrunning := hr hd
  constructor <;> dsimp only [count, ThreadPool.addInUse] at *
  case leads => rw [hl, Bool.toNat_true]
  case inUse => exact hu hd
  case running => omega
  case bound => omega
  case least => exact hm hd
  case awake => exact fun _ => hawake

/-- A new thread is a follower. -/
theorem counts_addThread (p : ThreadPool H) :
    p.addThread.count .leads = p.count .leads ∧ p.addThread.count .busy = p.count .busy ∧
      p.addThread.count .ready = p.count .ready + 1 ∧
      p.addThread.count .asleep = p.count .asleep := by
  simp [count, addThread, Thread.kind]

/-- **A thread is started when all are in use.** Then one is left to lead, unless it could
not be created. -/
theorem Tallied.startThread (h : p.Tallied) (created : Bool) :
    ∃ q, p.startThread created = .ok q ∧ q.Counted := by
  obtain ⟨hl, hu, hr, hb, hm, ha⟩ := h
  have hle : p.inUse ≤ p.running := by omega
  rw [ThreadPool.startThread, if_neg (not_not.mpr hle)]
  by_cases hall : p.inUse < p.sizes.sizeMax ∧ p.inUse = p.running
  · rw [if_pos hall]
    cases created with
    | true =>
        -- The new thread is a follower that will see the promotion.
        refine ⟨_, rfl, ?_⟩
        obtain ⟨hleads, hbusy, hready, hasleep⟩ := counts_addThread p
        have hrunning : p.addThread.running = p.running + 1 := rfl
        constructor
        case leads => rw [hleads]; exact hl
        case inUse => rw [hbusy]; exact fun _ => hu
        case running => rw [hleads, hbusy, hready, hasleep, hrunning]; omega
        case bound =>
          rw [hleads, hbusy, hready, hasleep]
          show _ ≤ p.sizes.sizeMax
          omega
        case least =>
          show _ → (p.sizes.size : ℤ) ≤ p.running + 1
          omega
        case spare =>
          show _ → _ → p.inUse = _ ∨ p.inUse < p.running + 1
          omega
        case awake => rw [hready]; omega
    | false =>
        refine ⟨_, rfl, ?_⟩
        constructor <;> dsimp only [count] at *
        case leads => exact hl
        case inUse => exact fun _ => hu
        case running => exact fun _ => hr
        case bound => exact hb
        case least => exact fun _ => hm
        case spare => exact fun _ hno => absurd (List.mem_append_right _ List.mem_cons_self) hno
        case awake => exact ha
  · rw [if_neg hall]
    refine ⟨_, rfl, ?_⟩
    constructor
    case leads => exact hl
    case inUse => exact fun _ => hu
    case running => exact fun _ => hr
    case bound => exact hb
    case least => exact fun _ => hm
    case spare => intro _ _; omega
    case awake => exact ha

end Started

/-! ### A thread comes back -/

section Back

variable {p q : ThreadPool H} {a : LoadFactor} {t : ℕ}

/-- The threads that are counted are in `_threads`. -/
theorem running_le_threadCount [DecidableEq H] (h : p.Counted) (hd : p.destroyed = false) :
    p.running ≤ p.threadCount := by
  have hsum : p.count .leads + p.count .busy + p.count .ready + p.count .asleep ≤
      p.threadCount := by
    simp only [count, threadCount]
    induction p.threads with
    | nil => simp
    | cons x xs ih =>
        have hx : (if x.kind = .leads then 1 else 0) + (if x.kind = .busy then 1 else 0) +
            (if x.kind = .ready then 1 else 0) + (if x.kind = .asleep then 1 else 0) ≤
              if x ≠ .joined then 1 else 0 := by
          cases x <;> simp [Thread.kind]
        simp only [List.countP_cons, decide_eq_true_eq]
        omega
  rw [h.running hd]
  exact_mod_cast hsum

theorem count_reap [DecidableEq H] (p : ThreadPool H) : p.reap.count = p.count := by
  funext k
  rw [count, ThreadPool.reap, List.countP_map]
  refine List.countP_congr fun x _ => ?_
  simp only [Function.comp_apply, decide_eq_true_eq]
  cases x <;> simp [Thread.kind]

theorem Counted.reap [DecidableEq H] (h : p.Counted) : p.reap.Counted := by
  have hc := count_reap p
  constructor
  case leads => exact hc ▸ h.leads
  case inUse => exact hc ▸ h.inUse
  case running => exact hc ▸ h.running
  case bound => exact hc ▸ h.bound
  case least => exact h.least
  case spare => exact h.spare
  case awake => exact hc ▸ h.awake

theorem Clean.reap [DecidableEq H] (h : p.Clean) : p.reap.Clean where
  leaving hmem := by
    obtain ⟨x, hx, heq⟩ := List.mem_map.mp hmem
    split at heq
    · exact absurd heq (by simp)
    · exact h.leaving (heq ▸ hx)
  readable := h.readable
  registered := h.registered

theorem getElem?_reap [DecidableEq H] {x : Thread H} (h : p.threads[t]? = some x)
    (hx : x ≠ .ended) : p.reap.threads[t]? = some x := by
  simp [ThreadPool.reap, h, hx]

/-- The load is never less than what is in use. -/
theorem inUse_le_load (p : ThreadPool H) (a : LoadFactor) :
    p.inUse ≤ a.toInt (p.updateLoad a).load := by
  simp only [updateLoad]
  split
  case isTrue => exact a.le_toInt _
  case isFalse h => exact a.le_toInt_decay _ _ (not_lt.mp h)

/-- **The thread ends, or waits again.** It ends only when one is left to lead. -/
theorem Counted.release (h : p.Counted) (hd : p.destroyed = false)
    (ht : p.threads[t]? = some .dispatching) (hload : p.inUse ≤ a.toInt p.load) :
    ∃ q, p.release a t = .ok q ∧ q.Counted := by
  have hpos : 0 < p.count .busy := count_pos ht rfl
  have hinUse : 0 < p.inUse := by
    rw [h.inUse hd]
    omega
  have hrunning : 0 < p.running := by
    rw [h.running hd]
    omega
  rw [ThreadPool.release]
  by_cases hsup : p.superfluous a
  · rw [if_pos hsup, if_neg (not_not.mpr hinUse), if_neg (not_not.mpr hrunning)]
    refine ⟨_, rfl, ?_⟩
    obtain ⟨hmore, hneeded⟩ := hsup
    obtain ⟨hl, hu, hr, hb, hm, hs, ha⟩ := h
    have hg := counts_goes ht rfl (.ending : Thread H)
    simp only [Thread.kind, reduceCtorEq, if_true, if_false] at hg
    constructor <;> dsimp only [count, goes] at *
    case leads => omega
    case inUse => rintro -; rw [hu hd]; omega
    case running => rintro -; rw [hr hd]; omega
    case bound => omega
    case least => rintro -; omega
    case spare => rintro - -; omega
    case awake =>
      intro hp
      have hawake := ha hp
      omega
  · rw [if_neg hsup, if_neg (not_not.mpr hinUse)]
    exact ⟨_, rfl, h.comeBack ht fun _ => rfl⟩

/-- Nothing but the threads is concerned. -/
theorem release_frame (h : p.release a t = .ok q) :
    q.registry = p.registry ∧ q.sizes = p.sizes ∧ (p.Clean → q.Clean) := by
  rw [ThreadPool.release] at h
  split_ifs at h <;> obtain rfl := Except.ok.inj h
  · refine ⟨rfl, rfl, fun hc => ?_⟩
    have hgoes : (p.goes t .ending).Clean := hc.goes (by simp)
    exact ⟨hgoes.leaving, hgoes.readable, hgoes.registered⟩
  · refine ⟨follow_registry _ _, follow_sizes _ _, fun hc => Clean.follow ?_⟩
    exact ⟨hc.leaving, hc.readable, hc.registered⟩

end Back

end ThreadPool

end IceSerialPort.Ice
