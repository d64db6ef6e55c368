import IceSerialPort.Ice.Selection
import IceSerialPort.Lib.Transition
import Mathlib.Data.Rat.Floor

/-!
# The thread pool of the Ice runtime

The requests of the server's clients are dispatched by the threads of a leader/follower
pool. One thread, the leader, waits in `select` for a readable descriptor; before it
dispatches what it has read it promotes a follower, which takes its place. How many
threads there are depends on the load: one is started when all are in use, up to a
maximum, and a thread ends when it is not needed any more.

Every section of `ThreadPool.cpp` that holds the pool's mutex is one step here, and any
thread may take the next one. The assertions of the code are kept: a step in which one
fails has that as its result.

## Main definitions

* `Sizes`, `Sizes.adjust`: the pool's bounds, as the constructor adjusts them.
* `LoadFactor`: the arithmetic of the load, in C++ that of `double`.
* `ThreadPool`, `Thread`, `ThreadPool.start`: the pool and what its threads are doing.
* `PoolEvent`, `ThreadPool.step`: the steps, with the assertions.
-/

namespace IceSerialPort.Ice

/-! ## The pool's bounds -/

/-- `_size`, `_sizeMax` and `_sizeWarn`. -/
structure Sizes where
  size : ℕ
  sizeMax : ℕ
  sizeWarn : Int
  pos : 1 ≤ size
  le : size ≤ sizeMax
  warn_le : sizeWarn ≤ sizeMax

/-- The adjustments the constructor warns about. -/
inductive SizeWarning where
  | sizeBelowOne
  | sizeMaxBelowSize
  | sizeWarnAboveSizeMax
  deriving DecidableEq

/-- How the constructor reads `Size`, `SizeMax` and `SizeWarn`. Where `Size` is not set
the pool has one thread. -/
def Sizes.adjust (size? sizeMax? sizeWarn? : Option Int) : Sizes × List SizeWarning :=
  let size := size?.getD 1
  let size' := max size 1
  let sizeMax := sizeMax?.getD size'
  let sizeMax' := max sizeMax size'
  let sizeWarn := sizeWarn?.getD (sizeMax' * 80 / 100)
  (⟨size'.toNat, sizeMax'.toNat, min sizeWarn sizeMax', by omega, by omega, by omega⟩,
    (if size < 1 then [.sizeBelowOne] else []) ++
      (if sizeMax < size' then [.sizeMaxBelowSize] else []) ++
      if sizeWarn > sizeMax' then [.sizeWarnAboveSizeMax] else [])

/-! ## The load -/

/-- `_load * oneMinusLoadFactor + inUse * loadFactor`, and the conversion to `int` of a
load plus one half. The code computes them in `double`, whose rounding is far too small to
take the decayed load below what it decays to by one half. -/
structure LoadFactor where
  decay : ℚ → ℚ → ℚ
  toInt : ℚ → ℤ
  le_toInt : ∀ n : ℤ, n ≤ toInt n
  le_toInt_decay : ∀ (load : ℚ) (n : ℤ), (n : ℚ) ≤ load → n ≤ toInt (decay load n)

/-- The load without rounding. -/
def LoadFactor.exact : LoadFactor where
  decay load inUse := load * (19 / 20) + inUse * (1 / 20)
  toInt load := ⌊load + 1 / 2⌋
  le_toInt n := by
    rw [Int.le_floor]
    linarith
  le_toInt_decay load n h := by
    rw [Int.le_floor]
    linarith

/-! ## The pool -/

/-- Whatever handles the events of a descriptor: a connection or an acceptor. What a
thread has to do with it. -/
inductive Job (H : Type) where
  | message (handler : H)
  | finished (handler : H)
  /-- `factory->shutdown()` -/
  | shutdown
  deriving DecidableEq

/-- What a thread of the pool is doing. -/
inductive Thread (H : Type) where
  /-- About to look at `_promote`. -/
  | follower
  /-- In `wait()`. -/
  | blocked
  /-- Out of `wait()`, about to look at `_promote` again. -/
  | woken
  /-- In `select`, or about to be. -/
  | leader
  /-- With something to do, before `promoteFollower`. -/
  | handling (job : Job H)
  /-- In the handler, after `promoteFollower`. -/
  | dispatching
  /-- `run` has returned true: a follower is to be promoted. -/
  | leaving
  /-- Ending. -/
  | ending
  /-- Not alive any more. -/
  | ended
  /-- Joined and no longer in `_threads`. -/
  | joined
  deriving DecidableEq

/-- The lines the pool prints. -/
inductive PoolMessage where
  /-- "is running low on threads" -/
  | lowOnThreads
  /-- "cannot create thread" -/
  | cannotCreateThread
  /-- "select() returned but no filedescriptor is readable" -/
  | notReadable
  /-- "filedescriptor not registered" -/
  | notRegistered
  deriving DecidableEq

/-- The assertions of `ThreadPool.cpp`. -/
inductive Assertion where
  | notDestroyed
  | noHandlers
  | noChanges
  | notPromoted
  | inUseNonneg
  | inUseLeRunning
  | hasTimeout
  | hasChange
  | isRegistered
  | notInterrupt
  | runningLeThreads
  | inUsePos
  | runningPos
  deriving DecidableEq

/-- The members of the pool. `interrupts` is the number of bytes in the pipe behind
`_fdIntrRead`; `timeout` says that `_timeout` is positive. -/
structure ThreadPool (H : Type) where
  sizes : Sizes
  destroyed : Bool
  changes : List (Int × Option H)
  handlerMap : List (Int × H)
  fdIntrRead : Int
  maxFd : Int
  minFd : Int
  lastFd : Int
  interrupts : ℕ
  timeout : Bool
  threads : List (Thread H)
  running : ℤ
  inUse : ℤ
  load : ℚ
  promote : Bool
  log : List PoolMessage

namespace ThreadPool

variable {H : Type} [DecidableEq H]

/-- The pool once its constructor has returned. With one thread at most nobody waits to
be promoted. -/
def start (sizes : Sizes) (fdIntrRead : Int) (timeout : Bool) : ThreadPool H where
  sizes := sizes
  destroyed := false
  changes := []
  handlerMap := []
  fdIntrRead := fdIntrRead
  maxFd := fdIntrRead
  minFd := fdIntrRead
  lastFd := -1
  interrupts := 0
  timeout := timeout
  threads := List.replicate sizes.size (if sizes.sizeMax > 1 then .follower else .leader)
  running := sizes.size
  inUse := 0
  load := 1
  promote := true
  log := []

/-- A thread goes on to something else. -/
def goes (p : ThreadPool H) (t : ℕ) (thread : Thread H) : ThreadPool H :=
  { p with threads := p.threads.set t thread }

/-- `notify()`: some thread in `wait()` is woken, if there is one. -/
def notify (p : ThreadPool H) : Option ℕ → Option (ThreadPool H)
  | some t => if p.threads[t]? = some .blocked then some (p.goes t .woken) else none
  | none => if .blocked ∈ p.threads then none else some p

/-- `destroy` -/
def destroy (p : ThreadPool H) : Except Assertion (ThreadPool H) :=
  if p.destroyed then .error .notDestroyed
  else if p.handlerMap ≠ [] then .error .noHandlers
  else if p.changes ≠ [] then .error .noChanges
  else .ok { p with destroyed := true, interrupts := p.interrupts + 1 }

/-- `_register` and, without a handler, `unregister`. -/
def change (p : ThreadPool H) (fd : Int) (handler : Option H) : Except Assertion (ThreadPool H) :=
  if p.destroyed then .error .notDestroyed
  else .ok { p with changes := p.changes ++ [(fd, handler)], interrupts := p.interrupts + 1 }

/-- `++_inUse`, with its warning. -/
def addInUse (p : ThreadPool H) : ThreadPool H :=
  { p with
    inUse := p.inUse + 1
    log := if p.inUse + 1 = p.sizes.sizeWarn then p.log ++ [.lowOnThreads] else p.log }

/-- `_threads.push_back(thread); ++_running` -/
def addThread (p : ThreadPool H) : ThreadPool H :=
  { p with threads := p.threads ++ [.follower], running := p.running + 1 }

/-- A thread is started when all are in use. -/
def startThread (p : ThreadPool H) (created : Bool) : Except Assertion (ThreadPool H) :=
  if ¬ p.inUse ≤ p.running then .error .inUseLeRunning
  else if p.inUse < p.sizes.sizeMax ∧ p.inUse = p.running then
    if created then .ok p.addThread
    else .ok { p with log := p.log ++ [.cannotCreateThread] }
  else .ok p

/-- `promoteFollower`, by a thread that then goes on to its handler. The environment
says whom `notify` wakes and whether a thread can be created. -/
def promoteFollower (p : ThreadPool H) (woken : Option ℕ) (created : Bool) :
    Option (Except Assertion (ThreadPool H)) :=
  if p.sizes.sizeMax > 1 then
    if p.promote then some (.error .notPromoted)
    else (p.notify woken).map fun p =>
      if p.destroyed then .ok { p with promote := true }
      else if ¬ 0 ≤ p.inUse then .error .inUseNonneg
      else { p with promote := true }.addInUse.startThread created
  else some (.ok p)

/-- `clearInterrupt` and `_changes.pop_front()` -/
def popChange (p : ThreadPool H) (rest : List (Int × Option H)) : ThreadPool H :=
  { p with changes := rest, interrupts := p.interrupts - 1 }

/-- The addition of a handler. A `std::map` keeps what it has under a key. -/
def addHandler (p : ThreadPool H) (fd : Int) (handler : H) : ThreadPool H :=
  { p with
    handlerMap := if p.handlerMap.any (·.1 = fd) then p.handlerMap
      else (fd, handler) :: p.handlerMap
    maxFd := max p.maxFd fd
    minFd := min p.minFd fd }

/-- The removal of a handler. -/
def removeHandler (p : ThreadPool H) (fd : Int) : ThreadPool H :=
  let handlerMap := p.handlerMap.filter (·.1 ≠ fd)
  { p with
    handlerMap := handlerMap
    maxFd := (handlerMap.map Prod.fst).foldl max p.fdIntrRead
    minFd := (handlerMap.map Prod.fst).foldl min p.fdIntrRead }

/-- The first element of `_changes`, for the leader `t` that `select` has told of an
interrupt. -/
def applyChange (p : ThreadPool H) (t : ℕ) : Except Assertion (ThreadPool H) :=
  match p.changes with
  | [] => .error .hasChange
  | (fd, some handler) :: rest => .ok ((p.popChange rest).addHandler fd handler)
  | (fd, none) :: rest =>
      match p.handlerMap.lookup fd with
      | none => .error .isRegistered
      | some handler =>
          .ok (((p.popChange rest).removeHandler fd).goes t (.handling (.finished handler)))

/-- What the leader `t` does when `select` reports these descriptors; none when its
time is up. -/
def selected (p : ThreadPool H) (t : ℕ) (ready : List Int) : Except Assertion (ThreadPool H) :=
  if ready = [] then
    if ¬ p.timeout then .error .hasTimeout
    else .ok { p.goes t (.handling .shutdown) with timeout := false }
  else if p.fdIntrRead ∈ ready then
    if p.destroyed then .ok (p.goes t .leaving) else p.applyChange t
  else
    match roundRobin (fun fd => fd ∈ ready) p.lastFd p.minFd p.maxFd with
    -- The second wrap has left `_lastFd` at `_minFd`.
    | none => .ok { p with lastFd := p.minFd, log := p.log ++ [.notReadable] }
    | some fd =>
        if fd = p.fdIntrRead then .error .notInterrupt
        else match p.handlerMap.lookup fd with
          | none => .ok { p with lastFd := fd, log := p.log ++ [.notRegistered] }
          | some handler => .ok { p.goes t (.handling (.message handler)) with lastFd := fd }

/-- `while(!_promote) wait(); _promote = false;`, up to the `wait()`. -/
def follow (p : ThreadPool H) (t : ℕ) : ThreadPool H :=
  if p.promote then { p.goes t .leader with promote := false } else p.goes t .blocked

/-- The threads in `_threads`. -/
def threadCount (p : ThreadPool H) : ℕ := p.threads.countP (· ≠ .joined)

/-- The load factor's next value. -/
def updateLoad (p : ThreadPool H) (a : LoadFactor) : ThreadPool H :=
  { p with load := if p.load < p.inUse then (p.inUse : ℚ) else a.decay p.load p.inUse }

/-- Threads that are not alive any more are joined. -/
def reap (p : ThreadPool H) : ThreadPool H :=
  { p with threads := p.threads.map fun x => if x = .ended then .joined else x }

/-- The thread is not needed any more: more are running than at first, and more than the
load asks for, with one left to select. -/
def superfluous (p : ThreadPool H) (a : LoadFactor) : Prop :=
  p.running > p.sizes.size ∧ a.toInt p.load + 1 < p.running

instance (p : ThreadPool H) (a : LoadFactor) : Decidable (p.superfluous a) :=
  inferInstanceAs (Decidable (_ ∧ _))

/-- The end of `run`'s loop, after the threads have been reaped and the load updated: the
thread returns, or waits to be promoted. -/
def release (p : ThreadPool H) (a : LoadFactor) (t : ℕ) : Except Assertion (ThreadPool H) :=
  if p.superfluous a then
    if ¬ 0 < p.inUse then .error .inUsePos
    else if ¬ 0 < p.running then .error .runningPos
    else .ok { p.goes t .ending with inUse := p.inUse - 1, running := p.running - 1 }
  else if ¬ 0 < p.inUse then .error .inUsePos
  else .ok ({ p with inUse := p.inUse - 1 }.follow t)

/-- The end of `run`'s loop, for a thread that comes back from its handler. -/
def finish (p : ThreadPool H) (a : LoadFactor) (t : ℕ) : Except Assertion (ThreadPool H) :=
  if p.sizes.sizeMax > 1 then
    if p.destroyed then .ok (p.follow t)
    else if ¬ p.running ≤ p.threadCount then .error .runningLeThreads
    else ((if p.running < p.threadCount then p.reap else p).updateLoad a).release a t
  else .ok (p.goes t .leader)

end ThreadPool

/-- What can happen to a pool. The number is that of the thread that takes the step. -/
inductive PoolEvent (H : Type) where
  /-- `_register` -/
  | register (fd : Int) (handler : H)
  | unregister (fd : Int)
  | destroy
  /-- A waiting thread looks at `_promote`. -/
  | follow (t : ℕ)
  /-- `wait()` returns without a notification. -/
  | wake (t : ℕ)
  | select (t : ℕ) (ready : List Int)
  /-- `read` throws, or there is nothing to shut down any more: `continue`. -/
  | discard (t : ℕ)
  | promoteFollower (t : ℕ) (woken : Option ℕ) (created : Bool)
  /-- The handler returns. -/
  | finish (t : ℕ)
  /-- The promotion at the end of `EventHandlerThread::run`. -/
  | handOver (t : ℕ) (woken : Option ℕ)
  /-- The thread is not alive any more. -/
  | stop (t : ℕ)

namespace ThreadPool

variable {H : Type} [DecidableEq H]

/-- What `select` can report: a descriptor it was asked about, `_fdIntrRead` only while
there is something in its pipe, and nothing only in case of a timeout. -/
def CanReport (p : ThreadPool H) (ready : List Int) : Prop :=
  (ready = [] → p.timeout = true) ∧
    ∀ fd ∈ ready, if fd = p.fdIntrRead then 0 < p.interrupts
      else p.handlerMap.any (fun e => e.1 = fd) = true

instance (p : ThreadPool H) (ready : List Int) : Decidable (p.CanReport ready) :=
  inferInstanceAs (Decidable (_ ∧ _))

/-- One step of the pool; `none` when it is not possible. -/
def step (a : LoadFactor) (p : ThreadPool H) :
    PoolEvent H → Option (Except Assertion (ThreadPool H))
  | .register fd handler => some (p.change fd (some handler))
  | .unregister fd => some (p.change fd none)
  | .destroy => some p.destroy
  | .follow t =>
      if p.threads[t]? = some .follower ∨ p.threads[t]? = some .woken then some (.ok (p.follow t))
      else none
  | .wake t => if p.threads[t]? = some .blocked then some (.ok (p.goes t .woken)) else none
  | .select t ready =>
      if p.threads[t]? = some .leader ∧ p.CanReport ready then some (p.selected t ready) else none
  | .discard t =>
      match p.threads[t]? with
      | some (.handling (.message _)) => some (.ok (p.goes t .leader))
      | some (.handling .shutdown) => some (.ok (p.goes t .leader))
      | _ => none
  | .promoteFollower t woken created =>
      match p.threads[t]? with
      | some (.handling _) => (p.goes t .dispatching).promoteFollower woken created
      | _ => none
  | .finish t => if p.threads[t]? = some .dispatching then some (p.finish a t) else none
  | .handOver t woken =>
      if p.threads[t]? = some .leaving then
        if p.sizes.sizeMax > 1 then
          if p.promote then some (.error .notPromoted)
          else ((p.goes t .ending).notify woken).map fun p => .ok { p with promote := true }
        else some (.ok (p.goes t .ending))
      else none
  | .stop t => if p.threads[t]? = some .ending then some (.ok (p.goes t .ended)) else none

/-- The pool after an event, if it is possible and no assertion fails. -/
def next (a : LoadFactor) (p : ThreadPool H) (e : PoolEvent H) : Option (ThreadPool H) :=
  (p.step a e).bind Except.toOption

end ThreadPool

end IceSerialPort.Ice
