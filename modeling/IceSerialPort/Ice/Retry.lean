import IceSerialPort.Ice.Peers
import IceSerialPort.Lib.Retry

/-!
# Invocations that are tried again

An invocation that fails may be tried again, over another connection. Whether it is
depends on who has failed and how: `Outgoing::invoke` wraps an exception in order "to
indicate that the request cannot be resent without potentially violating the at-most-once
principle", `sendRequest` does so when it had no chance to send anything, and the proxy
counts the attempts that are left. For asynchronous invocations, `OutgoingAsync` decides.

## Main definitions

* `Told`: what an attempt ends with.
* `Retries.invokeAgain`, `Retries.asyncAgain`: whether there is another attempt.
* `Attempt`: an attempt over a connection of its own, or one that others use too.

## Main results

* `again_told`: when an attempt is followed by another one.
* `at_most_once`: however often an invocation is tried again, it is executed once at most.
* `executions_le`: whatever its mode, once more for each retry interval at most.
-/

namespace IceSerialPort.Ice

open Transition

/-! ## What an attempt ends with -/

inductive OperationMode where
  | normal
  | nonmutating
  | idempotent
  deriving DecidableEq

/-- `mode == Nonmutating || mode == Idempotent` -/
def OperationMode.CanRetry (mode : OperationMode) : Prop := mode = .nonmutating ∨ mode = .idempotent

instance (mode : OperationMode) : Decidable mode.CanRetry := inferInstanceAs (Decidable (_ ∨ _))

/-- The exceptions in a reply. -/
inductive ReplyException where
  | objectNotExist (operation : String)
  | facetNotExist
  | operationNotExist
  | unknownException
  | unknownLocalException
  | unknownUserException
  | unknownReplyStatus
  /-- The results cannot be unmarshaled. -/
  | results
  deriving DecidableEq

/-- The local exceptions of an invocation. -/
inductive InvocationException where
  | connection (ex : LocalException)
  | reply (ex : ReplyException)
  deriving DecidableEq

def InvocationException.ObjectNotExist (ex : InvocationException) : Prop :=
  ∃ operation, ex = .reply (.objectNotExist operation)

instance (ex : InvocationException) : Decidable ex.ObjectNotExist :=
  match ex with
  | .reply (.objectNotExist operation) => .isTrue ⟨operation, rfl⟩
  | .reply .facetNotExist | .reply .operationNotExist | .reply .unknownException
  | .reply .unknownLocalException | .reply .unknownUserException | .reply .unknownReplyStatus
  | .reply .results | .connection _ => .isFalse (by rintro ⟨_, ⟨⟩⟩)

/-- What an attempt ends with. `reply` is the exception that a reply holds. -/
inductive Told where
  /-- There is no connection. -/
  | unsent (ex : LocalException)
  | ended (outcome : Outcome) (reply : Option ReplyException)

/-- What the delegate's `ice_invoke` throws. -/
inductive Thrown where
  | plain (ex : InvocationException)
  /-- `LocalExceptionWrapper` -/
  | wrapper (ex : InvocationException) (retry : Bool)

/-- A request that cannot be resent without potentially violating at-most-once is wrapped. -/
def rethrow (ex : InvocationException) : Thrown :=
  if ex = .connection .closeConnection ∨ ex.ObjectNotExist then .plain ex else .wrapper ex false

/-- `Outgoing::invoke`, and the delegate's `ice_invoke` -/
def invoke : Told → Option Thrown
  | .unsent ex => some (.plain (.connection ex))
  | .ended (.thrown ⟨ex, true⟩) _ => some (.wrapper (.connection ex) true)
  | .ended (.thrown ⟨ex, false⟩) _ => some (.plain (.connection ex))
  | .ended (.raised ex) _ => some (rethrow (.connection ex))
  | .ended .replied reply => reply.map fun ex => rethrow (.reply ex)

/-- It may be repeated, whatever the operation does. -/
def Told.Repeatable : Told → Prop
  | .unsent _ => True
  | .ended outcome reply =>
      outcome.Repeatable ∨
        (outcome = .replied ∧ ∃ operation, reply = some (.objectNotExist operation))

/-! ## Whether it is tried again -/

/-- What a proxy knows about trying again: whether its reference has a locator or a router,
and how often, after which intervals. -/
structure Retries where
  locator : Bool
  router : Bool
  retryIntervals : List ℕ

namespace Retries

/-- One more attempt, as long as there are intervals left. An exception leaves the count
behind. -/
def count (r : Retries) (cnt : ℕ) : Except ℕ ℕ :=
  if r.retryIntervals.length < cnt + 1 then .error (cnt + 1) else .ok (cnt + 1)

/-- `checkRetryAfterException`. There is no point in retrying what cannot be marshaled. -/
def checkRetryAfterException (r : Retries) (ex : InvocationException) (cnt : ℕ) : Except ℕ ℕ :=
  match ex with
  | .reply (.objectNotExist operation) =>
      if r.locator then r.count cnt
      else if r.router ∧ operation = "ice_add_proxy" then .ok cnt
      else .error cnt
  | .reply .facetNotExist | .reply .operationNotExist => .error cnt
  | .reply .results | .connection .marshal | .connection .negativeSize => .error cnt
  | _ => r.count cnt

/-- `__handleException`. When the communicator is destroyed, there is no other attempt. -/
def handleException (r : Retries) (destroyed : Bool) (ex : InvocationException) (cnt : ℕ) :
    Except ℕ ℕ :=
  if destroyed then .error cnt else r.checkRetryAfterException ex cnt

/-- `__handleExceptionWrapper` -/
def handleExceptionWrapper (retry : Bool) (cnt : ℕ) : Except ℕ ℕ :=
  if retry then .ok cnt else .error cnt

/-- `__handleExceptionWrapperRelaxed` -/
def handleExceptionWrapperRelaxed (r : Retries) (destroyed : Bool) (ex : InvocationException)
    (retry : Bool) (cnt : ℕ) : Except ℕ ℕ :=
  if ¬ retry then r.handleException destroyed ex cnt else .ok cnt

/-- The handlers of the proxy's `ice_invoke`. -/
def invokeAgain (r : Retries) (mode : OperationMode) (destroyed : Bool) (cnt : ℕ) (told : Told) :
    Option ℕ :=
  match invoke told with
  | none => none
  | some (.wrapper ex retry) =>
      if mode.CanRetry then (r.handleExceptionWrapperRelaxed destroyed ex retry cnt).toOption
      else (handleExceptionWrapper retry cnt).toOption
  | some (.plain ex) => (r.handleException destroyed ex cnt).toOption

/-- `OutgoingAsync::__finished(const LocalException&)` -/
def asyncFinished (r : Retries) (mode : OperationMode) (destroyed : Bool)
    (ex : InvocationException) (cnt : ℕ) : Option ℕ :=
  if mode.CanRetry ∨ ex = .connection .closeConnection ∨ ex.ObjectNotExist then
    (r.handleException destroyed ex cnt).toOption
  else none

/-- The handlers of `OutgoingAsync::__send`, and the callbacks. -/
def asyncAgain (r : Retries) (mode : OperationMode) (destroyed : Bool) (cnt : ℕ) :
    Told → Option ℕ
  | .unsent ex => r.asyncFinished mode destroyed (.connection ex) cnt
  | .ended (.thrown ⟨_, true⟩) _ => (handleExceptionWrapper true cnt).toOption
  | .ended (.thrown ⟨ex, false⟩) _ =>
      match r.handleException destroyed (.connection ex) cnt with
      | .ok cnt => some cnt
      | .error cnt => r.asyncFinished mode destroyed (.connection ex) cnt
  | .ended (.raised ex) _ => r.asyncFinished mode destroyed (.connection ex) cnt
  | .ended .replied reply => reply.bind fun ex => r.asyncFinished mode destroyed (.reply ex) cnt

end Retries

/-! ## Attempts -/

/-- A request on a connection, some time after the connection was established. -/
structure Sent where
  warn : Bool
  events : List (Bool × ConnectionEvent)
  peers : Peers
  side : Bool
  index : ℕ
  call : Call
  run_eq : run Peers.step (Peers.start warn) events = some peers
  bounded : peers.Bounded
  call_eq : (peers.connection side).calls[index]? = some call

/-- An attempt to invoke an operation. -/
inductive Attempt where
  | unsent (ex : LocalException)
  | finished (s : Sent) (outcome : Outcome) (outcome_mem : outcome ∈ s.call.outcomes)
      (reply : Option ReplyException)
  /-- Nobody was told anything yet, or ever will for a oneway request. -/
  | untold (s : Sent)

namespace Attempt

/-- What the caller is told. -/
def told : Attempt → Option Told
  | .unsent ex => some (.unsent ex)
  | .finished _ outcome _ reply => some (.ended outcome reply)
  | .untold _ => none

/-- How often the request was dispatched, unless the reply is that there is no such object. -/
def executions : Attempt → ℕ
  | .unsent _ => 0
  | .finished s outcome _ reply =>
      if outcome = .replied ∧ (reply.map InvocationException.reply).any (·.ObjectNotExist) then 0
      else s.peers.dispatches s.side s.index
  | .untold s => s.peers.dispatches s.side s.index

end Attempt

/-- Whether an attempt is followed by another one. The communicator may be destroyed in
between. -/
def Retries.again (r : Retries) (async : Bool) (mode : OperationMode) (cnt : ℕ) :
    Attempt × Bool → Option ℕ
  | (a, destroyed) => a.told.bind fun told =>
      if async then r.asyncAgain mode destroyed cnt told else r.invokeAgain mode destroyed cnt told

/-! ## Trying again costs nothing, or an interval -/

theorem toOption_eq_some {ε α : Type} {r : Except ε α} {a : α} :
    r.toOption = some a ↔ r = .ok a := by
  cases r <;> simp [Except.toOption]

theorem rethrow_eq {ex : InvocationException}
    (h : ex = .connection .closeConnection ∨ ex.ObjectNotExist) : rethrow ex = .plain ex :=
  if_pos h

theorem rethrow_eq_wrapper {ex : InvocationException}
    (h : ¬ (ex = .connection .closeConnection ∨ ex.ObjectNotExist)) :
    rethrow ex = .wrapper ex false :=
  if_neg h

namespace Retries

variable {r : Retries} {mode : OperationMode} {destroyed : Bool} {cnt cnt' : ℕ}

/-- Another attempt is counted, and there was an interval left for it. -/
def Counted (r : Retries) (cnt cnt' : ℕ) : Prop :=
  cnt' = cnt + 1 ∧ cnt + 1 ≤ r.retryIntervals.length

theorem count_eq_ok (h : r.count cnt = .ok cnt') : r.Counted cnt cnt' := by
  rw [count] at h
  split at h
  · exact absurd h (by simp)
  · next hle => exact ⟨(Except.ok.inj h).symm, by omega⟩

theorem handleException_eq_ok {ex : InvocationException}
    (h : r.handleException destroyed ex cnt = .ok cnt') :
    r.Counted cnt cnt' ∨ (cnt' = cnt ∧ ex.ObjectNotExist) := by
  cases destroyed with
  | true => simp [handleException] at h
  | false =>
      have hcheck : r.checkRetryAfterException ex cnt = .ok cnt' := h
      unfold checkRetryAfterException at hcheck
      split at hcheck
      · next operation =>
        split at hcheck
        · exact Or.inl (count_eq_ok hcheck)
        · split at hcheck
          · exact Or.inr ⟨(Except.ok.inj hcheck).symm, operation, rfl⟩
          · exact absurd hcheck (by simp)
      all_goals first
        | exact absurd hcheck (by simp)
        | exact Or.inl (count_eq_ok hcheck)

/-- Who has given up once does so again. -/
theorem handleException_eq_error {ex : LocalException}
    (h : r.handleException destroyed (.connection ex) cnt = .error cnt') :
    ∃ cnt'', r.handleException destroyed (.connection ex) cnt' = .error cnt'' := by
  cases destroyed with
  | true => exact ⟨cnt', rfl⟩
  | false =>
      have hcount (hcheck : r.count cnt = .error cnt') : r.count cnt' = .error (cnt' + 1) := by
        rw [count] at hcheck ⊢
        split at hcheck
        · next hlt =>
          obtain rfl := Except.error.inj hcheck
          exact if_pos (by omega)
        · exact absurd hcheck (by simp)
      cases ex with
      | marshal => exact ⟨cnt', rfl⟩
      | negativeSize => exact ⟨cnt', rfl⟩
      | _ => exact ⟨cnt' + 1, hcount h⟩

theorem asyncFinished_eq_some {ex : InvocationException}
    (h : r.asyncFinished mode destroyed ex cnt = some cnt') :
    (mode.CanRetry ∨ ex = .connection .closeConnection ∨ ex.ObjectNotExist) ∧
      (r.Counted cnt cnt' ∨ (cnt' = cnt ∧ ex.ObjectNotExist)) := by
  obtain ⟨hmode, h⟩ := Option.ite_none_right_eq_some.mp h
  refine ⟨hmode, ?_⟩
  exact handleException_eq_ok (toOption_eq_some.mp h)

/-- An exception that `Outgoing::invoke` has thrown. -/
theorem invokeAgain_rethrow {ex : InvocationException} {told : Told}
    (hinvoke : invoke told = some (rethrow ex))
    (h : r.invokeAgain mode destroyed cnt told = some cnt') :
    (mode.CanRetry ∨ ex = .connection .closeConnection ∨ ex.ObjectNotExist) ∧
      (r.Counted cnt cnt' ∨ (cnt' = cnt ∧ ex.ObjectNotExist)) := by
  by_cases hfree : ex = .connection .closeConnection ∨ ex.ObjectNotExist
  · rw [invokeAgain, hinvoke, rethrow_eq hfree] at h
    exact ⟨Or.inr hfree, handleException_eq_ok (toOption_eq_some.mp h)⟩
  · rw [invokeAgain, hinvoke, rethrow_eq_wrapper hfree] at h
    by_cases hmode : mode.CanRetry
    · have hrelaxed : (r.handleException destroyed ex cnt).toOption = some cnt' := by
        rw [← h]
        exact (if_pos hmode).symm
      exact ⟨Or.inl hmode, handleException_eq_ok (toOption_eq_some.mp hrelaxed)⟩
    · simp [hmode, handleExceptionWrapper, Except.toOption] at h

/-- **When an attempt is followed by another one**: it may be repeated, or the operation
allows it; and it is counted, unless it may be repeated. -/
theorem again_told {async : Bool} {told : Told}
    (h : (if async then r.asyncAgain mode destroyed cnt told
      else r.invokeAgain mode destroyed cnt told) = some cnt') :
    (mode.CanRetry ∨ told.Repeatable) ∧ (r.Counted cnt cnt' ∨ (cnt' = cnt ∧ told.Repeatable)) := by
  have hfree {ex : InvocationException} (hrepeat : told.Repeatable)
      (hcnt : r.Counted cnt cnt' ∨ (cnt' = cnt ∧ ex.ObjectNotExist)) :
      (mode.CanRetry ∨ told.Repeatable) ∧ (r.Counted cnt cnt' ∨ (cnt' = cnt ∧ told.Repeatable)) :=
    ⟨Or.inr hrepeat, hcnt.imp id fun hsame => ⟨hsame.1, hrepeat⟩⟩
  have hwrapped (ex : InvocationException)
      (hrepeat : ex = .connection .closeConnection ∨ ex.ObjectNotExist → told.Repeatable)
      (hinvoke : invoke told = some (rethrow ex))
      (hasync : r.asyncAgain mode destroyed cnt told = r.asyncFinished mode destroyed ex cnt) :
      (mode.CanRetry ∨ told.Repeatable) ∧
        (r.Counted cnt cnt' ∨ (cnt' = cnt ∧ told.Repeatable)) := by
    have hspec : (mode.CanRetry ∨ ex = .connection .closeConnection ∨ ex.ObjectNotExist) ∧
        (r.Counted cnt cnt' ∨ (cnt' = cnt ∧ ex.ObjectNotExist)) := by
      cases async with
      | true => exact asyncFinished_eq_some (hasync.symm.trans h)
      | false => exact invokeAgain_rethrow hinvoke h
    exact ⟨hspec.1.imp id hrepeat,
      hspec.2.imp id fun hsame => ⟨hsame.1, hrepeat (Or.inr hsame.2)⟩⟩
  match told with
  | .unsent ex =>
      cases async with
      | true => exact hfree trivial (asyncFinished_eq_some h).2
      | false => exact hfree trivial (handleException_eq_ok (toOption_eq_some.mp h))
  | .ended (.thrown ⟨ex, true⟩) reply =>
      have hsame : cnt' = cnt := by
        cases async with
        | true => exact (Option.some.inj h).symm
        | false =>
            by_cases hmode : mode.CanRetry
            · simpa [invokeAgain, invoke, hmode, handleExceptionWrapperRelaxed, Except.toOption,
                eq_comm] using h
            · simpa [invokeAgain, invoke, hmode, handleExceptionWrapper, Except.toOption,
                eq_comm] using h
      exact ⟨Or.inr (Or.inl trivial), Or.inr ⟨hsame, Or.inl trivial⟩⟩
  | .ended (.thrown ⟨ex, false⟩) reply =>
      cases async with
      | true =>
          have hasync : (match r.handleException destroyed (.connection ex) cnt with
              | .ok cnt => some cnt
              | .error cnt => r.asyncFinished mode destroyed (.connection ex) cnt) = some cnt' := h
          cases hex : r.handleException destroyed (.connection ex) cnt with
          | ok n =>
              rw [hex] at hasync
              obtain rfl := Option.some.inj hasync
              exact hfree (Or.inl trivial) (handleException_eq_ok hex)
          | error n =>
              -- `__finished` does not find another attempt either.
              rw [hex] at hasync
              obtain ⟨n', hagain⟩ := handleException_eq_error hex
              obtain ⟨-, hok⟩ := Option.ite_none_right_eq_some.mp hasync
              rw [hagain] at hok
              exact absurd hok (by simp [Except.toOption])
      | false => exact hfree (Or.inl trivial) (handleException_eq_ok (toOption_eq_some.mp h))
  | .ended (.raised ex) reply =>
      refine hwrapped (.connection ex) ?_ rfl rfl
      rintro (heq | ⟨operation, heq⟩)
      · exact Or.inl (InvocationException.connection.inj heq)
      · exact absurd heq (by simp)
  | .ended .replied none =>
      cases async <;> exact absurd h (by simp [asyncAgain, invokeAgain, invoke])
  | .ended .replied (some ex) =>
      refine hwrapped (.reply ex) ?_ rfl rfl
      rintro (heq | ⟨operation, heq⟩)
      · exact absurd heq (by simp)
      · exact Or.inr ⟨rfl, operation, congrArg some (InvocationException.reply.inj heq)⟩

end Retries

/-! ## At most once -/

namespace Attempt

theorem executions_le_one (a : Attempt) : a.executions ≤ 1 := by
  have hsent (s : Sent) : s.peers.dispatches s.side s.index ≤ 1 :=
    (Peers.run_agree s.run_eq).accepted_once s.bounded s.side s.index
  cases a with
  | unsent ex => exact Nat.zero_le 1
  | finished s outcome hmem reply =>
      rw [executions]
      split
      · exact Nat.zero_le 1
      · exact hsent s
  | untold s => exact hsent s

/-- What may be repeated was not dispatched, or there was no object to dispatch it to. -/
theorem executions_eq_zero {a : Attempt} {told : Told} (htold : a.told = some told)
    (hrepeat : told.Repeatable) : a.executions = 0 := by
  cases a with
  | unsent ex => rfl
  | finished s outcome hmem reply =>
      obtain rfl : Told.ended outcome reply = told := Option.some.inj htold
      rcases hrepeat with hrepeat | ⟨rfl, operation, rfl⟩
      · have hzero := (Peers.run_agree s.run_eq).not_dispatched s.bounded s.call_eq hmem hrepeat
        rw [executions, hzero, ite_self]
      · simp [executions, InvocationException.ObjectNotExist]
  | untold s => exact absurd htold (by simp [Attempt.told])

end Attempt

theorem Retries.again_spec {r : Retries} {async : Bool} {mode : OperationMode} {cnt cnt' : ℕ}
    {a : Attempt × Bool} (h : r.again async mode cnt a = some cnt') :
    (mode.CanRetry ∨ a.1.executions = 0) ∧
      (r.Counted cnt cnt' ∨ (cnt' = cnt ∧ a.1.executions = 0)) := by
  obtain ⟨told, htold, hagain⟩ := Option.bind_eq_some_iff.mp h
  obtain ⟨hmode, hcnt⟩ := again_told hagain
  have hzero := Attempt.executions_eq_zero htold
  exact ⟨hmode.imp id hzero, hcnt.imp id fun hsame => ⟨hsame.1, hzero hsame.2⟩⟩

/-- A server that closes before it reads a request. -/
def closedBefore : List (Bool × ConnectionEvent) :=
  Peers.established ++ [(false, .sendRequest .twoway), (false, .send 0 none),
    (true, .destroy .objectAdapterDeactivated none), (false, .message .closeConnection false),
    (false, .finished)]

/-- The request is sent again, over the connection to another server. -/
example : ∃ a b : Attempt × Bool,
    made (Retries.again ⟨false, false, [0]⟩ false .normal) 0 [a, b, a] = [a, b] ∧
      a.1.executions = 0 ∧ b.1.executions = 1 := by
  have hclosed : ∃ p ∈ run Peers.step (Peers.start false) closedBefore, p.Bounded ∧
      p.dispatches false 0 = 0 ∧
        ∃ x ∈ (p.connection false).calls[0]?, .raised .closeConnection ∈ x.outcomes := by
    decide +kernel
  have hcalled : ∃ q ∈ run Peers.step (Peers.start false) Peers.oneCall, q.Bounded ∧
      q.dispatches false 0 = 1 ∧
        ∃ y ∈ (q.connection false).calls[0]?, .replied ∈ y.outcomes := by
    decide +kernel
  obtain ⟨p, hp, hpb, hpd, x, hx, hraised⟩ := hclosed
  obtain ⟨q, hq, hqb, hqd, y, hy, hreplied⟩ := hcalled
  refine ⟨⟨.finished ⟨false, _, p, false, 0, x, hp, hpb, hx⟩ _ hraised none, false⟩,
    ⟨.finished ⟨false, _, q, false, 0, y, hq, hqb, hy⟩ _ hreplied none, false⟩, rfl, ?_, ?_⟩
  · simpa [Attempt.executions] using hpd
  · simpa [Attempt.executions] using hqd

/-- **An operation that may be repeated** is executed once more for each interval at most. -/
theorem executions_le (r : Retries) (async : Bool) (mode : OperationMode)
    (as : List (Attempt × Bool)) :
    ((made (r.again async mode) 0 as).map fun a => a.1.executions).sum ≤
      r.retryIntervals.length + 1 := by
  refine sum_map_made_le (fun cnt => cnt ≤ r.retryIntervals.length)
    (fun cnt => r.retryIntervals.length - cnt) (fun a => a.1.executions_le_one)
    (fun cnt a cnt' hle h => ?_) (fun cnt a cnt' hle h => ?_) (Nat.zero_le _) as
  · rcases (Retries.again_spec h).2 with ⟨rfl, hcounted⟩ | ⟨rfl, -⟩
    · exact hcounted
    · exact hle
  · rcases (Retries.again_spec h).2 with ⟨rfl, hcounted⟩ | ⟨rfl, hzero⟩
    · have := a.1.executions_le_one
      omega
    · omega

end IceSerialPort.Ice
