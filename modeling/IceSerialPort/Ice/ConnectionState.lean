import IceSerialPort.Lib.Transition
import Mathlib.Data.Int.Notation
import Mathlib.Data.List.Induction

/-!
# The states of a connection

A connection starts out not validated, switches between active and holding, and ends by
closing: gracefully, when it still answers the requests it has accepted and then says so to
its peer, or at once. `setState` does all of this, with a different share of the work in
each state: the transceiver's descriptor is registered with the thread pool while there
is something to read, and what says that the transceiver can be closed is that the pool
has finished with every registration.

The assertions of `ConnectionI.cpp` are kept, and so are the places where it would go on
with a transceiver that is not there any more.

## Main definitions

* `Link`: the members of `ConnectionI` that `setState` works on.
* `Link.setState`, `Link.setStateWith`: the two versions of `setState`.
* `Link.finished`: what happens when the pool has finished with a registration.
* `Link.Sound`: what holds of a link whenever its mutex is free.
* `Link.Kept`, `Link.Switched`: what a section, and a change of state, may do to a link.

## Main results

* `setState_spec`, `setStateWith_spec`: no assertion fails, and the link stays sound.
-/

namespace IceSerialPort.Ice

open Transition

/-- The exceptions a connection can end with. -/
inductive LocalException where
  | closeConnection
  | forcedCloseConnection
  | connectionTimeout
  | communicatorDestroyed
  | objectAdapterDeactivated
  | connectionLost
  | closeTimeout
  | connectTimeout
  | timeout
  | connectionNotValidated
  | negativeSize
  | unknownRequestId
  | unknownMessage
  /-- A message that cannot be unmarshaled. -/
  | marshal
  | socket
  | unknown
  deriving DecidableEq

inductive ConnectionState where
  | notValidated
  | active
  | holding
  | closing
  | closed
  deriving DecidableEq

/-- `_state >= StateClosing` -/
def ConnectionState.Ended (s : ConnectionState) : Prop := s = .closing ∨ s = .closed

instance (s : ConnectionState) : Decidable s.Ended := inferInstanceAs (Decidable (_ ∨ _))

/-- The messages between two connections. What a request is about is left to the sender:
`call` stands for it. -/
inductive Message where
  | request (requestId : ℤ) (call : ℕ)
  | requestBatch (requestNum : ℤ)
  | reply (requestId : ℤ)
  | validateConnection
  | closeConnection
  /-- Any other message type. -/
  | other
  deriving DecidableEq

/-- The calls of `_threadPool->_register` and `unregister`. -/
inductive PoolCall where
  | register
  | unregister
  deriving DecidableEq

/-- The warnings of a connection. -/
inductive ConnectionWarning where
  /-- "connection exception:" -/
  | connectionException (ex : LocalException)
  /-- "datagram connection exception:" -/
  | datagramException (ex : LocalException)
  /-- "ignoring close connection message for datagram connection:" -/
  | datagramClose
  /-- "ignoring unexpected validate connection message:" -/
  | unexpectedValidate
  deriving DecidableEq

/-- The assertions of `ConnectionI.cpp`, and that a transceiver is there when it is used. -/
inductive ConnectionAssertion where
  | closingOrClosed
  | notClosed
  | neverNotValidated
  | notRegistered
  | isClosing
  | noDispatch
  | hasException
  | isValidated
  | beforeClosing
  | parsesInState
  | isPending
  | oneInvocation
  | dispatchPos
  | dispatchNonneg
  | isClosed
  | hasTransceiver
  deriving DecidableEq

/-- The members of a connection that its states are about. `transceiver` says that
`_transceiver` is not null, `written` is what it has written, and `closes` is how often it
was closed. -/
structure Link where
  datagram : Bool
  warn : Bool
  state : ConnectionState
  exception : Option LocalException
  transceiver : Bool
  registeredWithPool : Bool
  finishedCount : ℤ
  dispatchCount : ℤ
  written : List Message
  poolCalls : List PoolCall
  closes : ℕ
  warnings : List ConnectionWarning

namespace Link

/-- A new connection. -/
def start (datagram warn : Bool) : Link where
  datagram := datagram
  warn := warn
  state := .notValidated
  exception := none
  transceiver := true
  registeredWithPool := false
  finishedCount := 0
  dispatchCount := 0
  written := []
  poolCalls := []
  closes := 0
  warnings := []

/-- `registerWithPool` -/
def registerWithPool (l : Link) : Except ConnectionAssertion Link :=
  if l.registeredWithPool then .ok l
  else if ¬ l.transceiver then .error .hasTransceiver
  else .ok { l with poolCalls := l.poolCalls ++ [.register], registeredWithPool := true }

/-- `unregisterWithPool`. For each unregistration, `finished()` is called once. -/
def unregisterWithPool (l : Link) : Except ConnectionAssertion Link :=
  if ¬ l.registeredWithPool then .ok l
  else if ¬ l.transceiver then .error .hasTransceiver
  else .ok { l with
    poolCalls := l.poolCalls ++ [.unregister]
    registeredWithPool := false
    finishedCount := l.finishedCount + 1 }

/-- `_transceiver->write`. The environment says how it fails, if it does; a link that is
closed was shut down for writing. -/
def write (l : Link) (m : Message) (failure : Option LocalException) :
    Link × Option LocalException :=
  match failure with
  | some ex => (l, some ex)
  | none =>
      if l.state = .closed then (l, some .socket)
      else ({ l with written := l.written ++ [m] }, none)

/-- The exceptions that a connection is expected to end with. -/
def Expected (l : Link) (ex : LocalException) : Prop :=
  ex = .closeConnection ∨ ex = .forcedCloseConnection ∨ ex = .connectionTimeout ∨
    ex = .communicatorDestroyed ∨ ex = .objectAdapterDeactivated ∨
    (ex = .connectionLost ∧ l.state = .closing)

instance (l : Link) (ex : LocalException) : Decidable (l.Expected ex) := by
  unfold Expected
  infer_instance

/-- The first exception is the one that stays. -/
def setException (l : Link) (ex : LocalException) : Except ConnectionAssertion Link :=
  if l.exception.isSome then .ok l
  else if l.state = .closed then .error .notClosed
  else .ok { l with
    exception := some ex
    warnings := if l.warn ∧ l.state ≠ .notValidated ∧ ¬ l.Expected ex
      then l.warnings ++ [.connectionException ex] else l.warnings }

/-- `setState(StateClosed)` -/
def setClosed (l : Link) : Except ConnectionAssertion Link :=
  if l.state = .closed then .ok l
  else if l.state = .notValidated then
    if l.registeredWithPool then .error .notRegistered
    else if ¬ l.transceiver then .error .hasTransceiver
    else .ok { l with transceiver := false, closes := l.closes + 1, state := .closed }
  else do
    let l ← l.registerWithPool
    let l ← l.unregisterWithPool
    if ¬ l.transceiver then .error .hasTransceiver else .ok { l with state := .closed }

/-- `setState(StateClosed, ex)` -/
def fail (l : Link) (ex : LocalException) : Except ConnectionAssertion Link :=
  if l.state = .closed then .ok l else (l.setException ex).bind setClosed

/-- `initiateShutdown`, and how it fails. -/
def initiateShutdown (l : Link) (failure : Option LocalException) :
    Except ConnectionAssertion (Link × Option LocalException) :=
  if l.state ≠ .closing then .error .isClosing
  else if l.dispatchCount ≠ 0 then .error .noDispatch
  else if l.datagram then .ok (l, none)
  else if ¬ l.transceiver then .error .hasTransceiver
  else .ok (l.write .closeConnection failure)

/-- The shutdown of a link without dispatches in progress, in `setState` and in
`sendResponse`; if it fails, the link is closed. -/
def shutdownIfIdle (l : Link) (failure : Option LocalException) :
    Except ConnectionAssertion Link :=
  if l.state = .closing ∧ l.dispatchCount = 0 then do
    let (l, failed) ← l.initiateShutdown failure
    match failed with
    | none => .ok l
    | some ex => l.fail ex
  else .ok l

/-- `setState(StateClosing)`. Graceful shutdown is skipped before validation, and on
datagram endpoints. -/
def setClosing (l : Link) (failure : Option LocalException) : Except ConnectionAssertion Link :=
  if l.datagram ∨ l.state = .notValidated then l.setClosed
  else if l.state.Ended then .ok l
  else do
    let l ← l.registerWithPool
    { l with state := .closing }.shutdownIfIdle failure

/-- `setState(State)` -/
def setState (l : Link) (state : ConnectionState) (failure : Option LocalException) :
    Except ConnectionAssertion Link :=
  match state with
  | .notValidated => if l.state = .notValidated then .ok l else .error .neverNotValidated
  | .active =>
      if l.state = .holding ∨ l.state = .notValidated then
        l.registerWithPool.map fun l => { l with state := .active }
      else .ok l
  | .holding =>
      if l.state = .active ∨ l.state = .notValidated then
        l.unregisterWithPool.map fun l => { l with state := .holding }
      else .ok l
  | .closing => l.setClosing failure
  | .closed => l.setClosed

/-- `setState(State, const LocalException&)` -/
def setStateWith (l : Link) (state : ConnectionState) (ex : LocalException)
    (failure : Option LocalException) : Except ConnectionAssertion Link :=
  if ¬ state.Ended then .error .closingOrClosed
  else if l.state = state then .ok l
  else (l.setException ex).bind fun l => l.setState state failure

/-- `finished`, as far as the transceiver is concerned. -/
def finished (l : Link) : Except ConnectionAssertion Link :=
  if l.finishedCount - 1 = 0 ∧ l.state = .closed then
    if ¬ l.transceiver then .error .hasTransceiver
    else .ok { l with
      finishedCount := l.finishedCount - 1, transceiver := false, closes := l.closes + 1 }
  else .ok { l with finishedCount := l.finishedCount - 1 }

/-! ## What holds of a link -/

/-- Registrations and unregistrations take turns. -/
def pair : Bool → PoolCall → Option Bool
  | false, .register => some true
  | true, .unregister => some false
  | _, _ => none

/-- After a close connection message only requests follow, of callers that had not noticed
yet. -/
def Concluded (ms : List Message) : Prop :=
  ∀ before after, ms = before ++ .closeConnection :: after →
    ∀ m ∈ after, ∃ requestId call, m = .request requestId call

/-- What holds of a link whenever its mutex is free, except for the exception. -/
structure Tied (l : Link) : Prop where
  transceiver : l.transceiver = true ↔ (l.state = .closed → 0 < l.finishedCount)
  nonneg : 0 ≤ l.finishedCount
  registered : l.registeredWithPool = true ↔ l.state = .active ∨ l.state = .closing
  fresh : l.state = .notValidated → l.poolCalls = [] ∧ l.finishedCount = 0
  paired : run pair false l.poolCalls = some l.registeredWithPool
  closes : l.closes = (!l.transceiver).toNat
  final : .closeConnection ∈ l.written → l.state.Ended ∧ l.dispatchCount = 0
  concluded : Concluded l.written

/-- What holds of a link whenever its mutex is free: in addition, it has an exception when
it has begun to close. -/
structure Sound (l : Link) : Prop extends Tied l where
  exception : l.exception.isSome = true ↔ l.state.Ended

/-- What a section that is not about messages leaves as it was, or may do to a link. -/
structure Kept (l l' : Link) : Prop where
  datagram : l'.datagram = l.datagram
  dispatchCount : l'.dispatchCount = l.dispatchCount
  exception : ∀ ex, l.exception = some ex → l'.exception = some ex
  ended : l.state.Ended → l'.state.Ended
  closed : l.state = .closed → l'.state = .closed
  validated : l.state ≠ .notValidated → l'.state ≠ .notValidated
  written : l'.written = l.written ∨
    l'.written = l.written ++ [.closeConnection] ∧ l.dispatchCount = 0 ∧ l.state ≠ .closed ∧
      l'.state.Ended
  poolCalls : ∃ calls, l'.poolCalls = l.poolCalls ++ calls

/-- What a change of state may do to a link: only before it is validated does it close the
transceiver, which is otherwise left to `finished`. -/
structure Switched (l l' : Link) : Prop extends Kept l l' where
  transceiver : l'.transceiver = false → l.transceiver = false ∨ l.state = .notValidated

theorem Switched.refl (l : Link) : Switched l l :=
  ⟨⟨rfl, rfl, fun _ h => h, fun h => h, fun h => h, fun h => h, Or.inl rfl, [], by simp⟩, Or.inl⟩

theorem sound_start (datagram warn : Bool) : (start datagram warn).Sound where
  transceiver := by simp [start]
  nonneg := by simp [start]
  registered := by simp [start]
  fresh := by simp [start]
  paired := rfl
  closes := by simp [start]
  final := by simp [start]
  concluded := by simp [start, Concluded]
  exception := by simp [start, ConnectionState.Ended]

/-! ### Messages -/

theorem concluded_append {ms : List Message} {m : Message} (h : .closeConnection ∉ ms) :
    Concluded (ms ++ [m]) := by
  intro before after heq
  cases after using List.reverseRecOn with
  | nil => simp
  | append_singleton after m' =>
      have hsplit : ms ++ [m] = (before ++ .closeConnection :: after) ++ [m'] := by simpa using heq
      obtain ⟨rfl, -⟩ := List.append_inj' hsplit rfl
      exact absurd (by simp) h

theorem concluded_append_request {ms : List Message} (h : Concluded ms) (requestId : ℤ)
    (call : ℕ) : Concluded (ms ++ [.request requestId call]) := by
  intro before after heq m hm
  cases after using List.reverseRecOn with
  | nil => simp at hm
  | append_singleton after m' =>
      have hsplit : ms ++ [.request requestId call] =
          (before ++ .closeConnection :: after) ++ [m'] := by simpa using heq
      obtain ⟨rfl, hlast⟩ := List.append_inj' hsplit rfl
      rcases List.mem_append.mp hm with hm | hm
      · exact h before after rfl m hm
      · obtain rfl : m = m' := List.mem_singleton.mp hm
        exact ⟨requestId, call, (List.singleton_inj.mp hlast).symm⟩

/-- Every other message is before the close connection message. -/
theorem Concluded.mem_take {ms : List Message} (h : Concluded ms) {n : ℕ} {m : Message}
    (hclose : .closeConnection ∈ ms.take n) (hm : m ∈ ms)
    (hrequest : ∀ requestId call, m ≠ .request requestId call) : m ∈ ms.take n := by
  obtain ⟨before, after, heq⟩ := List.append_of_mem hclose
  have hsplit : ms = before ++ .closeConnection :: (after ++ ms.drop n) := by
    conv_lhs => rw [← List.take_append_drop n ms, heq]
    simp
  rw [hsplit] at hm
  rw [heq]
  rcases List.mem_append.mp hm with hm | hm
  · exact List.mem_append_left _ hm
  · rcases List.mem_cons.mp hm with rfl | hm
    · simp
    · obtain ⟨requestId, call, rfl⟩ := h _ _ hsplit m hm
      exact absurd rfl (hrequest requestId call)

/-- What is behind the close connection message is a request. -/
theorem Concluded.eq_request {ms : List Message} (h : Concluded ms) {n : ℕ} {m : Message}
    (hclose : .closeConnection ∈ ms.take n) (hm : ms[n]? = some m) :
    ∃ requestId call, m = .request requestId call := by
  obtain ⟨before, after, heq⟩ := List.append_of_mem hclose
  have hdrop : ms.drop n = m :: ms.drop (n + 1) := by
    obtain ⟨hlt, rfl⟩ := List.getElem?_eq_some_iff.mp hm
    exact List.drop_eq_getElem_cons hlt
  have hsplit : ms = before ++ .closeConnection :: (after ++ m :: ms.drop (n + 1)) := by
    conv_lhs => rw [← List.take_append_drop n ms, heq, hdrop]
    simp
  exact h _ _ hsplit m (by simp)

/-! ### The two versions of `setState` -/

variable {l : Link}

theorem registerWithPool_eq (h : l.transceiver = true) :
    l.registerWithPool = .ok { l with
      poolCalls := l.poolCalls ++ if l.registeredWithPool then [] else [.register]
      registeredWithPool := true } := by
  cases hreg : l.registeredWithPool with
  | false => simp [registerWithPool, hreg, h]
  | true =>
      cases l
      simp_all [registerWithPool]

theorem unregisterWithPool_eq (h : l.transceiver = true) :
    l.unregisterWithPool = .ok { l with
      poolCalls := l.poolCalls ++ if l.registeredWithPool then [.unregister] else []
      registeredWithPool := false
      finishedCount := l.finishedCount + if l.registeredWithPool then 1 else 0 } := by
  cases hreg : l.registeredWithPool with
  | false =>
      cases l
      simp_all [unregisterWithPool]
  | true => simp [unregisterWithPool, hreg, h]

/-- What closing does to a link that is open. -/
theorem setClosed_eq (h : l.Tied) (hclosed : l.state ≠ .closed) :
    l.setClosed = .ok
      (if l.state = .notValidated then
        { l with transceiver := false, closes := l.closes + 1, state := .closed }
      else { l with
        poolCalls := l.poolCalls ++
          if l.registeredWithPool then [.unregister] else [.register, .unregister]
        registeredWithPool := false
        finishedCount := l.finishedCount + 1
        state := .closed }) := by
  have htrans : l.transceiver = true := h.transceiver.mpr fun hc => absurd hc hclosed
  by_cases hval : l.state = .notValidated
  · have hreg : l.registeredWithPool = false := by simpa [hval] using h.registered
    simp [setClosed, hval, hreg, htrans]
  · rw [setClosed, if_neg hclosed, if_neg hval, registerWithPool_eq htrans]
    simp only [bind, Except.bind, unregisterWithPool_eq (l := { l with
      poolCalls := l.poolCalls ++ if l.registeredWithPool then [] else [.register]
      registeredWithPool := true }) htrans]
    cases l.registeredWithPool <;> simp [htrans, hval]

/-- Further calls of the pool, from where the earlier ones have led. -/
theorem Tied.pair_append (h : l.Tied) (calls : List PoolCall) :
    run pair false (l.poolCalls ++ calls) = run pair l.registeredWithPool calls := by
  rw [run_append, h.paired]
  rfl

theorem setClosed_spec (h : l.Tied) :
    ∃ l', l.setClosed = .ok l' ∧ l'.Tied ∧ l'.state = .closed ∧ l'.exception = l.exception ∧
      l'.written = l.written ∧ Switched l l' := by
  by_cases hclosed : l.state = .closed
  · exact ⟨l, by simp [setClosed, hclosed], h, hclosed, rfl, rfl, Switched.refl l⟩
  have htrans : l.transceiver = true := h.transceiver.mpr fun hc => absurd hc hclosed
  rw [setClosed_eq h hclosed]
  by_cases hval : l.state = .notValidated
  · rw [if_pos hval]
    obtain ⟨-, hcount⟩ := h.fresh hval
    have hreg : l.registeredWithPool = false := by simpa [hval] using h.registered
    refine ⟨_, rfl, ⟨by simp [hcount], h.nonneg, by simp [hreg], by simp, h.paired, ?_, ?_,
      h.concluded⟩, rfl, rfl, rfl, ⟨⟨rfl, rfl, by simp, by simp [ConnectionState.Ended],
      by simp [hclosed], by simp, Or.inl rfl, [], by simp⟩, fun _ => Or.inr hval⟩⟩
    · simp [h.closes, htrans]
    · exact fun hmem => ⟨Or.inr rfl, (h.final hmem).2⟩
  · rw [if_neg hval]
    have hpos : 0 < l.finishedCount + 1 := Int.lt_add_one_of_le h.nonneg
    refine ⟨_, rfl, ⟨by simp [htrans, hpos], Int.le_of_lt hpos, by simp, by simp, ?_, h.closes, ?_,
      h.concluded⟩, rfl, rfl, rfl, ⟨⟨rfl, rfl, by simp, by simp [ConnectionState.Ended],
      by simp [hclosed], by simp, Or.inl rfl, _, rfl⟩, Or.inl⟩⟩
    · rw [h.pair_append]
      cases l.registeredWithPool <;> rfl
    · exact fun hmem => ⟨Or.inr rfl, (h.final hmem).2⟩

/-- The exception of a link, once another one is raised. -/
theorem setException_eq (h : l.Sound) (ex : LocalException) :
    ∃ warnings, l.setException ex = .ok { l with
      exception := some (l.exception.getD ex), warnings := warnings } := by
  cases hex : l.exception with
  | some ex' =>
      refine ⟨l.warnings, ?_⟩
      cases l
      simp_all [setException]
  | none =>
      have hended : ¬ l.state.Ended := by simpa [hex] using h.exception
      have hclosed : l.state ≠ .closed := fun hc => hended (Or.inr hc)
      exact ⟨_, by simp [setException, hex, hclosed]; rfl⟩

/-- Nothing that is `Tied` concerns the exception. -/
theorem Tied.setException (h : l.Tied) (exception : Option LocalException)
    (warnings : List ConnectionWarning) :
    Tied { l with exception := exception, warnings := warnings } :=
  ⟨h.transceiver, h.nonneg, h.registered, h.fresh, h.paired, h.closes, h.final, h.concluded⟩

/-- Warnings change nothing. -/
theorem Sound.with_warnings (h : l.Sound) (warnings : List ConnectionWarning) :
    Sound { l with warnings := warnings } :=
  ⟨h.toTied.setException l.exception warnings, h.exception⟩

theorem switched_warnings (l : Link) (warnings : List ConnectionWarning) :
    Switched l { l with warnings := warnings } :=
  ⟨⟨rfl, rfl, by simp, by simp, by simp, by simp, Or.inl rfl, [], by simp⟩, Or.inl⟩

theorem Switched.of_setException {l' : Link} {ex : LocalException}
    {warnings : List ConnectionWarning} (hclosed : l.state ≠ .closed)
    (h : Switched { l with exception := some (l.exception.getD ex), warnings := warnings } l') :
    Switched l l' where
  datagram := h.datagram
  dispatchCount := h.dispatchCount
  exception e he := h.exception e (by simp [he])
  ended := h.ended
  closed hc := absurd hc hclosed
  validated := h.validated
  written := h.written
  poolCalls := h.poolCalls
  transceiver := h.transceiver

theorem fail_spec (h : l.Sound) (ex : LocalException) :
    ∃ l', l.fail ex = .ok l' ∧ l'.Sound ∧ l'.state = .closed ∧
      l'.exception = some (l.exception.getD ex) ∧ l'.written = l.written ∧ Switched l l' := by
  by_cases hclosed : l.state = .closed
  · obtain ⟨ex', hex⟩ := Option.isSome_iff_exists.mp (h.exception.mpr (Or.inr hclosed))
    exact ⟨l, by simp [fail, hclosed], h, hclosed, by simp [hex], rfl, Switched.refl l⟩
  obtain ⟨warnings, hset⟩ := setException_eq h ex
  obtain ⟨l', hl', htied, hstate, hex, hwritten, hsw⟩ :=
    setClosed_spec (h.toTied.setException _ warnings)
  refine ⟨l', ?_, ⟨htied, ?_⟩, hstate, hex, hwritten, Switched.of_setException hclosed hsw⟩
  · rw [fail, if_neg hclosed, hset]
    exact hl'
  · simp [hex, hstate, ConnectionState.Ended]

/-- The close connection message is the last but for requests. -/
theorem Sound.write_close (h : l.Sound) (hstate : l.state = .closing) (hcount : l.dispatchCount = 0)
    (hmem : .closeConnection ∉ l.written) :
    Sound { l with written := l.written ++ [.closeConnection] } where
  transceiver := h.transceiver
  nonneg := h.nonneg
  registered := h.registered
  fresh := h.fresh
  paired := h.paired
  closes := h.closes
  final _ := ⟨Or.inl hstate, hcount⟩
  concluded := concluded_append hmem
  exception := h.exception

theorem shutdownIfIdle_spec (h : l.Sound) (hmem : .closeConnection ∉ l.written)
    (failure : Option LocalException) :
    ∃ l', l.shutdownIfIdle failure = .ok l' ∧ l'.Sound ∧ l'.exception = l.exception ∧
      Switched l l' := by
  by_cases hidle : l.state = .closing ∧ l.dispatchCount = 0
  · obtain ⟨hstate, hcount⟩ := hidle
    have hended : l.state.Ended := Or.inl hstate
    have htrans : l.transceiver = true := h.transceiver.mpr (by simp [hstate])
    rw [shutdownIfIdle, if_pos ⟨hstate, hcount⟩, initiateShutdown, if_neg (not_not.mpr hstate),
      if_neg (not_not.mpr hcount)]
    cases hdatagram : l.datagram with
    | true => exact ⟨l, rfl, h, rfl, Switched.refl l⟩
    | false =>
        rw [if_neg (by simp), if_neg (by simp [htrans])]
        cases failure with
        | none =>
            have hwrite : l.write .closeConnection none =
                ({ l with written := l.written ++ [.closeConnection] }, none) := by
              simp [write, hstate]
            rw [hwrite]
            refine ⟨_, rfl, h.write_close hstate hcount hmem, rfl, ⟨⟨rfl, rfl, by simp, by simp,
              by simp [hstate], by simp, Or.inr ⟨rfl, hcount, by simp [hstate], hended⟩, [],
              by simp⟩, Or.inl⟩⟩
        | some ex =>
            obtain ⟨l', hl', hsound, -, hex, -, hsw⟩ := fail_spec h ex
            obtain ⟨ex', hex'⟩ := Option.isSome_iff_exists.mp (h.exception.mpr hended)
            exact ⟨l', hl', hsound, by simp [hex, hex'], hsw⟩
  · exact ⟨l, by rw [shutdownIfIdle, if_neg hidle], h, rfl, Switched.refl l⟩

theorem setClosing_spec (h : l.Tied) (hex : l.exception.isSome = true)
    (failure : Option LocalException) :
    ∃ l', l.setClosing failure = .ok l' ∧ l'.Sound ∧ l'.exception = l.exception ∧
      l'.state.Ended ∧ (l.state = .notValidated → l'.state = .closed) ∧ Switched l l' := by
  rw [setClosing]
  by_cases hskip : l.datagram = true ∨ l.state = .notValidated
  · rw [if_pos hskip]
    obtain ⟨l', hl', htied, hstate, hex', -, hsw⟩ := setClosed_spec h
    exact ⟨l', hl', ⟨htied, by simp [hex', hex, hstate, ConnectionState.Ended]⟩, hex',
      Or.inr hstate, fun _ => hstate, hsw⟩
  rw [if_neg hskip]
  have hval : l.state ≠ .notValidated := fun hv => hskip (Or.inr hv)
  by_cases hended : l.state.Ended
  · exact ⟨l, by rw [if_pos hended], ⟨h, by simp [hex, hended]⟩, rfl, hended,
      fun hv => absurd hv hval, Switched.refl l⟩
  have hclosed : l.state ≠ .closed := fun hc => hended (Or.inr hc)
  have hmem : .closeConnection ∉ l.written := fun hm => hended (h.final hm).1
  have htrans : l.transceiver = true := h.transceiver.mpr fun hc => absurd hc hclosed
  rw [if_neg hended, registerWithPool_eq htrans]
  have hsound : Sound { l with
      poolCalls := l.poolCalls ++ if l.registeredWithPool then [] else [.register]
      registeredWithPool := true
      state := .closing } := by
    refine ⟨⟨by simp [htrans], h.nonneg, by simp, by simp, ?_, h.closes, fun hm => absurd hm hmem,
      h.concluded⟩, by simp [hex, ConnectionState.Ended]⟩
    rw [h.pair_append]
    cases l.registeredWithPool <;> rfl
  obtain ⟨l', hl', hsound', hex', hsw⟩ := shutdownIfIdle_spec hsound hmem failure
  obtain ⟨calls, hcalls⟩ := hsw.poolCalls
  refine ⟨l', hl', hsound', hex', hsw.ended (Or.inl rfl), fun hv => absurd hv hval,
    ⟨hsw.datagram, hsw.dispatchCount, hsw.exception, fun _ => hsw.ended (Or.inl rfl),
      fun hc => absurd hc hclosed, fun _ => hsw.validated (by simp), ?_, _,
      by rw [hcalls, List.append_assoc]⟩, fun hnone => ?_⟩
  rotate_left
  · rcases hsw.transceiver hnone with hnone | hnone
    · exact Or.inl hnone
    · exact absurd hnone (by simp)
  rcases hsw.written with hw | ⟨hw, hcount, -, hend⟩
  · exact Or.inl hw
  · exact Or.inr ⟨hw, hcount, hclosed, hend⟩

/-- A link that is open is registered anew or unregistered, and stays open. -/
theorem Sound.reopen (h : l.Sound) (hended : ¬ l.state.Ended) {state : ConnectionState}
    (hopen : state = .active ∨ state = .holding) (calls : List PoolCall) {count : ℤ}
    (hcount : 0 ≤ count)
    (hpair : run pair l.registeredWithPool calls = some (decide (state = .active))) :
    Sound { l with
      poolCalls := l.poolCalls ++ calls
      registeredWithPool := decide (state = .active)
      finishedCount := count
      state := state } ∧
    Switched l { l with
      poolCalls := l.poolCalls ++ calls
      registeredWithPool := decide (state = .active)
      finishedCount := count
      state := state } := by
  have htrans : l.transceiver = true :=
    h.transceiver.mpr fun hclosed => absurd (Or.inr hclosed) hended
  have hex : l.exception = none := by simpa [hended] using h.exception
  have hnot : ¬ state.Ended ∧ state ≠ .notValidated ∧ state ≠ .closing ∧ state ≠ .closed := by
    rcases hopen with rfl | rfl <;> simp [ConnectionState.Ended]
  obtain ⟨hnotEnded, hval, hclosing, hclosed⟩ := hnot
  constructor
  · refine ⟨⟨by simp [htrans, hclosed], hcount, by simp [hclosing], fun hv => absurd hv hval, ?_,
      h.closes, fun hm => absurd (h.final hm).1 hended, h.concluded⟩, by simp [hex, hnotEnded]⟩
    rw [h.pair_append]
    exact hpair
  · exact ⟨⟨rfl, rfl, fun _ hex' => hex', fun hend => absurd hend hended,
      fun hc => absurd (Or.inr hc) hended, fun _ => hval, Or.inl rfl, calls, rfl⟩, Or.inl⟩

/-- The switch from active to holding and back. -/
theorem setState_spec (h : l.Sound) {state : ConnectionState}
    (hstate : state = .active ∨ state = .holding) (failure : Option LocalException) :
    ∃ l', l.setState state failure = .ok l' ∧ l'.Sound ∧ l'.exception = l.exception ∧
      l'.state ≠ .notValidated ∧ Switched l l' := by
  rcases hstate with rfl | rfl
  · by_cases hfrom : l.state = .holding ∨ l.state = .notValidated
    · have hended : ¬ l.state.Ended := by
        rcases hfrom with h | h <;> simp [h, ConnectionState.Ended]
      have htrans : l.transceiver = true :=
        h.transceiver.mpr fun hclosed => absurd (Or.inr hclosed) hended
      obtain ⟨hsound, hsw⟩ := h.reopen hended (Or.inl rfl)
        (if l.registeredWithPool then [] else [.register]) h.nonneg
        (by cases l.registeredWithPool <;> rfl)
      simp only [setState, if_pos hfrom, registerWithPool_eq htrans]
      exact ⟨_, rfl, hsound, rfl, by simp, hsw⟩
    · exact ⟨l, by simp [setState, hfrom], h, rfl, fun hv => hfrom (Or.inr hv), Switched.refl l⟩
  · by_cases hfrom : l.state = .active ∨ l.state = .notValidated
    · have hended : ¬ l.state.Ended := by
        rcases hfrom with h | h <;> simp [h, ConnectionState.Ended]
      have htrans : l.transceiver = true :=
        h.transceiver.mpr fun hclosed => absurd (Or.inr hclosed) hended
      have hcount : 0 ≤ l.finishedCount + if l.registeredWithPool then 1 else 0 := by
        have := h.nonneg
        split <;> omega
      obtain ⟨hsound, hsw⟩ := h.reopen hended (Or.inr rfl)
        (if l.registeredWithPool then [.unregister] else []) hcount
        (by cases l.registeredWithPool <;> rfl)
      simp only [setState, if_pos hfrom, unregisterWithPool_eq htrans]
      exact ⟨_, rfl, hsound, rfl, by simp, hsw⟩
    · exact ⟨l, by simp [setState, hfrom], h, rfl, fun hv => hfrom (Or.inr hv), Switched.refl l⟩

/-- **Ending a connection.** No assertion fails, and the link has an exception and is
closing or closed. -/
theorem setStateWith_spec (h : l.Sound) {state : ConnectionState} (hstate : state.Ended)
    (ex : LocalException) (failure : Option LocalException) :
    ∃ l', l.setStateWith state ex failure = .ok l' ∧ l'.Sound ∧ l'.state.Ended ∧
      l'.exception = some (l.exception.getD ex) ∧ (l.state = .notValidated → l'.state = .closed) ∧
      Switched l l' := by
  rw [setStateWith, if_neg (not_not.mpr hstate)]
  by_cases hsame : l.state = state
  · obtain ⟨ex', hex⟩ := Option.isSome_iff_exists.mp (h.exception.mpr (hsame ▸ hstate))
    refine ⟨l, by rw [if_pos hsame], h, hsame ▸ hstate, by simp [hex], fun hv => ?_,
      Switched.refl l⟩
    rw [← hsame, hv] at hstate
    exact absurd hstate (by simp [ConnectionState.Ended])
  rw [if_neg hsame]
  by_cases hclosed : l.state = .closed
  · -- There is no way back from closed.
    obtain rfl : state = .closing := hstate.resolve_right fun hc => hsame (hclosed.trans hc.symm)
    obtain ⟨ex', hex⟩ := Option.isSome_iff_exists.mp (h.exception.mpr (Or.inr hclosed))
    refine ⟨l, ?_, h, Or.inr hclosed, by simp [hex], fun _ => hclosed, Switched.refl l⟩
    simp [setException, hex, Except.bind, setState, setClosing, setClosed, hclosed,
      ConnectionState.Ended]
  · obtain ⟨warnings, hset⟩ := setException_eq h ex
    have htied := h.toTied.setException (some (l.exception.getD ex)) warnings
    rw [hset]
    rcases hstate with rfl | rfl
    · obtain ⟨l', hl', hsound, hex, hend, hskip, hsw⟩ := setClosing_spec htied rfl failure
      exact ⟨l', hl', hsound, hend, hex, hskip, hsw.of_setException hclosed⟩
    · obtain ⟨l', hl', htied', hend, hex, -, hsw⟩ := setClosed_spec htied
      exact ⟨l', hl', ⟨htied', by simp [hex, hend, ConnectionState.Ended]⟩, Or.inr hend, hex,
        fun _ => hend, hsw.of_setException hclosed⟩

/-- More messages, as long as none of them breaks the rule. -/
theorem Sound.with_written (h : l.Sound) {ms : List Message} (hms : Concluded ms)
    (hmem : .closeConnection ∈ ms → .closeConnection ∈ l.written) :
    Sound { l with written := ms } where
  transceiver := h.transceiver
  nonneg := h.nonneg
  registered := h.registered
  fresh := h.fresh
  paired := h.paired
  closes := h.closes
  final hm := h.final (hmem hm)
  concluded := hms
  exception := h.exception

/-- More or fewer dispatches, as long as nothing was said about them to the peer. -/
theorem Sound.with_dispatchCount (h : l.Sound) (hmem : .closeConnection ∉ l.written) (n : ℤ) :
    Sound { l with dispatchCount := n } where
  transceiver := h.transceiver
  nonneg := h.nonneg
  registered := h.registered
  fresh := h.fresh
  paired := h.paired
  closes := h.closes
  final hm := absurd hm hmem
  concluded := h.concluded
  exception := h.exception

/-- The pool has finished with a registration. The transceiver is closed with the last one
of a closed link, and not before. -/
theorem finished_spec (h : l.Sound) (hpos : 0 < l.finishedCount) :
    ∃ l', l.finished = .ok l' ∧ l'.Sound ∧ l'.state = l.state ∧ l'.exception = l.exception ∧
      l'.poolCalls = l.poolCalls ∧ (¬ l.state.Ended → l'.transceiver = l.transceiver) ∧
      Kept l l' := by
  have htrans : l.transceiver = true := h.transceiver.mpr fun _ => hpos
  have hval : l.state ≠ .notValidated := fun hv => by have := (h.fresh hv).2; omega
  by_cases hlast : l.finishedCount - 1 = 0 ∧ l.state = .closed
  · rw [finished, if_pos hlast, if_neg (by simp [htrans])]
    refine ⟨_, rfl, ⟨⟨by simp [hlast], by simp [hlast], h.registered, fun hv => absurd hv hval,
      h.paired, by simp [h.closes, htrans], h.final, h.concluded⟩, h.exception⟩, rfl, rfl, rfl,
      fun hend => absurd (Or.inr hlast.2) hend,
      ⟨rfl, rfl, by simp, by simp, by simp, by simp, Or.inl rfl, [], by simp⟩⟩
  · rw [finished, if_neg hlast]
    refine ⟨_, rfl, ⟨⟨?_, by simp only; omega, h.registered, fun hv => absurd hv hval, h.paired,
      h.closes, h.final, h.concluded⟩, h.exception⟩, rfl, rfl, rfl, fun _ => rfl,
      ⟨rfl, rfl, by simp, by simp, by simp, by simp, Or.inl rfl, [], by simp⟩⟩
    simp only [htrans, true_iff]
    intro hc
    have hne : l.finishedCount - 1 ≠ 0 := fun hz => hlast ⟨hz, hc⟩
    omega

end Link

end IceSerialPort.Ice
