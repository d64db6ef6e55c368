import Mathlib
import IceSerialPort.Ice.ConnectionState
import IceSerialPort.Lib.HintedMap

/-!
# A connection of the Ice runtime

A connection carries requests in both directions. Of those it sends, it keeps in a map
which caller waits for which reply; of those it receives, it counts how many are being
dispatched. Many threads use it at the same time: the callers, the threads of the pool
that read messages from it or dispatch requests, and those that end it.

Every section of `ConnectionI.cpp` that holds the connection's mutex, or the one for
sending, is one step here. What a thread has to remember from one section to the next is
part of the state: `calls` holds the calls of `sendRequest` and `sendAsyncRequest`, and
`works` those of `invokeAll`.

## Main definitions

* `Connection`: the members of `ConnectionI`, and the threads inside it.
* `Call`, `Outcome`: a request that is sent, and what its caller is told of it.
* `Work`: requests that were received, and how far their dispatch has come.
* `ConnectionEvent`, `Connection.step`: the steps.
-/

namespace IceSerialPort.Ice

open Transition

/-! ## Requests that are sent -/

inductive CallKind where
  | oneway
  | twoway
  /-- `sendAsyncRequest` -/
  | async
  deriving DecidableEq

/-- What `sendRequest` throws. If there was no chance to send, it is wrapped, in order to be
tried again in any case. -/
structure SendException where
  ex : LocalException
  wrapped : Bool
  deriving DecidableEq

/-- What the caller is told about a request. -/
inductive Outcome where
  /-- `finished(BasicStream&)` -/
  | replied
  /-- `finished(const LocalException&)` -/
  | raised (ex : LocalException)
  /-- `sendRequest` has thrown. -/
  | thrown (ex : SendException)
  deriving DecidableEq

/-- Where the caller is in `sendRequest`. -/
inductive Progress where
  /-- About to write. -/
  | sending
  /-- The attempt to write has failed. -/
  | failed (ex : LocalException)
  | over
  deriving DecidableEq

/-- A request that is sent. `outcomes` lists everything the caller was told. -/
structure Call where
  kind : CallKind
  requestId : ℤ
  progress : Progress
  outcomes : List Outcome
  deriving DecidableEq

/-- An outcome for some callers. -/
def complete (calls : List Call) (outcome : Outcome) (js : List ℕ) : List Call :=
  js.foldl (fun calls j => calls.modify j fun c => { c with outcomes := c.outcomes ++ [outcome] })
    calls

/-! ## Requests that are received -/

/-- Where a thread is in `invokeAll`. -/
inductive Phase where
  /-- In `invoke`. -/
  | invoking
  /-- The attempt to write the reply has failed. -/
  | unsent (ex : LocalException)
  /-- In `sendResponse`, the reply written or given up. -/
  | answered
  /-- `invoke` has thrown, and the connection is closed. -/
  | broken
  deriving DecidableEq

/-- Requests that were received in one message. `invokeNum` of them count as being
dispatched. -/
structure Work where
  requestId : ℤ
  invokeNum : ℕ
  phase : Phase
  deriving DecidableEq

/-! ## The connection -/

/-- How far `validate` has come. -/
inductive Validation where
  | pending
  | checked
  | failed (ex : LocalException)
  | confirmed
  | over
  deriving DecidableEq

/-- The members of a connection and the threads inside it. `active` says that there is an
adapter, which makes this the side that sends the validate connection message. -/
structure Connection extends Link where
  active : Bool
  validation : Validation
  nextRequestId : ℤ
  requests : HintedMap ℤ ℕ
  asyncRequests : HintedMap ℤ ℕ
  calls : List Call
  works : List Work
  /-- The requests accepted for dispatch, with their ids. -/
  accepted : List (ℤ × ℕ)

inductive DestructionReason where
  | objectAdapterDeactivated
  | communicatorDestroyed
  deriving DecidableEq

namespace Connection

/-- A new connection. -/
def start (datagram warn active : Bool) : Connection where
  toLink := .start datagram warn
  active := active
  validation := .pending
  nextRequestId := 1
  requests := ∅
  asyncRequests := ∅
  calls := []
  works := []
  accepted := []

/-- A section that works on the link only. -/
def onLink (c : Connection) (r : Except ConnectionAssertion Link) :
    Except ConnectionAssertion Connection :=
  r.map fun l => { c with toLink := l }

/-- A caller goes on. -/
def callGoes (c : Connection) (i : ℕ) (progress : Progress) : Connection :=
  { c with calls := c.calls.modify i fun x => { x with progress := progress } }

/-- A dispatch goes on. -/
def workGoes (c : Connection) (i : ℕ) (phase : Phase) : Connection :=
  { c with works := c.works.modify i fun w => { w with phase := phase } }

/-- Fewer requests count as being dispatched. -/
def workEnds (c : Connection) (i n : ℕ) : Connection :=
  { c with
    dispatchCount := c.dispatchCount - n
    works := c.works.modify i fun w => { w with invokeNum := w.invokeNum - n, phase := .invoking } }

/-! ### Validation -/

/-- The first section of `validate`. -/
def validateCheck (c : Connection) : Except ConnectionAssertion Connection :=
  if c.datagram then .ok { c with validation := .confirmed }
  else if c.state = .closed then
    if c.exception = none then .error .hasException else .ok { c with validation := .over }
  else if c.state ≠ .notValidated then .error .isValidated
  else .ok { c with validation := .checked }

/-- The side with the active role for connection validation sends. -/
def validateSend (c : Connection) (failure : Option LocalException) :
    Except ConnectionAssertion Connection :=
  if ¬ c.transceiver then
    match c.exception with
    | none => .error .hasException
    | some ex => .ok { c with validation := .failed ex }
  else
    let (l, failed) := c.toLink.write .validateConnection failure
    .ok { c with
      toLink := l
      validation := match failed with
        | none => .confirmed
        | some ex => .failed (if ex = .timeout then .connectTimeout else ex) }

/-- The other side receives. -/
def validateRead (c : Connection) (m : Message) (failure : Option LocalException) :
    Except ConnectionAssertion Connection :=
  if ¬ c.transceiver then .error .hasTransceiver
  else .ok { c with
    validation := match failure with
      | some ex => .failed (if ex = .timeout then .connectTimeout else ex)
      | none => if m = .validateConnection then .confirmed else .failed .connectionNotValidated }

/-- `validate` has failed. -/
def validateFailed (c : Connection) (ex : LocalException) :
    Except ConnectionAssertion Connection :=
  (c.toLink.fail ex).bind fun l =>
    if l.exception = none then .error .hasException
    else .ok { c with toLink := l, validation := .over }

/-- We start out in holding state. -/
def validated (c : Connection) : Except ConnectionAssertion Connection :=
  (c.toLink.setState .holding none).map fun l => { c with toLink := l, validation := .over }

/-! ### Sending requests -/

/-- `n + 1` in an `Int`. -/
def succInt (n : ℤ) : ℤ := if n = 2 ^ 31 - 1 then -2 ^ 31 else n + 1

/-- A new unique request id, and the next one. -/
def newRequestId (c : Connection) : ℤ × ℤ :=
  if c.nextRequestId ≤ 0 then (1, 2) else (c.nextRequestId, succInt c.nextRequestId)

/-- The first section of `sendRequest` and of `sendAsyncRequest`. -/
def sendRequest (c : Connection) (kind : CallKind) : Except ConnectionAssertion Connection :=
  match c.exception with
  | some ex => .ok { c with calls := c.calls ++ [⟨kind, 0, .over, [.thrown ⟨ex, true⟩]⟩] }
  | none =>
      if c.state = .notValidated then .error .isValidated
      else if c.state.Ended then .error .beforeClosing
      else
        let (requestId, next) := c.newRequestId
        match kind with
        | .oneway => .ok { c with calls := c.calls ++ [⟨kind, 0, .sending, []⟩] }
        | .twoway => .ok { c with
            nextRequestId := next
            requests := c.requests.insert requestId c.calls.length
            calls := c.calls ++ [⟨kind, requestId, .sending, []⟩] }
        | .async => .ok { c with
            nextRequestId := next
            asyncRequests := c.asyncRequests.insert requestId c.calls.length
            calls := c.calls ++ [⟨kind, requestId, .sending, []⟩] }

/-- The attempt to write request `i`. -/
def send (c : Connection) (i : ℕ) (requestId : ℤ) (failure : Option LocalException) :
    Except ConnectionAssertion Connection :=
  if ¬ c.transceiver then
    match c.exception with
    | none => .error .hasException
    | some ex => .ok (c.callGoes i (.failed ex))
  else
    let (l, failed) := c.toLink.write (.request requestId i) failure
    .ok ({ c with toLink := l }.callGoes i (match failed with
      | none => .over
      | some ex => .failed ex))

/-- The map in which a request waits. -/
def waiting (c : Connection) : CallKind → HintedMap ℤ ℕ
  | .oneway => ∅
  | .twoway => c.requests
  | .async => c.asyncRequests

/-- Without the entry for a request. -/
def eraseRequest (c : Connection) (kind : CallKind) (requestId : ℤ) : Connection :=
  match kind with
  | .oneway => c
  | .twoway => { c with requests := c.requests.erase requestId }
  | .async => { c with asyncRequests := c.asyncRequests.erase requestId }

/-- The attempt to write request `i` has failed. If the request has already been removed
from its map, its caller was told by `finished`. -/
def sendFailed (c : Connection) (i : ℕ) (kind : CallKind) (requestId : ℤ) (ex : LocalException) :
    Except ConnectionAssertion Connection :=
  (c.toLink.fail ex).bind fun l =>
    let c := { c with toLink := l }.callGoes i .over
    match l.exception with
    | none => .error .hasException
    | some ex =>
        if kind = .oneway then .ok { c with calls := complete c.calls (.thrown ⟨ex, false⟩) [i] }
        else if (c.waiting kind).Has requestId then
          .ok { c.eraseRequest kind requestId with
            calls := complete c.calls (.thrown ⟨ex, false⟩) [i] }
        else .ok c

/-! ### Receiving messages -/

/-- An exception in `parseMessage`. -/
def invalid (c : Connection) (ex : LocalException) : Except ConnectionAssertion Connection :=
  if c.datagram then
    .ok { c with
      warnings := if c.warn then c.warnings ++ [.datagramException ex] else c.warnings }
  else c.onLink (c.toLink.fail ex)

/-- The search for the caller that waits for a reply: first by the hints. -/
def findReply (c : Connection) (requestId : ℤ) : Option (CallKind × ℕ) :=
  if c.requests.hint = some requestId then (c.requests.find requestId).map (.twoway, ·)
  else if c.asyncRequests.hint = some requestId then
    (c.asyncRequests.find requestId).map (.async, ·)
  else match c.requests.find requestId with
    | some j => some (.twoway, j)
    | none => (c.asyncRequests.find requestId).map (.async, ·)

/-- `parseMessage`. With `unreadable`, unmarshaling throws. -/
def parseMessage (c : Connection) (m : Message) (unreadable : Bool) :
    Except ConnectionAssertion Connection :=
  if c.state = .notValidated ∨ c.state = .closed then .error .parsesInState
  else if unreadable then c.invalid .marshal
  else match m with
    | .closeConnection =>
        if c.datagram then
          .ok { c with warnings := if c.warn then c.warnings ++ [.datagramClose] else c.warnings }
        else c.onLink (c.toLink.fail .closeConnection)
    | .request requestId call =>
        if c.state = .closing then .ok c
        else .ok { c with
          dispatchCount := c.dispatchCount + 1
          works := c.works ++ [⟨requestId, 1, .invoking⟩]
          accepted := c.accepted ++ [(requestId, call)] }
    | .requestBatch invokeNum =>
        if c.state = .closing then .ok c
        else if invokeNum < 0 then c.invalid .negativeSize
        else .ok { c with
          dispatchCount := c.dispatchCount + invokeNum
          works := c.works ++ [⟨0, invokeNum.toNat, .invoking⟩] }
    | .reply requestId =>
        match c.findReply requestId with
        | none => c.invalid .unknownRequestId
        | some (kind, j) =>
            .ok { c.eraseRequest kind requestId with calls := complete c.calls .replied [j] }
    | .validateConnection =>
        .ok { c with
          warnings := if c.warn then c.warnings ++ [.unexpectedValidate] else c.warnings }
    | .other => c.invalid .unknownMessage

/-- `message` -/
def message (c : Connection) (m : Message) (unreadable : Bool) :
    Except ConnectionAssertion Connection :=
  if c.state = .closed then .ok c else c.parseMessage m unreadable

/-- `finished`. Once the connection has begun to close, every caller that still waits is
told why. -/
def finished (c : Connection) : Except ConnectionAssertion Connection :=
  c.toLink.finished.bind fun l =>
    let c := { c with toLink := l }
    if l.state.Ended then
      let waiting := (c.requests.entries ++ c.asyncRequests.entries).map Prod.snd
      match l.exception with
      | some ex => .ok { c with
          requests := ∅, asyncRequests := ∅, calls := complete c.calls (.raised ex) waiting }
      | none => if waiting = [] then .ok c else .error .hasException
    else .ok c

/-! ### Dispatching requests -/

/-- A response is expected. -/
def Response (c : Connection) (w : Work) : Prop := c.datagram = false ∧ w.requestId ≠ 0

instance (c : Connection) (w : Work) : Decidable (c.Response w) :=
  inferInstanceAs (Decidable (_ ∧ _))

/-- The attempt of `sendResponse` to write the reply. -/
def respond (c : Connection) (i : ℕ) (w : Work) (failure : Option LocalException) :
    Except ConnectionAssertion Connection :=
  if w.invokeNum ≠ 1 then .error .oneInvocation
  else if ¬ c.transceiver then
    match c.exception with
    | none => .error .hasException
    | some ex => .ok (c.workGoes i (.unsent ex))
  else
    let (l, failed) := c.toLink.write (.reply w.requestId) failure
    .ok ({ c with toLink := l }.workGoes i (match failed with
      | none => .answered
      | some ex => .unsent ex))

/-- The last section of `sendResponse`, and `sendNoResponse`. -/
def responded (c : Connection) (i : ℕ) (failure : Option LocalException) :
    Except ConnectionAssertion Connection :=
  if c.state = .notValidated then .error .isValidated
  else
    let c := c.workEnds i 1
    c.onLink (c.toLink.shutdownIfIdle failure)

/-- The last section of `invokeAll`, after `invoke` has thrown. -/
def settle (c : Connection) (i : ℕ) (w : Work) : Except ConnectionAssertion Connection :=
  if ¬ 0 < c.dispatchCount then .error .dispatchPos
  else if ¬ 0 ≤ c.dispatchCount - w.invokeNum then .error .dispatchNonneg
  else .ok (c.workEnds i w.invokeNum)

end Connection

/-! ## The steps -/

/-- An exception of the network, or of a dispatch. Closing gracefully is not one. -/
abbrev Failure := { ex : LocalException // ex ≠ .closeConnection }

def DestructionReason.exception : DestructionReason → LocalException
  | objectAdapterDeactivated => .objectAdapterDeactivated
  | communicatorDestroyed => .communicatorDestroyed

/-- What can happen to a connection. Where something is written, `failure` says how that
fails, if it does. -/
inductive ConnectionEvent where
  | validateCheck
  | validateSend (failure : Option Failure)
  | validateRead (m : Message) (failure : Option Failure)
  | validateFailed
  | validated
  | activate
  | hold
  | destroy (reason : DestructionReason) (failure : Option Failure)
  | close (force : Bool) (failure : Option Failure)
  /-- `exception`, which callers use that have waited too long, and the pool. -/
  | exception (ex : Failure)
  /-- `waitUntilFinished` has waited too long. -/
  | closeTimeout
  /-- `monitor` finds an asynchronous request that has waited too long. -/
  | requestTimeout
  /-- `monitor` finds the connection idle. -/
  | idleTimeout (failure : Option Failure)
  | message (m : Message) (unreadable : Bool)
  | finished
  | sendRequest (kind : CallKind)
  | send (i : ℕ) (failure : Option Failure)
  | sendFailed (i : ℕ)
  | respond (i : ℕ) (failure : Option Failure)
  | respondFailed (i : ℕ)
  | responded (i : ℕ) (failure : Option Failure)
  /-- `sendNoResponse` -/
  | noResponse (i : ℕ) (failure : Option Failure)
  /-- `invoke` throws. -/
  | broken (i : ℕ) (ex : Failure)
  | settle (i : ℕ)

namespace Connection

/-- Others than the thread that validates the connection know it. -/
def Published (c : Connection) : Prop := c.active = true ∨ c.validation = .over

instance (c : Connection) : Decidable c.Published := inferInstanceAs (Decidable (_ ∨ _))

/-- No callers wait for a reply. -/
def NoRequests (c : Connection) : Prop :=
  c.requests.entries = [] ∧ c.asyncRequests.entries = []

instance (c : Connection) : Decidable c.NoRequests :=
  have h (es : List (ℤ × ℕ)) : Decidable (es = []) := decidable_of_iff _ List.isEmpty_iff
  have := h c.requests.entries
  have := h c.asyncRequests.entries
  inferInstanceAs (Decidable (_ ∧ _))

/-- One step of a connection; `none` when it is not possible. Beside what the code waits
for, that is what the pool promises: it reads from a connection that was registered, and
has finished with a registration once for each `unregister`. -/
def step (c : Connection) : ConnectionEvent → Option (Except ConnectionAssertion Connection)
  | .validateCheck => if c.validation = .pending then some c.validateCheck else none
  | .validateSend failure =>
      if c.validation = .checked ∧ c.active = true then
        some (c.validateSend (failure.map Subtype.val))
      else none
  | .validateRead m failure =>
      if c.validation = .checked ∧ c.active = false then
        some (c.validateRead m (failure.map Subtype.val))
      else none
  | .validateFailed =>
      match c.validation with
      | .failed ex => some (c.validateFailed ex)
      | _ => none
  | .validated => if c.validation = .confirmed then some c.validated else none
  | .activate =>
      if c.state ≠ .notValidated ∧ c.Published then
        some (c.onLink (c.toLink.setState .active none))
      else none
  | .hold =>
      if c.state ≠ .notValidated ∧ c.Published then
        some (c.onLink (c.toLink.setState .holding none))
      else none
  | .destroy reason failure =>
      if c.Published then
        some (c.onLink
          (c.toLink.setStateWith .closing reason.exception (failure.map Subtype.val)))
      else none
  | .close true failure =>
      if c.Published then
        some (c.onLink
          (c.toLink.setStateWith .closed .forcedCloseConnection (failure.map Subtype.val)))
      else none
  | .close false failure =>
      if c.Published ∧ c.NoRequests then
        some (c.onLink
          (c.toLink.setStateWith .closing .closeConnection (failure.map Subtype.val)))
      else none
  | .exception ex => if c.Published then some (c.onLink (c.toLink.fail ex)) else none
  | .closeTimeout =>
      if c.state = .closing ∧ c.dispatchCount = 0 then
        some (c.onLink (c.toLink.fail .closeTimeout))
      else none
  | .requestTimeout =>
      if c.state = .active ∧ c.asyncRequests.entries.isEmpty = false then
        some (c.onLink (c.toLink.fail .timeout))
      else none
  | .idleTimeout failure =>
      if c.state = .active ∧ c.NoRequests ∧ c.dispatchCount = 0 then
        some (c.onLink
          (c.toLink.setStateWith .closing .connectionTimeout (failure.map Subtype.val)))
      else none
  | .message m unreadable =>
      if c.state ≠ .notValidated then some (c.message m unreadable) else none
  | .finished => if 0 < c.finishedCount then some c.finished else none
  | .sendRequest kind =>
      if c.validation = .over ∧ (c.datagram = true → kind = .oneway) then some (c.sendRequest kind)
      else none
  | .send i failure =>
      match c.calls[i]? with
      | some ⟨_, requestId, .sending, _⟩ => some (c.send i requestId (failure.map Subtype.val))
      | _ => none
  | .sendFailed i =>
      match c.calls[i]? with
      | some ⟨kind, requestId, .failed ex, _⟩ => some (c.sendFailed i kind requestId ex)
      | _ => none
  | .respond i failure =>
      match c.works[i]? with
      | some w =>
          if w.phase = .invoking ∧ 0 < w.invokeNum ∧ c.Response w then
            some (c.respond i w (failure.map Subtype.val))
          else none
      | none => none
  | .respondFailed i =>
      match c.works[i]? with
      | some ⟨_, _, .unsent ex⟩ =>
          some ((c.workGoes i .answered).onLink (c.toLink.fail ex))
      | _ => none
  | .responded i failure =>
      match c.works[i]? with
      | some ⟨_, _, .answered⟩ => some (c.responded i (failure.map Subtype.val))
      | _ => none
  | .noResponse i failure =>
      match c.works[i]? with
      | some w =>
          if w.phase = .invoking ∧ 0 < w.invokeNum ∧ ¬ c.Response w then
            some (c.responded i (failure.map Subtype.val))
          else none
      | none => none
  | .broken i ex =>
      match c.works[i]? with
      | some w =>
          if w.phase = .invoking ∧ 0 < w.invokeNum then
            some ((c.workGoes i .broken).onLink (c.toLink.fail ex))
          else none
      | none => none
  | .settle i =>
      match c.works[i]? with
      | some ⟨requestId, invokeNum, .broken⟩ => some (c.settle i ⟨requestId, invokeNum, .broken⟩)
      | _ => none

/-- The connection after an event, if it is possible and no assertion fails. -/
def next (c : Connection) (e : ConnectionEvent) : Option Connection :=
  (c.step e).bind Except.toOption

end Connection

end IceSerialPort.Ice
