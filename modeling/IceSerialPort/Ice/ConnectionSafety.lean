import IceSerialPort.Ice.Connection
import IceSerialPort.Lib.Counting

/-!
# What the sections of a connection do

However the threads that use a connection take turns, the assertions of `ConnectionI.cpp`
hold. What a section can do is said once, by the relation `Effect`; everything else that
is known of a connection is derived from it.

## Main definitions

* `Connection.Sound`: what holds of a connection whenever its mutex is free.
* `Effect`: what a section can do.

## Main results

* `step_effect`: no section of a sound connection fails, and each has an effect.
* `sound_effect`: an effect keeps a connection sound.
* `run_sound`: so it is sound after any run.
-/

namespace IceSerialPort.Ice

open Transition

/-- A reply is for one request, and a thread that has left `invoke` has not been counted
out yet. -/
def Work.Fits (w : Work) : Prop :=
  (w.requestId ≠ 0 → w.invokeNum ≤ 1) ∧ (w.phase ≠ .invoking → 0 < w.invokeNum)

/-- How far `validate` has come, in terms of the state. Nobody else knows a connection
that is not active before it is over. -/
def Validation.Fits (validation : Validation) (state : ConnectionState) (active : Bool) : Prop :=
  if validation = .over then state ≠ .notValidated
  else (state = .notValidated ∨ state = .closed) ∧ (active = false → state = .notValidated)

namespace Connection

/-- A caller waits for the reply to a request. -/
def Waits (c : Connection) (requestId : ℤ) (j : ℕ) : Prop :=
  (requestId, j) ∈ c.requests.entries ∨ (requestId, j) ∈ c.asyncRequests.entries

/-- An exception that a thread was thrown and is about to end the connection with. -/
def Pending (c : Connection) (ex : LocalException) : Prop :=
  c.validation = .failed ex ∨ (∃ x ∈ c.calls, x.progress = .failed ex) ∨
    ∃ w ∈ c.works, w.phase = .unsent ex

/-- What holds of a connection whenever its mutex is free. -/
structure Sound (c : Connection) : Prop where
  link : c.toLink.Sound
  count : c.dispatchCount = ((c.works.map Work.invokeNum).sum : ℕ)
  fits : ∀ w ∈ c.works, w.Fits
  validated : c.state = .notValidated → c.works = [] ∧ c.calls = []
  validating : c.validation.Fits c.state c.active
  datagram : c.datagram = true → c.NoRequests
  pending : c.Pending .closeConnection → c.exception.isSome = true

theorem sound_start (datagram warn active : Bool) : (start datagram warn active).Sound where
  link := Link.sound_start datagram warn
  count := rfl
  fits := by simp [start]
  validated := by simp [start]
  validating := by simp [start, Validation.Fits, Link.start]
  datagram := by simp [start, NoRequests]
  pending := by simp [start, Pending]

/-- Where a link gets its exception from. Only a close connection message makes a caller
believe that its request was not dispatched, or a graceful shutdown when nobody waits. -/
def Because (c : Connection) (e : ConnectionEvent) (exception : Option LocalException) : Prop :=
  ∀ ex, exception = some ex → c.exception = some ex ∨
    (c.exception = none ∧ (ex = .closeConnection →
      (∃ unreadable, e = .message .closeConnection unreadable) ∨ c.NoRequests))

/-- What a section can do. -/
inductive Effect (c : Connection) : ConnectionEvent → Connection → Prop where
  /-- The state changes, or nothing does. A reply that has no effect was for nobody, or the
  connection ends. -/
  | link {e : ConnectionEvent} {l : Link} (validation : Validation) (hl : l.Sound)
      (hsw : Link.Switched c.toLink l) (hfits : validation.Fits l.state c.active)
      (hpending : validation = .failed .closeConnection → l.exception.isSome = true)
      (hbecause : c.Because e l.exception)
      (hreply : ∀ requestId unreadable, e = .message (.reply requestId) unreadable →
        l.exception.isSome = true ∨ ∀ j, ¬ c.Waits requestId j) :
      Effect c e { c with toLink := l, validation := validation }
  | validate (failure : Option Failure) (hstate : c.state = .notValidated) :
      Effect c (.validateSend failure)
        { c with written := c.written ++ [.validateConnection], validation := .confirmed }
  | accept (requestId : ℤ) (call : ℕ) (hval : c.state ≠ .notValidated)
      (hended : ¬ c.state.Ended) :
      Effect c (.message (.request requestId call) false) { c with
        dispatchCount := c.dispatchCount + 1
        works := c.works ++ [⟨requestId, 1, .invoking⟩]
        accepted := c.accepted ++ [(requestId, call)] }
  | acceptBatch (invokeNum : ℕ) (hval : c.state ≠ .notValidated) (hended : ¬ c.state.Ended) :
      Effect c (.message (.requestBatch invokeNum) false) { c with
        dispatchCount := c.dispatchCount + invokeNum
        works := c.works ++ [⟨0, invokeNum, .invoking⟩] }
  | reply (requestId : ℤ) (kind : CallKind) (j : ℕ)
      (hwaits : (requestId, j) ∈ (c.waiting kind).entries) :
      Effect c (.message (.reply requestId) false)
        { c.eraseRequest kind requestId with calls := complete c.calls .replied [j] }
  | raise {l : Link} (ex : LocalException) (hl : l.Sound) (hkept : Link.Kept c.toLink l)
      (hex : c.exception = some ex) (hsame : l.exception = some ex) (hstate : l.state = c.state) :
      Effect c .finished { c with
        toLink := l
        requests := ∅
        asyncRequests := ∅
        calls := complete c.calls (.raised ex)
          ((c.requests.entries ++ c.asyncRequests.entries).map Prod.snd) }
  | refuse (kind : CallKind) (ex : LocalException) (hex : c.exception = some ex) :
      Effect c (.sendRequest kind)
        { c with calls := c.calls ++ [⟨kind, 0, .over, [.thrown ⟨ex, true⟩]⟩] }
  | beginOneway (hval : c.state ≠ .notValidated) :
      Effect c (.sendRequest .oneway) { c with calls := c.calls ++ [⟨.oneway, 0, .sending, []⟩] }
  | beginTwoway (hex : c.exception = none) (hval : c.state ≠ .notValidated)
      (hdatagram : c.datagram = false) :
      Effect c (.sendRequest .twoway) { c with
        nextRequestId := c.newRequestId.2
        requests := c.requests.insert c.newRequestId.1 c.calls.length
        calls := c.calls ++ [⟨.twoway, c.newRequestId.1, .sending, []⟩] }
  | beginAsync (hex : c.exception = none) (hval : c.state ≠ .notValidated)
      (hdatagram : c.datagram = false) :
      Effect c (.sendRequest .async) { c with
        nextRequestId := c.newRequestId.2
        asyncRequests := c.asyncRequests.insert c.newRequestId.1 c.calls.length
        calls := c.calls ++ [⟨.async, c.newRequestId.1, .sending, []⟩] }
  | sent (i : ℕ) (failure : Option Failure) (x : Call) (hx : c.calls[i]? = some x)
      (hsending : x.progress = .sending) :
      Effect c (.send i failure)
        ({ c with written := c.written ++ [Message.request x.requestId i] }.callGoes i .over)
  | unsent (i : ℕ) (failure : Option Failure) (x : Call) (hx : c.calls[i]? = some x)
      (hsending : x.progress = .sending) (ex : LocalException)
      (hpending : ex = .closeConnection → c.exception.isSome = true) :
      Effect c (.send i failure) (c.callGoes i (.failed ex))
  /-- The caller was told by `finished`. -/
  | giveUp (i : ℕ) {l : Link} (x : Call) (hx : c.calls[i]? = some x) (ex : LocalException)
      (hfailed : x.progress = .failed ex) (hl : l.Sound) (hsw : Link.Switched c.toLink l)
      (hclosed : l.state = .closed) (hbecause : c.Because (.sendFailed i) l.exception)
      (hnone : ¬ (c.waiting x.kind).Has x.requestId) :
      Effect c (.sendFailed i) ({ c with toLink := l }.callGoes i .over)
  | throw (i : ℕ) {l : Link} (x : Call) (hx : c.calls[i]? = some x) (ex ex' : LocalException)
      (hfailed : x.progress = .failed ex) (hl : l.Sound) (hsw : Link.Switched c.toLink l)
      (hclosed : l.state = .closed) (hbecause : c.Because (.sendFailed i) l.exception)
      (hhas : x.kind = .oneway ∨ (c.waiting x.kind).Has x.requestId) :
      Effect c (.sendFailed i)
        { ({ c with toLink := l }.callGoes i .over).eraseRequest x.kind x.requestId with
          calls := complete (c.callGoes i .over).calls (.thrown ⟨ex', false⟩) [i] }
  | answer (i : ℕ) (failure : Option Failure) (w : Work) (hw : c.works[i]? = some w)
      (hone : w.invokeNum = 1) (hresponse : c.Response w) (hopen : c.state ≠ .closed) :
      Effect c (.respond i failure)
        ({ c with written := c.written ++ [Message.reply w.requestId] }.workGoes i .answered)
  | unanswered (i : ℕ) (failure : Option Failure) (w : Work) (hw : c.works[i]? = some w)
      (hone : w.invokeNum = 1) (ex : LocalException)
      (hpending : ex = .closeConnection → c.exception.isSome = true) :
      Effect c (.respond i failure) (c.workGoes i (.unsent ex))
  /-- A dispatch ends the connection. -/
  | breakOff {e : ConnectionEvent} (i : ℕ) {l : Link} (w : Work) (hw : c.works[i]? = some w)
      (hpos : 0 < w.invokeNum) (phase : Phase) (hphase : phase = .answered ∨ phase = .broken)
      (hl : l.Sound) (hsw : Link.Switched c.toLink l) (hclosed : l.state = .closed)
      (hbecause : c.Because e l.exception) (he : ∀ m unreadable, e ≠ .message m unreadable) :
      Effect c e ({ c with toLink := l }.workGoes i phase)
  | countOut {e : ConnectionEvent} (i n : ℕ) {l : Link} (w : Work) (hw : c.works[i]? = some w)
      (hn : n ≤ w.invokeNum) (hpos : 0 < w.invokeNum)
      (hphase : w.phase = .answered ∨ w.phase = .broken ∨ ¬ c.Response w) (hl : l.Sound)
      (hsw : Link.Switched (c.workEnds i n).toLink l) (hex : l.exception = c.exception)
      (he : ∀ m unreadable, e ≠ .message m unreadable) :
      Effect c e { c.workEnds i n with toLink := l }

section Steps

variable {c : Connection}

/-! ## Every section has an effect -/

theorem because_same {e : ConnectionEvent} {exception : Option LocalException}
    (h : exception = c.exception) : c.Because e exception :=
  fun _ hex => Or.inl (h ▸ hex)

theorem because_getD {e : ConnectionEvent} {exception : Option LocalException}
    {ex : LocalException} (h : exception = some (c.exception.getD ex))
    (hclose : ex = .closeConnection → c.exception.isSome = true ∨
      (∃ unreadable, e = .message .closeConnection unreadable) ∨ c.NoRequests) :
    c.Because e exception := by
  intro ex' hex'
  rw [h, Option.some.injEq] at hex'
  cases hc : c.exception with
  | some ex'' =>
      left
      simpa [hc] using hex'
  | none =>
      right
      obtain rfl : ex = ex' := by simpa [hc] using hex'
      exact ⟨rfl, fun heq => (hclose heq).resolve_left (by simp [hc])⟩

/-- Validation goes as far as the state, also when the state changes. -/
theorem fits_of_switched (h : c.Sound) {l : Link} (hsw : Link.Switched c.toLink l)
    (hskip : c.state = .notValidated →
      l.state = .notValidated ∨ (l.state = .closed ∧ c.Published)) :
    c.validation.Fits l.state c.active := by
  have hfits := h.validating
  unfold Validation.Fits at hfits ⊢
  split
  · next hover =>
    rw [if_pos hover] at hfits
    exact hsw.validated hfits
  · next hover =>
    rw [if_neg hover] at hfits
    obtain ⟨hstate, hactive⟩ := hfits
    rcases hstate with hstate | hstate
    · rcases hskip hstate with hsame | ⟨hclosed, hpub⟩
      · exact ⟨Or.inl hsame, fun _ => hsame⟩
      · refine ⟨Or.inr hclosed, fun hpassive => ?_⟩
        rcases hpub with hpub | hpub
        · rw [hpub] at hpassive
          exact absurd hpassive (by simp)
        · exact absurd hpub hover
    · refine ⟨Or.inr (hsw.closed hstate), fun hpassive => ?_⟩
      rw [hactive hpassive] at hstate
      exact absurd hstate (by simp)

/-- A section that works on the link only, and is not about a reply. -/
theorem effect_onLink (h : c.Sound) {e : ConnectionEvent} {r : Except ConnectionAssertion Link}
    {l : Link} (hr : r = .ok l) (hl : l.Sound) (hsw : Link.Switched c.toLink l)
    (hskip : c.state = .notValidated → l.state = .notValidated ∨ (l.state = .closed ∧ c.Published))
    (hbecause : c.Because e l.exception)
    (hreply : ∀ requestId unreadable, e = .message (.reply requestId) unreadable →
      l.exception.isSome = true ∨ ∀ j, ¬ c.Waits requestId j) :
    ∃ c', c.onLink r = .ok c' ∧ Effect c e c' := by
  refine ⟨{ c with toLink := l }, by rw [onLink, hr]; rfl, ?_⟩
  refine Effect.link c.validation hl hsw (fits_of_switched h hsw hskip) ?_ hbecause hreply
  intro hfailed
  obtain ⟨ex, hex⟩ := Option.isSome_iff_exists.mp (h.pending (Or.inl hfailed))
  rw [hsw.exception ex hex]
  rfl

/-- Nothing happens. -/
theorem effect_refl (h : c.Sound) {e : ConnectionEvent}
    (hreply : ∀ requestId unreadable, e = .message (.reply requestId) unreadable →
      c.exception.isSome = true ∨ ∀ j, ¬ c.Waits requestId j) : Effect c e c :=
  Effect.link (l := c.toLink) c.validation h.link (.refl _) h.validating
    (fun hfailed => h.pending (Or.inl hfailed)) (because_same rfl) hreply

/-- The connection is closed with an exception. -/
theorem effect_fail (h : c.Sound) {e : ConnectionEvent} (ex : LocalException)
    (hpub : c.state = .notValidated → c.Published)
    (hclose : ex = .closeConnection → c.exception.isSome = true ∨
      (∃ unreadable, e = .message .closeConnection unreadable) ∨ c.NoRequests) :
    ∃ c', c.onLink (c.toLink.fail ex) = .ok c' ∧ Effect c e c' := by
  obtain ⟨l, hl, hsound, hstate, hex, -, hsw⟩ := Link.fail_spec h.link ex
  exact effect_onLink h hl hsound hsw (fun hval => Or.inr ⟨hstate, hpub hval⟩)
    (because_getD hex hclose) fun _ _ _ => Or.inl (by simp [hex])

/-- The connection begins to close with an exception. -/
theorem effect_setStateWith (h : c.Sound) {e : ConnectionEvent} {state : ConnectionState}
    (hended : state.Ended) (ex : LocalException) (failure : Option LocalException)
    (hpub : c.state = .notValidated → c.Published)
    (hclose : ex = .closeConnection → c.exception.isSome = true ∨
      (∃ unreadable, e = .message .closeConnection unreadable) ∨ c.NoRequests) :
    ∃ c', c.onLink (c.toLink.setStateWith state ex failure) = .ok c' ∧ Effect c e c' := by
  obtain ⟨l, hl, hsound, -, hex, hskip, hsw⟩ := Link.setStateWith_spec h.link hended ex failure
  exact effect_onLink h hl hsound hsw (fun hval => Or.inr ⟨hskip hval, hpub hval⟩)
    (because_getD hex hclose) fun _ _ _ => Or.inl (by simp [hex])

/-- Active and holding are for validated connections. -/
theorem effect_setState (h : c.Sound) {e : ConnectionEvent} {state : ConnectionState}
    (hstate : state = .active ∨ state = .holding) (hval : c.state ≠ .notValidated)
    (he : ∀ m unreadable, e ≠ .message m unreadable) :
    ∃ c', c.onLink (c.toLink.setState state none) = .ok c' ∧ Effect c e c' := by
  obtain ⟨l, hl, hsound, hex, -, hsw⟩ := Link.setState_spec h.link hstate none
  exact effect_onLink h hl hsound hsw (fun hv => absurd hv hval) (because_same hex)
    fun _ _ heq => absurd heq (he _ _)

/-! ### Validation -/

theorem effect_validateCheck (h : c.Sound) (hpending : c.validation = .pending) :
    ∃ c', c.validateCheck = .ok c' ∧ Effect c .validateCheck c' := by
  have hfits := h.validating
  rw [Validation.Fits, if_neg (by simp [hpending])] at hfits
  have hlink (validation : Validation) (hv : validation.Fits c.state c.active)
      (hne : validation ≠ .failed .closeConnection) :
      Effect c .validateCheck { c with validation := validation } :=
    Effect.link (l := c.toLink) validation h.link (.refl _) hv (fun hf => absurd hf hne)
      (because_same rfl) (by simp)
  rw [validateCheck]
  split
  · exact ⟨_, rfl, hlink .confirmed (by simpa [Validation.Fits] using hfits) (by simp)⟩
  split
  · next hclosed =>
    have hex : c.exception ≠ none :=
      Option.isSome_iff_ne_none.mp (h.link.exception.mpr (Or.inr hclosed))
    rw [if_neg hex]
    exact ⟨_, rfl, hlink .over (by simp [Validation.Fits, hclosed]) (by simp)⟩
  · next hclosed =>
    rw [if_neg (not_not.mpr (hfits.1.resolve_right hclosed))]
    exact ⟨_, rfl, hlink .checked (by simpa [Validation.Fits] using hfits) (by simp)⟩

/-- What the network throws is not what a close connection message does. -/
theorem failure_ne {failure : Option Failure} {ex : LocalException}
    (h : failure.map Subtype.val = some ex) : ex ≠ .closeConnection := by
  obtain ⟨⟨ex', hne⟩, -, rfl⟩ := Option.map_eq_some_iff.mp h
  exact hne

theorem effect_validateSend (h : c.Sound) (hchecked : c.validation = .checked)
    (failure : Option Failure) :
    ∃ c', c.validateSend (failure.map Subtype.val) = .ok c' ∧
      Effect c (.validateSend failure) c' := by
  have hfits := h.validating
  rw [Validation.Fits, if_neg (by simp [hchecked])] at hfits
  have hfailed (ex : LocalException) (hne : ex = .closeConnection → c.exception.isSome = true) :
      Effect c (.validateSend failure) { c with validation := .failed ex } := by
    refine Effect.link (l := c.toLink) _ h.link (.refl _) ?_ ?_ (because_same rfl) (by simp)
    · simpa [Validation.Fits] using hfits
    · rintro ⟨⟩
      exact hne rfl
  rw [validateSend]
  split
  · next htrans =>
    have hclosed : c.state = .closed := by
      by_contra hopen
      exact htrans (h.link.transceiver.mpr fun hc => absurd hc hopen)
    obtain ⟨ex, hex⟩ := Option.isSome_iff_exists.mp (h.link.exception.mpr (Or.inr hclosed))
    simp only [hex]
    exact ⟨_, rfl, hfailed ex fun _ => by simp [hex]⟩
  · cases hf : failure.map Subtype.val with
    | some ex =>
        refine ⟨_, rfl, hfailed _ fun heq => ?_⟩
        split at heq
        · exact absurd heq (by simp)
        · exact absurd heq (failure_ne hf)
    | none =>
        by_cases hclosed : c.state = .closed
        · refine ⟨_, by simp [Link.write, hclosed], hfailed .socket (by simp)⟩
        · exact ⟨_, by simp [Link.write, hclosed],
            .validate failure (hfits.1.resolve_right hclosed)⟩

theorem effect_validateRead (h : c.Sound) (hchecked : c.validation = .checked)
    (hpassive : c.active = false) (m : Message) (failure : Option Failure) :
    ∃ c', c.validateRead m (failure.map Subtype.val) = .ok c' ∧
      Effect c (.validateRead m failure) c' := by
  have hfits := h.validating
  rw [Validation.Fits, if_neg (by simp [hchecked])] at hfits
  have hstate := hfits.2 hpassive
  have htrans : c.transceiver = true := h.link.transceiver.mpr (by simp [hstate])
  have hlink (validation : Validation) (hover : validation ≠ .over)
      (hne : validation ≠ .failed .closeConnection) :
      Effect c (.validateRead m failure) { c with validation := validation } :=
    Effect.link (l := c.toLink) validation h.link (.refl _)
      (by rw [Validation.Fits, if_neg hover]; exact hfits) (fun hf => absurd hf hne)
      (because_same rfl) (by simp)
  cases hf : failure.map Subtype.val with
  | some ex =>
      refine ⟨_, by simp [validateRead, htrans]; rfl, hlink _ (by simp) ?_⟩
      have hne := failure_ne hf
      split <;> simp [hne]
  | none =>
      refine ⟨_, by simp [validateRead, htrans]; rfl, hlink _ ?_ ?_⟩
      · split <;> simp
      · split <;> simp

theorem effect_validateFailed (h : c.Sound) {ex : LocalException}
    (hfailed : c.validation = .failed ex) :
    ∃ c', c.validateFailed ex = .ok c' ∧ Effect c .validateFailed c' := by
  obtain ⟨l, hl, hsound, hstate, hex, -, hsw⟩ := Link.fail_spec h.link ex
  rw [validateFailed, hl]
  refine ⟨_, if_neg (by simp [hex]), Effect.link .over hsound hsw ?_ (by simp) ?_ (by simp)⟩
  · simp [Validation.Fits, hstate]
  · refine because_getD hex fun heq => Or.inl (h.pending (Or.inl ?_))
    rw [hfailed, heq]

theorem effect_validated (h : c.Sound) :
    ∃ c', c.validated = .ok c' ∧ Effect c .validated c' := by
  obtain ⟨l, hl, hsound, hex, hval, hsw⟩ := Link.setState_spec h.link (Or.inr rfl) none
  rw [validated, hl]
  refine ⟨_, rfl, Effect.link .over hsound hsw ?_ (by simp) (because_same hex) (by simp)⟩
  rw [Validation.Fits, if_pos rfl]
  exact hval

/-! ### Messages -/

theorem not_waits (h : c.NoRequests) (requestId : ℤ) (j : ℕ) : ¬ c.Waits requestId j := by
  simp [Waits, h.1, h.2]

/-- A warning, when nobody waits for a reply. -/
theorem effect_warn (h : c.Sound) {e : ConnectionEvent} (warnings : List ConnectionWarning)
    (hreply : ∀ requestId unreadable, e = .message (.reply requestId) unreadable →
      ∀ j, ¬ c.Waits requestId j) : Effect c e { c with warnings := warnings } :=
  Effect.link c.validation (h.link.with_warnings warnings) (Link.switched_warnings _ _) h.validating
    (fun hf => h.pending (Or.inl hf)) (because_same rfl) fun r u he => Or.inr (hreply r u he)

/-- An exception in `parseMessage`. -/
theorem effect_invalid (h : c.Sound) (hval : c.state ≠ .notValidated) {e : ConnectionEvent}
    {ex : LocalException} (hne : ex ≠ .closeConnection) :
    ∃ c', c.invalid ex = .ok c' ∧ Effect c e c' := by
  rw [invalid]
  split
  · next hdatagram =>
    exact ⟨_, rfl, effect_warn h _ fun r _ _ j => not_waits (h.datagram hdatagram) r j⟩
  · exact effect_fail h ex (fun hv => absurd hv hval) fun heq => absurd heq hne

/-- The hints do not change what is found. -/
theorem findReply_eq_some {requestId : ℤ} {kind : CallKind} {j : ℕ}
    (h : c.findReply requestId = some (kind, j)) :
    (requestId, j) ∈ (c.waiting kind).entries := by
  rw [findReply] at h
  split_ifs at h
  · obtain ⟨j, hj, heq⟩ := Option.map_eq_some_iff.mp h
    cases heq
    exact HintedMap.find_eq_some.mp hj
  · obtain ⟨j, hj, heq⟩ := Option.map_eq_some_iff.mp h
    cases heq
    exact HintedMap.find_eq_some.mp hj
  · cases hfind : c.requests.find requestId with
    | some j' =>
        rw [hfind] at h
        cases h
        exact HintedMap.find_eq_some.mp hfind
    | none =>
        rw [hfind] at h
        obtain ⟨j, hj, heq⟩ := Option.map_eq_some_iff.mp h
        cases heq
        exact HintedMap.find_eq_some.mp hj

/-- When nothing is found, there was nothing to find: a hint is worth following. -/
theorem findReply_eq_none {requestId : ℤ} (h : c.findReply requestId = none) (j : ℕ) :
    ¬ c.Waits requestId j := by
  rw [findReply] at h
  split_ifs at h with hhint hhint'
  · obtain ⟨j', hj'⟩ := HintedMap.isSome_of_hint hhint
    simp [hj'] at h
  · obtain ⟨j', hj'⟩ := HintedMap.isSome_of_hint hhint'
    simp [hj'] at h
  · cases hfind : c.requests.find requestId with
    | some j' => simp [hfind] at h
    | none =>
        rw [hfind] at h
        have hasync : c.asyncRequests.find requestId = none := Option.map_eq_none_iff.mp h
        rintro (hmem | hmem)
        · rw [← HintedMap.find_eq_some, hfind] at hmem
          exact absurd hmem (by simp)
        · rw [← HintedMap.find_eq_some, hasync] at hmem
          exact absurd hmem (by simp)

theorem effect_parseMessage (h : c.Sound) (hval : c.state ≠ .notValidated)
    (hclosed : c.state ≠ .closed) (m : Message) (unreadable : Bool) :
    ∃ c', c.parseMessage m unreadable = .ok c' ∧ Effect c (.message m unreadable) c' := by
  unfold parseMessage
  rw [if_neg (not_or.mpr ⟨hval, hclosed⟩)]
  cases unreadable with
  | true => exact effect_invalid h hval (by simp)
  | false =>
      rw [if_neg (by simp)]
      cases m with
      | closeConnection =>
          simp only
          split
          · exact ⟨_, rfl, effect_warn h _ (by simp)⟩
          · exact effect_fail h _ (fun hv => absurd hv hval) fun _ => Or.inr (Or.inl ⟨false, rfl⟩)
      | validateConnection => exact ⟨_, rfl, effect_warn h _ (by simp)⟩
      | other => exact effect_invalid h hval (by simp)
      | request requestId call =>
          simp only
          split
          · exact ⟨c, rfl, effect_refl h (by simp)⟩
          · next hclosing =>
            exact ⟨_, rfl, .accept requestId call hval (not_or.mpr ⟨hclosing, hclosed⟩)⟩
      | requestBatch invokeNum =>
          simp only
          split
          · exact ⟨c, rfl, effect_refl h (by simp)⟩
          · next hclosing =>
            split
            · exact effect_invalid h hval (by simp)
            · next hneg =>
              obtain ⟨n, rfl⟩ := Int.eq_ofNat_of_zero_le (Int.not_lt.mp hneg)
              exact ⟨_, rfl, .acceptBatch n hval (not_or.mpr ⟨hclosing, hclosed⟩)⟩
      | reply requestId =>
          simp only
          cases hfind : c.findReply requestId with
          | none => exact effect_invalid h hval (by simp)
          | some found =>
              obtain ⟨kind, j⟩ := found
              exact ⟨_, rfl, .reply requestId kind j (findReply_eq_some hfind)⟩

theorem effect_message (h : c.Sound) (hval : c.state ≠ .notValidated) (m : Message)
    (unreadable : Bool) :
    ∃ c', c.message m unreadable = .ok c' ∧ Effect c (.message m unreadable) c' := by
  rw [message]
  split
  · next hclosed =>
    exact ⟨c, rfl, effect_refl h fun _ _ _ => Or.inl (h.link.exception.mpr (Or.inr hclosed))⟩
  · next hclosed => exact effect_parseMessage h hval hclosed m unreadable

theorem effect_finished (h : c.Sound) (hpos : 0 < c.finishedCount) :
    ∃ c', c.finished = .ok c' ∧ Effect c .finished c' := by
  obtain ⟨l, hl, hsound, hstate, hex, -, htrans, hkept⟩ := Link.finished_spec h.link hpos
  rw [finished, hl]
  simp only [Except.bind]
  split
  · next hended =>
    obtain ⟨ex, hsome⟩ := Option.isSome_iff_exists.mp (hsound.exception.mpr hended)
    simp only [hsome]
    exact ⟨_, rfl, .raise ex hsound hkept (hex ▸ hsome) hsome hstate⟩
  · next hended =>
    have hsw : Link.Switched c.toLink l :=
      ⟨hkept, fun hnone => Or.inl ((htrans (hstate ▸ hended)).symm.trans hnone)⟩
    refine ⟨_, rfl, Effect.link c.validation hsound hsw ?_ ?_ (because_same hex) (by simp)⟩
    · rw [hstate]
      exact h.validating
    · exact fun hf => hex ▸ h.pending (Or.inl hf)

/-! ### Sending -/

theorem effect_sendRequest (h : c.Sound) (hover : c.validation = .over) {kind : CallKind}
    (hkind : c.datagram = true → kind = .oneway) :
    ∃ c', c.sendRequest kind = .ok c' ∧ Effect c (.sendRequest kind) c' := by
  rw [sendRequest]
  cases hex : c.exception with
  | some ex => exact ⟨_, rfl, .refuse kind ex hex⟩
  | none =>
      have hended : ¬ c.state.Ended := fun hend => by
        have := h.link.exception.mpr hend
        simp [hex] at this
      have hval : c.state ≠ .notValidated := by
        have hfits := h.validating
        rwa [Validation.Fits, if_pos hover] at hfits
      have hdatagram (hne : kind ≠ .oneway) : c.datagram = false := by
        cases hd : c.datagram with
        | false => rfl
        | true => exact absurd (hkind hd) hne
      simp only [if_neg hval, if_neg hended]
      cases kind with
      | oneway => exact ⟨_, rfl, .beginOneway hval⟩
      | twoway => exact ⟨_, rfl, .beginTwoway hex hval (hdatagram (by simp))⟩
      | async => exact ⟨_, rfl, .beginAsync hex hval (hdatagram (by simp))⟩

/-- A transceiver that is not there any more was closed with an exception. -/
theorem exists_exception (h : c.Sound) (htrans : ¬ c.transceiver = true) :
    ∃ ex, c.exception = some ex := by
  have hclosed : c.state = .closed := by
    by_contra hopen
    exact htrans (h.link.transceiver.mpr fun hc => absurd hc hopen)
  exact Option.isSome_iff_exists.mp (h.link.exception.mpr (Or.inr hclosed))

/-- An attempt to write: it succeeds on a link that is not closed, or fails. -/
theorem write_cases (l : Link) (m : Message) (failure : Option Failure) :
    (l.write m (failure.map Subtype.val) = ({ l with written := l.written ++ [m] }, none) ∧
        l.state ≠ .closed) ∨
      ∃ ex, ex ≠ .closeConnection ∧ l.write m (failure.map Subtype.val) = (l, some ex) := by
  cases hf : failure.map Subtype.val with
  | some ex => exact Or.inr ⟨ex, failure_ne hf, rfl⟩
  | none =>
      by_cases hclosed : l.state = .closed
      · exact Or.inr ⟨.socket, by simp, by simp [Link.write, hclosed]⟩
      · exact Or.inl ⟨by simp [Link.write, hclosed], hclosed⟩

theorem effect_send (h : c.Sound) {i : ℕ} {x : Call} (hx : c.calls[i]? = some x)
    (hsending : x.progress = .sending) (failure : Option Failure) :
    ∃ c', c.send i x.requestId (failure.map Subtype.val) = .ok c' ∧
      Effect c (.send i failure) c' := by
  rw [send]
  split
  · next htrans =>
    obtain ⟨ex, hex⟩ := exists_exception h htrans
    simp only [hex]
    exact ⟨_, rfl, .unsent i failure x hx hsending ex fun _ => by simp [hex]⟩
  · rcases write_cases c.toLink (.request x.requestId i) failure with
      ⟨hwrite, -⟩ | ⟨ex, hne, hwrite⟩
    · rw [hwrite]
      exact ⟨_, rfl, .sent i failure x hx hsending⟩
    · rw [hwrite]
      exact ⟨_, rfl, .unsent i failure x hx hsending ex fun heq => absurd heq hne⟩

theorem effect_sendFailed (h : c.Sound) {i : ℕ} {x : Call} {ex : LocalException}
    (hx : c.calls[i]? = some x) (hfailed : x.progress = .failed ex) :
    ∃ c', c.sendFailed i x.kind x.requestId ex = .ok c' ∧ Effect c (.sendFailed i) c' := by
  obtain ⟨l, hl, hsound, hclosed, hex, -, hsw⟩ := Link.fail_spec h.link ex
  have hbecause : c.Because (.sendFailed i) l.exception := by
    refine because_getD hex fun heq => Or.inl (h.pending (Or.inr (Or.inl ?_)))
    exact ⟨x, List.mem_of_getElem? hx, by rw [hfailed, heq]⟩
  rw [sendFailed, hl]
  simp only [Except.bind, hex]
  split
  · next hone =>
    refine ⟨_, rfl, ?_⟩
    have heffect := Effect.throw i x hx ex (c.exception.getD ex) hfailed hsound hsw hclosed hbecause
      (Or.inl hone)
    rw [hone] at heffect
    exact heffect
  split
  · next hone hhas =>
    exact ⟨_, rfl, .throw i x hx ex _ hfailed hsound hsw hclosed hbecause (Or.inr hhas)⟩
  · next hone hnone =>
    exact ⟨_, rfl, .giveUp i x hx ex hfailed hsound hsw hclosed hbecause hnone⟩

/-! ### Dispatching -/

/-- A thread that has not been counted out yet is counted. -/
theorem count_pos (h : c.Sound) {i : ℕ} {w : Work} (hw : c.works[i]? = some w)
    (hpos : 0 < w.invokeNum) : (w.invokeNum : ℤ) ≤ c.dispatchCount ∧ 0 < c.dispatchCount := by
  have hle : w.invokeNum ≤ (c.works.map Work.invokeNum).sum :=
    List.le_sum_of_mem (List.mem_map_of_mem (List.mem_of_getElem? hw))
  rw [h.count]
  omega

theorem effect_respond (h : c.Sound) {i : ℕ} {w : Work} (hw : c.works[i]? = some w)
    (hpos : 0 < w.invokeNum) (hresponse : c.Response w) (failure : Option Failure) :
    ∃ c', c.respond i w (failure.map Subtype.val) = .ok c' ∧ Effect c (.respond i failure) c' := by
  have hone : w.invokeNum = 1 := by
    have := (h.fits w (List.mem_of_getElem? hw)).1 hresponse.2
    omega
  rw [respond, if_neg (not_not.mpr hone)]
  split
  · next htrans =>
    obtain ⟨ex, hex⟩ := exists_exception h htrans
    simp only [hex]
    exact ⟨_, rfl, .unanswered i failure w hw hone ex fun _ => by simp [hex]⟩
  · rcases write_cases c.toLink (.reply w.requestId) failure with
      ⟨hwrite, hopen⟩ | ⟨ex, hne, hwrite⟩
    · rw [hwrite]
      exact ⟨_, rfl, .answer i failure w hw hone hresponse hopen⟩
    · rw [hwrite]
      exact ⟨_, rfl, .unanswered i failure w hw hone ex fun heq => absurd heq hne⟩

theorem effect_breakOff (h : c.Sound) {e : ConnectionEvent} {i : ℕ} {w : Work}
    (hw : c.works[i]? = some w) (hpos : 0 < w.invokeNum) {phase : Phase}
    (hphase : phase = .answered ∨ phase = .broken) {ex : LocalException}
    (hclose : ex = .closeConnection → c.exception.isSome = true)
    (he : ∀ m unreadable, e ≠ .message m unreadable) :
    ∃ c', (c.workGoes i phase).onLink (c.toLink.fail ex) = .ok c' ∧ Effect c e c' := by
  obtain ⟨l, hl, hsound, hclosed, hex, -, hsw⟩ := Link.fail_spec h.link ex
  have hbecause : c.Because e l.exception := because_getD hex fun heq => Or.inl (hclose heq)
  refine ⟨{ c with toLink := l }.workGoes i phase, by rw [onLink, hl]; rfl, ?_⟩
  exact .breakOff i w hw hpos phase hphase hsound hsw hclosed hbecause he

/-- Who dispatches a request, or sends one, does so on a validated connection. -/
theorem state_ne_of_works (h : c.Sound) {i : ℕ} {w : Work} (hw : c.works[i]? = some w) :
    c.state ≠ .notValidated := by
  intro hval
  rw [(h.validated hval).1] at hw
  exact absurd hw (by simp)

theorem state_ne_of_calls (h : c.Sound) {i : ℕ} {x : Call} (hx : c.calls[i]? = some x) :
    c.state ≠ .notValidated := by
  intro hval
  rw [(h.validated hval).2] at hx
  exact absurd hx (by simp)

/-- As long as requests are being dispatched, nothing was said about closing. -/
theorem close_not_mem (h : c.Sound) {i : ℕ} {w : Work} (hw : c.works[i]? = some w)
    (hpos : 0 < w.invokeNum) : .closeConnection ∉ c.written := by
  intro hmem
  have := (count_pos h hw hpos).2
  have := (h.link.final hmem).2
  omega

theorem effect_responded (h : c.Sound) {e : ConnectionEvent} {i : ℕ} {w : Work}
    (hw : c.works[i]? = some w) (hpos : 0 < w.invokeNum)
    (hphase : w.phase = .answered ∨ ¬ c.Response w) (failure : Option LocalException)
    (he : ∀ m unreadable, e ≠ .message m unreadable) :
    ∃ c', c.responded i failure = .ok c' ∧ Effect c e c' := by
  have hmem := close_not_mem h hw hpos
  have hval := state_ne_of_works h hw
  have hlink : (c.workEnds i 1).toLink.Sound := h.link.with_dispatchCount hmem _
  obtain ⟨l, hl, hsound, hex, hsw⟩ := Link.shutdownIfIdle_spec hlink hmem failure
  rw [responded, if_neg hval]
  refine ⟨{ c.workEnds i 1 with toLink := l }, by simp only [onLink, hl]; rfl, ?_⟩
  refine .countOut i 1 w hw hpos hpos ?_ hsound hsw hex he
  rcases hphase with hphase | hphase
  · exact Or.inl hphase
  · exact Or.inr (Or.inr hphase)

theorem effect_settle (h : c.Sound) {i : ℕ} {w : Work} (hw : c.works[i]? = some w)
    (hbroken : w.phase = .broken) :
    ∃ c', c.settle i w = .ok c' ∧ Effect c (.settle i) c' := by
  have hpos : 0 < w.invokeNum := (h.fits w (List.mem_of_getElem? hw)).2 (by simp [hbroken])
  obtain ⟨hle, hcount⟩ := count_pos h hw hpos
  rw [settle, if_neg (not_not.mpr hcount), if_neg (by omega)]
  have hmem := close_not_mem h hw hpos
  exact ⟨_, rfl, .countOut i w.invokeNum w hw le_rfl hpos (Or.inr (Or.inl hbroken))
    (h.link.with_dispatchCount hmem _) (.refl _) rfl (by simp)⟩

/-- **No section of a sound connection fails, and each has an effect.** -/
theorem step_effect (h : c.Sound) {e : ConnectionEvent}
    {r : Except ConnectionAssertion Connection} (hs : c.step e = some r) :
    ∃ c', r = .ok c' ∧ Effect c e c' := by
  cases e with
  | validateCheck =>
      obtain ⟨hv, ⟨⟩⟩ := Option.ite_none_right_eq_some.mp hs
      exact effect_validateCheck h hv
  | validateSend failure =>
      obtain ⟨hv, ⟨⟩⟩ := Option.ite_none_right_eq_some.mp hs
      exact effect_validateSend h hv.1 failure
  | validateRead m failure =>
      obtain ⟨hv, ⟨⟩⟩ := Option.ite_none_right_eq_some.mp hs
      exact effect_validateRead h hv.1 hv.2 m failure
  | validateFailed =>
      simp only [step] at hs
      split at hs
      · next ex hv =>
        obtain rfl := Option.some.inj hs
        exact effect_validateFailed h hv
      · exact absurd hs (by simp)
  | validated =>
      obtain ⟨-, ⟨⟩⟩ := Option.ite_none_right_eq_some.mp hs
      exact effect_validated h
  | activate =>
      obtain ⟨hv, ⟨⟩⟩ := Option.ite_none_right_eq_some.mp hs
      exact effect_setState h (Or.inl rfl) hv.1 (by simp)
  | hold =>
      obtain ⟨hv, ⟨⟩⟩ := Option.ite_none_right_eq_some.mp hs
      exact effect_setState h (Or.inr rfl) hv.1 (by simp)
  | destroy reason failure =>
      obtain ⟨hpub, ⟨⟩⟩ := Option.ite_none_right_eq_some.mp hs
      refine effect_setStateWith h (Or.inl rfl) _ _ (fun _ => hpub) fun heq => absurd heq ?_
      cases reason <;> simp [DestructionReason.exception]
  | close force failure =>
      cases force with
      | true =>
          obtain ⟨hpub, ⟨⟩⟩ := Option.ite_none_right_eq_some.mp hs
          exact effect_setStateWith h (Or.inr rfl) _ _ (fun _ => hpub) (by simp)
      | false =>
          obtain ⟨⟨hpub, hnone⟩, ⟨⟩⟩ := Option.ite_none_right_eq_some.mp hs
          exact effect_setStateWith h (Or.inl rfl) _ _ (fun _ => hpub) fun _ =>
            Or.inr (Or.inr hnone)
  | exception ex =>
      obtain ⟨hpub, ⟨⟩⟩ := Option.ite_none_right_eq_some.mp hs
      exact effect_fail h ex (fun _ => hpub) fun heq => absurd heq ex.2
  | closeTimeout =>
      obtain ⟨hv, ⟨⟩⟩ := Option.ite_none_right_eq_some.mp hs
      exact effect_fail h _ (fun hval => by simp [hv.1] at hval) (by simp)
  | requestTimeout =>
      obtain ⟨hv, ⟨⟩⟩ := Option.ite_none_right_eq_some.mp hs
      exact effect_fail h _ (fun hval => by simp [hv.1] at hval) (by simp)
  | idleTimeout failure =>
      obtain ⟨hv, ⟨⟩⟩ := Option.ite_none_right_eq_some.mp hs
      exact effect_setStateWith h (Or.inl rfl) _ _ (fun hval => by simp [hv.1] at hval) (by simp)
  | message m unreadable =>
      obtain ⟨hval, ⟨⟩⟩ := Option.ite_none_right_eq_some.mp hs
      exact effect_message h hval m unreadable
  | finished =>
      obtain ⟨hpos, ⟨⟩⟩ := Option.ite_none_right_eq_some.mp hs
      exact effect_finished h hpos
  | sendRequest kind =>
      obtain ⟨⟨hover, hkind⟩, ⟨⟩⟩ := Option.ite_none_right_eq_some.mp hs
      exact effect_sendRequest h hover hkind
  | send i failure =>
      simp only [step] at hs
      split at hs
      · next hx =>
        obtain rfl := Option.some.inj hs
        exact effect_send h hx rfl failure
      · exact absurd hs (by simp)
  | sendFailed i =>
      simp only [step] at hs
      split at hs
      · next hx =>
        obtain rfl := Option.some.inj hs
        exact effect_sendFailed h hx rfl
      · exact absurd hs (by simp)
  | respond i failure =>
      simp only [step] at hs
      split at hs
      · next w hw =>
        obtain ⟨⟨-, hpos, hresponse⟩, ⟨⟩⟩ := Option.ite_none_right_eq_some.mp hs
        exact effect_respond h hw hpos hresponse failure
      · exact absurd hs (by simp)
  | respondFailed i =>
      simp only [step] at hs
      split at hs
      · next ex hw =>
        obtain rfl := Option.some.inj hs
        have hpos := (h.fits _ (List.mem_of_getElem? hw)).2 (by simp)
        refine effect_breakOff h hw hpos (Or.inl rfl) (fun heq => h.pending ?_) (by simp)
        exact Or.inr (Or.inr ⟨_, List.mem_of_getElem? hw, by rw [heq]⟩)
      · exact absurd hs (by simp)
  | responded i failure =>
      simp only [step] at hs
      split at hs
      · next hw =>
        obtain rfl := Option.some.inj hs
        have hpos := (h.fits _ (List.mem_of_getElem? hw)).2 (by simp)
        exact effect_responded h hw hpos (Or.inl rfl) _ (by simp)
      · exact absurd hs (by simp)
  | noResponse i failure =>
      simp only [step] at hs
      split at hs
      · next w hw =>
        obtain ⟨⟨-, hpos, hnone⟩, ⟨⟩⟩ := Option.ite_none_right_eq_some.mp hs
        exact effect_responded h hw hpos (Or.inr hnone) _ (by simp)
      · exact absurd hs (by simp)
  | broken i ex =>
      simp only [step] at hs
      split at hs
      · next w hw =>
        obtain ⟨⟨-, hpos⟩, ⟨⟩⟩ := Option.ite_none_right_eq_some.mp hs
        exact effect_breakOff h hw hpos (Or.inr rfl) (fun heq => absurd heq ex.2) (by simp)
      · exact absurd hs (by simp)
  | settle i =>
      simp only [step] at hs
      split at hs
      · next hw =>
        obtain rfl := Option.some.inj hs
        exact effect_settle h hw rfl
      · exact absurd hs (by simp)

/-! ## Effects keep a connection sound -/

/-- Who is told something, and how often. -/
theorem getElem?_complete (calls : List Call) (outcome : Outcome) (js : List ℕ) (i : ℕ) :
    (complete calls outcome js)[i]? = calls[i]?.map fun x =>
      { x with outcomes := x.outcomes ++ List.replicate (js.count i) outcome } := by
  induction js generalizing calls with
  | nil => simp [complete]
  | cons j js ih =>
      have hstep : complete calls outcome (j :: js) = complete
          (calls.modify j fun x => { x with outcomes := x.outcomes ++ [outcome] }) outcome js := rfl
      rw [hstep, ih, List.getElem?_modify]
      by_cases hj : j = i
      · subst hj
        cases calls[j]? <;> simp [List.replicate_succ]
      · cases calls[i]? <;> simp [hj]

@[simp] theorem complete_nil (outcome : Outcome) (js : List ℕ) : complete [] outcome js = [] := by
  ext i x
  rw [getElem?_complete]
  simp

@[simp] theorem length_complete (calls : List Call) (outcome : Outcome) (js : List ℕ) :
    (complete calls outcome js).length = calls.length := by
  have hsame (j : ℕ) : (complete calls outcome js)[j]? = none ↔ calls[j]? = none := by
    rw [getElem?_complete, Option.map_eq_none_iff]
  simp only [List.getElem?_eq_none_iff] at hsame
  exact le_antisymm ((hsame _).mpr le_rfl) ((hsame _).mp le_rfl)

theorem mem_complete {calls : List Call} {outcome : Outcome} {js : List ℕ} {x : Call}
    (hx : x ∈ complete calls outcome js) : ∃ y ∈ calls, y.progress = x.progress := by
  obtain ⟨i, hi⟩ := List.mem_iff_getElem?.mp hx
  rw [getElem?_complete, Option.map_eq_some_iff] at hi
  obtain ⟨y, hy, rfl⟩ := hi
  exact ⟨y, List.mem_of_getElem? hy, rfl⟩

theorem mem_callGoes {i : ℕ} {progress : Progress} {x : Call}
    (hx : x ∈ (c.callGoes i progress).calls) :
    x.progress = progress ∨ ∃ y ∈ c.calls, y.progress = x.progress := by
  obtain ⟨j, hj⟩ := List.mem_iff_getElem?.mp hx
  simp only [callGoes, List.getElem?_modify] at hj
  split at hj
  · obtain ⟨y, -, rfl⟩ := Option.map_eq_some_iff.mp hj
    exact Or.inl rfl
  · rw [id_map'] at hj
    exact Or.inr ⟨x, List.mem_of_getElem? hj, rfl⟩

theorem mem_modify_works {i : ℕ} {f : Work → Work} {w : Work} (hw : w ∈ c.works.modify i f) :
    (∃ v, c.works[i]? = some v ∧ w = f v) ∨ w ∈ c.works := by
  obtain ⟨j, hj⟩ := List.mem_iff_getElem?.mp hw
  rw [List.getElem?_modify] at hj
  split at hj
  · next hij =>
    subst hij
    obtain ⟨v, hv, rfl⟩ := Option.map_eq_some_iff.mp hj
    exact Or.inl ⟨v, hv, rfl⟩
  · rw [id_map'] at hj
    exact Or.inr (List.mem_of_getElem? hj)

/-- A dispatch that goes on is still counted. -/
theorem sum_workGoes {i : ℕ} {w : Work} (hw : c.works[i]? = some w) (phase : Phase) :
    ((c.workGoes i phase).works.map Work.invokeNum).sum = (c.works.map Work.invokeNum).sum := by
  have hsum := sum_map_set_add (f := Work.invokeNum) hw { w with phase := phase }
  simp only [workGoes, modify_eq_set_of_getElem? _ hw] at hsum ⊢
  omega

theorem sum_workEnds {i n : ℕ} {w : Work} (hw : c.works[i]? = some w) (hn : n ≤ w.invokeNum) :
    ((c.workEnds i n).works.map Work.invokeNum).sum + n = (c.works.map Work.invokeNum).sum := by
  have hsum := sum_map_set_add (f := Work.invokeNum) hw
    { w with invokeNum := w.invokeNum - n, phase := .invoking }
  simp only [workEnds, modify_eq_set_of_getElem? _ hw] at hsum ⊢
  omega

theorem isSome_of_kept {l l' : Link} (hkept : Link.Kept l l')
    (h : l.exception.isSome = true) : l'.exception.isSome = true := by
  obtain ⟨ex, hex⟩ := Option.isSome_iff_exists.mp h
  rw [hkept.exception ex hex]
  rfl

/-- A link that changes state, with everything else as it was. -/
theorem Sound.switch (h : c.Sound) {l : Link} {validation : Validation} (hl : l.Sound)
    (hkept : Link.Kept c.toLink l) (hfits : validation.Fits l.state c.active)
    (hpending : validation = .failed .closeConnection → l.exception.isSome = true) :
    Sound { c with toLink := l, validation := validation } where
  link := hl
  count := hkept.dispatchCount.trans h.count
  fits := h.fits
  validated hval := h.validated (by
    by_contra hne
    exact hkept.validated hne hval)
  validating := hfits
  datagram hd := h.datagram (hkept.datagram ▸ hd)
  pending := by
    rintro (hv | hp)
    · exact hpending hv
    · exact isSome_of_kept hkept (h.pending (Or.inr hp))

/-- Closing a connection that is not the business of the thread that validates it. -/
theorem Sound.close (h : c.Sound) {l : Link} (hl : l.Sound) (hsw : Link.Switched c.toLink l)
    (hval : c.state ≠ .notValidated) : Sound { c with toLink := l } :=
  h.switch hl hsw.toKept (fits_of_switched h hsw fun hv => absurd hv hval) fun hf =>
    isSome_of_kept hsw.toKept (h.pending (Or.inl hf))

/-- Callers are told something, or go on. -/
theorem Sound.with_calls (h : c.Sound) {calls : List Call}
    (hval : c.state = .notValidated → c.calls = [] → calls = [])
    (hcalls : ∀ x ∈ calls, x.progress = .failed .closeConnection →
      c.exception.isSome = true ∨ ∃ y ∈ c.calls, y.progress = x.progress) :
    Sound { c with calls := calls } where
  link := h.link
  count := h.count
  fits := h.fits
  validated hv := ⟨(h.validated hv).1, hval hv (h.validated hv).2⟩
  validating := h.validating
  datagram := h.datagram
  pending := by
    rintro (hv | ⟨x, hx, hfailed⟩ | hw)
    · exact h.pending (Or.inl hv)
    · rcases hcalls x hx hfailed with hsome | ⟨y, hy, heq⟩
      · exact hsome
      · exact h.pending (Or.inr (Or.inl ⟨y, hy, heq.trans hfailed⟩))
    · exact h.pending (Or.inr (Or.inr hw))

/-- Callers begin or end to wait. -/
theorem Sound.with_requests (h : c.Sound) (requests asyncRequests : HintedMap ℤ ℕ) (next : ℤ)
    (hnone : c.datagram = true → c.NoRequests →
      requests.entries = [] ∧ asyncRequests.entries = []) :
    Sound { c with
      nextRequestId := next, requests := requests, asyncRequests := asyncRequests } where
  link := h.link
  count := h.count
  fits := h.fits
  validated := h.validated
  validating := h.validating
  datagram hd := hnone hd (h.datagram hd)
  pending := h.pending

theorem Sound.callGoes (h : c.Sound) (i : ℕ) (progress : Progress)
    (hfailed : progress = .failed .closeConnection → c.exception.isSome = true) :
    (c.callGoes i progress).Sound := by
  refine h.with_calls (fun _ hnil => by simp [hnil]) fun x hx hx' => ?_
  rcases mem_callGoes hx with heq | hold
  · exact Or.inl (hfailed (heq.symm.trans hx'))
  · exact Or.inr hold

theorem Sound.complete (h : c.Sound) (outcome : Outcome) (js : List ℕ) :
    Sound { c with calls := complete c.calls outcome js } :=
  h.with_calls (fun _ hnil => by simp [hnil]) fun _ hx _ => Or.inr (mem_complete hx)

theorem Sound.eraseRequest (h : c.Sound) (kind : CallKind) (requestId : ℤ) :
    (c.eraseRequest kind requestId).Sound := by
  cases kind with
  | oneway => exact h
  | twoway =>
      exact h.with_requests _ _ c.nextRequestId fun _ hnone =>
        ⟨by simp [HintedMap.erase, hnone.1], hnone.2⟩
  | async =>
      exact h.with_requests _ _ c.nextRequestId fun _ hnone =>
        ⟨hnone.1, by simp [HintedMap.erase, hnone.2]⟩

/-- A dispatch goes on that is still counted. -/
theorem Sound.workGoes (h : c.Sound) {i : ℕ} {w : Work} (hw : c.works[i]? = some w)
    (hpos : 0 < w.invokeNum) {phase : Phase}
    (hunsent : phase = .unsent .closeConnection → c.exception.isSome = true) :
    (c.workGoes i phase).Sound where
  link := h.link
  count := by
    rw [sum_workGoes hw]
    exact h.count
  fits := by
    intro v hv
    rcases mem_modify_works hv with ⟨w', hw', rfl⟩ | hold
    · obtain rfl : w = w' := Option.some.inj (hw.symm.trans hw')
      exact ⟨(h.fits w (List.mem_of_getElem? hw)).1, fun _ => hpos⟩
    · exact h.fits v hold
  validated hval := absurd hval (state_ne_of_works (c := c) h hw)
  validating := h.validating
  datagram := h.datagram
  pending := by
    rintro (hv | hx | ⟨v, hv, hphase⟩)
    · exact h.pending (Or.inl hv)
    · exact h.pending (Or.inr (Or.inl hx))
    · rcases mem_modify_works hv with ⟨w', -, rfl⟩ | hold
      · exact hunsent hphase
      · exact h.pending (Or.inr (Or.inr ⟨v, hold, hphase⟩))

/-- Fewer requests count as being dispatched. -/
theorem Sound.workEnds (h : c.Sound) {i n : ℕ} {w : Work} (hw : c.works[i]? = some w)
    (hn : n ≤ w.invokeNum) (hpos : 0 < w.invokeNum) : (c.workEnds i n).Sound where
  link := h.link.with_dispatchCount (close_not_mem h hw hpos) _
  count := by
    have hsum := sum_workEnds hw hn
    have hcount := h.count
    show c.dispatchCount - n = _
    omega
  fits := by
    intro v hv
    rcases mem_modify_works hv with ⟨w', hw', rfl⟩ | hold
    · obtain rfl : w = w' := Option.some.inj (hw.symm.trans hw')
      have hone := (h.fits w (List.mem_of_getElem? hw)).1
      exact ⟨fun hid => le_trans (Nat.sub_le _ _) (hone hid), by simp⟩
    · exact h.fits v hold
  validated hval := absurd hval (state_ne_of_works (c := c) h hw)
  validating := h.validating
  datagram := h.datagram
  pending := by
    rintro (hv | hx | ⟨v, hv, hphase⟩)
    · exact h.pending (Or.inl hv)
    · exact h.pending (Or.inr (Or.inl hx))
    · rcases mem_modify_works hv with ⟨w', -, rfl⟩ | hold
      · exact absurd hphase (by simp)
      · exact h.pending (Or.inr (Or.inr ⟨v, hold, hphase⟩))

/-- More requests count as being dispatched. -/
theorem Sound.accept (h : c.Sound) {w : Work} (accepted : List (ℤ × ℕ))
    (hval : c.state ≠ .notValidated) (hended : ¬ c.state.Ended)
    (hone : w.requestId ≠ 0 → w.invokeNum ≤ 1) (hphase : w.phase = .invoking) :
    Sound { c with
      dispatchCount := c.dispatchCount + w.invokeNum
      works := c.works ++ [w]
      accepted := accepted } where
  link := h.link.with_dispatchCount (fun hm => hended (h.link.final hm).1) _
  count := by
    have hcount := h.count
    simp only [List.map_append, List.sum_append, List.map_cons, List.map_nil, List.sum_singleton]
    show c.dispatchCount + w.invokeNum = _
    omega
  fits := by
    intro v hv
    rcases List.mem_append.mp hv with hold | hnew
    · exact h.fits v hold
    · obtain rfl := List.mem_singleton.mp hnew
      exact ⟨hone, fun hne => absurd hphase hne⟩
  validated hv := absurd hv hval
  validating := h.validating
  datagram := h.datagram
  pending := by
    rintro (hv | hx | ⟨v, hv, hv'⟩)
    · exact h.pending (Or.inl hv)
    · exact h.pending (Or.inr (Or.inl hx))
    · rcases List.mem_append.mp hv with hold | hnew
      · exact h.pending (Or.inr (Or.inr ⟨v, hold, hv'⟩))
      · obtain rfl := List.mem_singleton.mp hnew
        rw [hphase] at hv'
        exact absurd hv' (by simp)

/-- Something is written that is not about closing. -/
theorem Sound.write (h : c.Sound) {ms : List Message} (hms : Link.Concluded ms)
    (hmem : .closeConnection ∈ ms → .closeConnection ∈ c.written) :
    Sound { c with written := ms } where
  link := h.link.with_written hms hmem
  count := h.count
  fits := h.fits
  validated := h.validated
  validating := h.validating
  datagram := h.datagram
  pending := h.pending

/-- **What a section does keeps a connection sound.** -/
theorem sound_effect {c' : Connection} {e : ConnectionEvent} (h : c.Sound) (he : Effect c e c') :
    c'.Sound := by
  cases he with
  | link validation hl hsw hfits hpending => exact h.switch hl hsw.toKept hfits hpending
  | validate failure hstate =>
      have hmem : .closeConnection ∉ c.written := fun hm => by
        have := (h.link.final hm).1
        simp [hstate, ConnectionState.Ended] at this
      have hwrite := h.write (Link.concluded_append (m := .validateConnection) hmem) (by simp)
      refine hwrite.switch (l := { c.toLink with written := c.written ++ [.validateConnection] })
        hwrite.link (Link.Switched.refl _).toKept ?_ (by simp)
      rw [Validation.Fits, if_neg (by simp)]
      exact ⟨Or.inl hstate, fun _ => hstate⟩
  | accept requestId call hval hended =>
      exact h.accept (w := ⟨requestId, 1, .invoking⟩) _ hval hended (fun _ => le_rfl) rfl
  | acceptBatch invokeNum hval hended =>
      exact h.accept (w := ⟨0, invokeNum, .invoking⟩) _ hval hended (by simp) rfl
  | reply requestId kind j hwaits =>
      have herase := (h.eraseRequest kind requestId).complete .replied [j]
      cases kind <;> exact herase
  | raise ex hl hkept hex hsame hstate =>
      have hlink : Sound { c with toLink := _ } := h.switch hl hkept (hstate ▸ h.validating)
        fun hf => isSome_of_kept hkept (h.pending (Or.inl hf))
      exact (hlink.with_requests ∅ ∅ c.nextRequestId fun _ _ => ⟨rfl, rfl⟩).complete _ _
  | refuse kind ex hex =>
      have hended : c.state.Ended := h.link.exception.mp (by simp [hex])
      refine h.with_calls (fun hv => ?_) fun x hx hx' => ?_
      · simp [hv, ConnectionState.Ended] at hended
      rcases List.mem_append.mp hx with hold | hnew
      · exact Or.inr ⟨x, hold, rfl⟩
      · obtain rfl := List.mem_singleton.mp hnew
        exact absurd hx' (by simp)
  | beginOneway hval =>
      refine h.with_calls (fun hv => absurd hv hval) fun x hx hx' => ?_
      rcases List.mem_append.mp hx with hold | hnew
      · exact Or.inr ⟨x, hold, rfl⟩
      · obtain rfl := List.mem_singleton.mp hnew
        exact absurd hx' (by simp)
  | beginTwoway hex hval hdatagram =>
      refine (h.with_requests (c.requests.insert c.newRequestId.1 c.calls.length) c.asyncRequests
        c.newRequestId.2 fun hd => ?_).with_calls
        (fun hv => absurd hv hval) fun x hx hx' => ?_
      · simp [hdatagram] at hd
      · rcases List.mem_append.mp hx with hold | hnew
        · exact Or.inr ⟨x, hold, rfl⟩
        · obtain rfl := List.mem_singleton.mp hnew
          exact absurd hx' (by simp)
  | beginAsync hex hval hdatagram =>
      refine (h.with_requests c.requests
        (c.asyncRequests.insert c.newRequestId.1 c.calls.length) c.newRequestId.2
        fun hd => ?_).with_calls (fun hv => absurd hv hval) fun x hx hx' => ?_
      · simp [hdatagram] at hd
      · rcases List.mem_append.mp hx with hold | hnew
        · exact Or.inr ⟨x, hold, rfl⟩
        · obtain rfl := List.mem_singleton.mp hnew
          exact absurd hx' (by simp)
  | sent i failure x hx hsending =>
      have hwrite := h.write (Link.concluded_append_request h.link.concluded x.requestId i) (by simp)
      exact hwrite.callGoes _ _ (by simp)
  | unsent i failure x hx hsending ex hpending =>
      refine h.callGoes _ _ ?_
      rintro ⟨⟩
      exact hpending rfl
  | giveUp i x hx ex hfailed hl hsw hclosed =>
      have hclose : Sound { c with toLink := _ } := h.close hl hsw (state_ne_of_calls h hx)
      exact hclose.callGoes _ _ (by simp)
  | throw i x hx ex ex' hfailed hl hsw hclosed =>
      have hclose : Sound { c with toLink := _ } := h.close hl hsw (state_ne_of_calls h hx)
      have herase := ((hclose.callGoes i .over (by simp)).eraseRequest x.kind
        x.requestId).complete (.thrown ⟨ex', false⟩) [i]
      cases hkind : x.kind <;> rw [hkind] at herase <;> exact herase
  | answer i failure w hw hone hresponse hopen =>
      have hmem := close_not_mem h hw (by omega)
      exact (h.write (Link.concluded_append hmem) (by simp)).workGoes hw (by omega) (by simp)
  | unanswered i failure w hw hone ex hpending =>
      refine h.workGoes hw (by omega) ?_
      rintro ⟨⟩
      exact hpending rfl
  | breakOff i w hw hpos phase hphase hl hsw hclosed =>
      have hval := state_ne_of_works h hw
      have hclose : Sound { c with toLink := _ } := h.close hl hsw hval
      refine hclose.workGoes hw hpos ?_
      rcases hphase with rfl | rfl <;> simp
  | countOut i n w hw hn hpos hphase hl hsw hex =>
      have hval := state_ne_of_works h hw
      exact (h.workEnds hw hn hpos).close hl hsw hval

end Steps

/-! ## Runs -/

/-- A step leads to a sound connection, with an effect. -/
theorem sound_next {c c' : Connection} {e : ConnectionEvent} (h : c.Sound)
    (hs : c.next e = some c') : c'.Sound ∧ Effect c e c' := by
  obtain ⟨r, hr, hok⟩ := Option.bind_eq_some_iff.mp hs
  obtain ⟨c'', rfl, heffect⟩ := step_effect h hr
  obtain rfl : c'' = c' := Option.some.inj hok
  exact ⟨sound_effect h heffect, heffect⟩

/-- **A connection is sound after any run.** -/
theorem run_sound {c c' : Connection} {es : List ConnectionEvent} (h : c.Sound)
    (hr : run next c es = some c') : c'.Sound :=
  run_invariant_of_step (fun _ _ _ hs hn => (sound_next hs hn).1) h hr

/-- A connection that closes while a request is being dispatched. -/
def closingBusy : List ConnectionEvent :=
  [.validateCheck, .validateSend none, .validated, .activate, .message (.request 1 0) false,
    .destroy .objectAdapterDeactivated none, .respond 0 none]

end Connection

end IceSerialPort.Ice
