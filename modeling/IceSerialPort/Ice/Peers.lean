import IceSerialPort.Ice.ConnectionCalls

/-!
# Two connections

The two ends of a connection are two connections of the same kind: each sends requests,
and each dispatches those of the other. In between is a reliable transport, from which one
end reads, in order, what the other has written.

"A CloseConnectionException indicates graceful server shutdown, and is therefore always
repeatable without violating at-most-once. That's because by sending a close connection
message, the server guarantees that all outstanding requests can safely be repeated." And
exceptions raised by sending can be retried as well. Both are so: whatever a caller may
repeat, the other end has not accepted, and never will.

## Main definitions

* `Peers`, `Peers.step`: the two ends and what they have read.
* `Outcome.Repeatable`: what `Outgoing::invoke` throws without a wrapper that forbids to
  try again.
* `Knows`: what one end knows about the other.
* `Peers.Agree`: what holds of both at any time.

## Main results

* `run_agree`: it does, after any run.
* `Agree.accepted_once`: no request is accepted twice.
* `Agree.not_dispatched`: a request that may be repeated was not accepted at all.
* `replied_once`: a reply is told to the caller whose request was dispatched.
-/

namespace IceSerialPort.Ice

open Transition Connection

/-! ## What a section changes -/

namespace Connection

variable {c c' : Connection} {e : ConnectionEvent}

/-- The first exception stays, and it is known where it comes from. -/
theorem exception_effect (he : Effect c e c') :
    (∀ ex, c.exception = some ex → c'.exception = some ex) ∧ c.Because e c'.exception := by
  cases he with
  | link validation hl hsw hfits hpending hbecause => exact ⟨hsw.exception, hbecause⟩
  | raise ex hl hkept hex hsame => exact ⟨hkept.exception, because_same (hsame.trans hex.symm)⟩
  | giveUp i x hx ex hfailed hl hsw hclosed hbecause => exact ⟨hsw.exception, hbecause⟩
  | throw i x hx ex ex' hfailed hl hsw hclosed hbecause =>
      cases hkind : x.kind <;> exact ⟨hsw.exception, hbecause⟩
  | breakOff i w hw hpos phase hphase hl hsw hclosed hbecause => exact ⟨hsw.exception, hbecause⟩
  | countOut i n w hw hn hpos hphase hl hsw hex => exact ⟨hsw.exception, because_same hex⟩
  | reply requestId kind => cases kind <;> exact ⟨fun _ h => h, because_same rfl⟩
  | _ => exact ⟨fun _ h => h, because_same rfl⟩

/-- What was written stays written. -/
theorem written_effect (he : Effect c e c') : ∃ ms, c'.written = c.written ++ ms := by
  have hkept {l l' : Link} (h : Link.Kept l l') : ∃ ms, l'.written = l.written ++ ms := by
    rcases h.written with hw | ⟨hw, -⟩
    · exact ⟨[], by simp [hw]⟩
    · exact ⟨_, hw⟩
  cases he with
  | link validation hl hsw => exact hkept hsw.toKept
  | validate => exact ⟨_, rfl⟩
  | raise ex hl h => exact hkept h
  | sent => exact ⟨_, rfl⟩
  | giveUp i x hx ex hfailed hl hsw => exact hkept hsw.toKept
  | throw i x hx ex ex' hfailed hl hsw => cases hkind : x.kind <;> exact hkept hsw.toKept
  | answer => exact ⟨_, rfl⟩
  | breakOff i w hw hpos phase hphase hl hsw => exact hkept hsw.toKept
  | @countOut _ i n l w hw hn hpos hphase hl hsw =>
      have hends : ∃ ms, l.written = (c.workEnds i n).written ++ ms := hkept hsw.toKept
      exact hends
  | reply requestId kind => cases kind <;> exact ⟨[], by simp [eraseRequest]⟩
  | _ => exact ⟨[], by simp [callGoes, workGoes]⟩

/-- Requests are accepted by reading them, as long as the connection has not begun to
close. -/
theorem accepted_effect (he : Effect c e c') :
    c'.accepted = c.accepted ∨ ∃ requestId call, e = .message (.request requestId call) false ∧
      c'.accepted = c.accepted ++ [(requestId, call)] ∧ ¬ c.state.Ended := by
  cases he with
  | accept requestId call hval hended => exact Or.inr ⟨requestId, call, rfl, rfl, hended⟩
  | reply requestId kind => cases kind <;> exact Or.inl rfl
  | throw i x => cases hkind : x.kind <;> exact Or.inl rfl
  | _ => exact Or.inl rfl

theorem waits_iff {requestId : ℤ} {j : ℕ} :
    c.Waits requestId j ↔ ∃ kind, (requestId, j) ∈ (c.waiting kind).entries := by
  constructor
  · rintro (hmem | hmem)
    · exact ⟨.twoway, hmem⟩
    · exact ⟨.async, hmem⟩
  · rintro ⟨kind, hmem⟩
    cases kind with
    | oneway => simp [waiting] at hmem
    | twoway => exact Or.inl hmem
    | async => exact Or.inr hmem

/-- A caller that waits is one, and was not told anything. -/
theorem call_of_waits (hc : c.Calling) {requestId : ℤ} {j : ℕ} (h : c.Waits requestId j) :
    ∃ x, c.calls[j]? = some x ∧ x.requestId = requestId ∧ requestId ≠ 0 ∧ x.outcomes = [] := by
  obtain ⟨kind, hmem⟩ := waits_iff.mp h
  obtain ⟨x, hx, -, hx'⟩ := hc.waits kind requestId j hmem
  exact ⟨x, hx, hx'⟩

theorem eq_of_waits (hc : c.Calling) {requestId : ℤ} {i j : ℕ} (hi : c.Waits requestId i)
    (hj : c.Waits requestId j) : i = j := by
  obtain ⟨x, hx, hxid, hne, -⟩ := call_of_waits hc hi
  obtain ⟨y, hy, hyid, -⟩ := call_of_waits hc hj
  exact hc.distinct i j x y hx hy (hxid.trans hyid.symm) (hxid ▸ hne)

/-- Who waits has waited before, and not for a reply that was read just now; or has just
called. -/
theorem waits_effect (hc : c.Calling) (he : Effect c e c') {requestId : ℤ} {j : ℕ}
    (h : c'.Waits requestId j) :
    (c.Waits requestId j ∧
      ∀ unreadable, e = .message (.reply requestId) unreadable → c'.exception.isSome = true) ∨
      (c'.exception = none ∧ requestId = c.newRequestId.1 ∧ (∃ kind, e = .sendRequest kind) ∧
        c'.calls.length = c.calls.length + 1) := by
  cases he with
  | link validation hl hsw hfits hpending hbecause hreply =>
      refine Or.inl ⟨h, fun unreadable heq => ?_⟩
      exact (hreply requestId unreadable heq).resolve_right fun hnone => hnone j h
  | reply requestId' kind i hwaits =>
      obtain ⟨x, hx, hkind, hid, -⟩ := hc.waits kind requestId' i hwaits
      obtain ⟨kind', hmem⟩ := waits_iff.mp h
      have herase := mem_eraseRequest hc hx hkind hid (Or.inr hwaits) kind' requestId j
      have hmem' : (requestId, j) ∈ ((c.eraseRequest kind requestId').waiting kind').entries := by
        cases kind <;> cases kind' <;> exact hmem
      obtain ⟨hold, hne⟩ := herase.mp hmem'
      refine Or.inl ⟨waits_iff.mpr ⟨kind', hold⟩, ?_⟩
      rintro unreadable ⟨⟩
      refine absurd (eq_of_waits hc (waits_iff.mpr ⟨kind', hold⟩) (waits_iff.mpr ⟨kind, hwaits⟩)) ?_
      simpa using hne
  | raise => simp [Waits] at h
  | beginTwoway hex =>
      rcases h with hmem | hmem
      · rcases HintedMap.mem_insert hmem with heq | hold
        · exact Or.inr ⟨hex, congrArg Prod.fst heq, ⟨_, rfl⟩, List.length_append⟩
        · exact Or.inl ⟨Or.inl hold, by simp⟩
      · exact Or.inl ⟨Or.inr hmem, by simp⟩
  | beginAsync hex =>
      rcases h with hmem | hmem
      · exact Or.inl ⟨Or.inl hmem, by simp⟩
      · rcases HintedMap.mem_insert hmem with heq | hold
        · exact Or.inr ⟨hex, congrArg Prod.fst heq, ⟨_, rfl⟩, List.length_append⟩
        · exact Or.inl ⟨Or.inr hold, by simp⟩
  | @throw i l x =>
      have hold : c.Waits requestId j := by
        cases hkind : x.kind <;> rw [hkind] at h
        · exact h
        · exact h.imp (fun hm => (List.mem_filter.mp hm).1) id
        · exact h.imp id fun hm => (List.mem_filter.mp hm).1
      exact Or.inl ⟨hold, by simp⟩
  | breakOff i w hw hpos phase hphase hl hsw hclosed hbecause hne =>
      exact Or.inl ⟨h, fun u heq => absurd heq (hne _ u)⟩
  | countOut i n w hw hn hpos hphase hl hsw hex hne =>
      exact Or.inl ⟨h, fun u heq => absurd heq (hne _ u)⟩
  | _ => exact Or.inl ⟨h, by simp⟩

/-- Going on tells a caller nothing. -/
theorem of_callGoes {i j : ℕ} {progress : Progress} {y : Call}
    (hy : (c.callGoes i progress).calls[j]? = some y) :
    ∃ x, c.calls[j]? = some x ∧ x.requestId = y.requestId ∧ x.outcomes = y.outcomes := by
  simp only [callGoes, List.getElem?_modify] at hy
  split at hy
  · obtain ⟨x, hx, rfl⟩ := Option.map_eq_some_iff.mp hy
    exact ⟨x, hx, rfl, rfl⟩
  · rw [id_map'] at hy
    exact ⟨y, hy, rfl, rfl⟩

theorem noRequests_iff : c.NoRequests ↔ ∀ requestId j, ¬ c.Waits requestId j := by
  constructor
  · exact fun h requestId j => not_waits h requestId j
  · intro h
    constructor <;> rw [List.eq_nil_iff_forall_not_mem] <;> rintro ⟨requestId, j⟩ hmem
    · exact h requestId j (Or.inl hmem)
    · exact h requestId j (Or.inr hmem)

/-- What a caller is told in a section, and why. -/
theorem outcome_effect (hc : c.Calling) (he : Effect c e c') {j : ℕ} {x' : Call}
    (hx' : c'.calls[j]? = some x') {outcome : Outcome} (hout : outcome ∈ x'.outcomes) :
    (∃ x, c.calls[j]? = some x ∧ x.requestId = x'.requestId ∧ outcome ∈ x.outcomes) ∨
      (outcome = .replied ∧ e = .message (.reply x'.requestId) false ∧ c.Waits x'.requestId j) ∨
      (∃ ex, outcome = .raised ex ∧ c.exception = some ex ∧ c.Waits x'.requestId j) ∨
      ∃ ex, outcome = .thrown ex := by
  have hcomplete (calls : List Call) (o : Outcome) (js : List ℕ)
      (hy : (complete calls o js)[j]? = some x') : ∃ x, calls[j]? = some x ∧
        x.requestId = x'.requestId ∧ (outcome ∈ x.outcomes ∨ (outcome = o ∧ j ∈ js)) := by
    rw [getElem?_complete, Option.map_eq_some_iff] at hy
    obtain ⟨x, hx, rfl⟩ := hy
    refine ⟨x, hx, rfl, ?_⟩
    rcases List.mem_append.mp hout with hold | hnew
    · exact Or.inl hold
    · obtain ⟨hne, heq⟩ := List.mem_replicate.mp hnew
      exact Or.inr ⟨heq, by
        by_contra hj
        exact hne (List.count_eq_zero_of_not_mem hj)⟩
  have happend (x : Call) (hy : (c.calls ++ [x])[j]? = some x') :
      c.calls[j]? = some x' ∨ x' = x := by
    rw [List.getElem?_append] at hy
    split at hy
    · exact Or.inl hy
    · exact Or.inr (List.mem_singleton.mp (List.mem_of_getElem? hy))
  have hgoes {c' : Connection} {i : ℕ} {progress : Progress}
      (hy : (c'.callGoes i progress).calls[j]? = some x') (hcalls : c'.calls = c.calls) :
      ∃ x, c.calls[j]? = some x ∧ x.requestId = x'.requestId ∧ outcome ∈ x.outcomes := by
    obtain ⟨x, hx, hid, heq⟩ := of_callGoes hy
    exact ⟨x, hcalls ▸ hx, hid, heq ▸ hout⟩
  cases he with
  | reply requestId kind i hwaits =>
      obtain ⟨x, hx, hid, hold | ⟨rfl, hi⟩⟩ := hcomplete c.calls .replied [i] hx'
      · exact Or.inl ⟨x, hx, hid, hold⟩
      · obtain rfl := List.mem_singleton.mp hi
        obtain ⟨y, hy, -, hid', -⟩ := hc.waits kind requestId j hwaits
        obtain rfl : x = y := Option.some.inj (hx.symm.trans hy)
        obtain rfl : requestId = x'.requestId := hid'.symm.trans hid
        exact Or.inr (Or.inl ⟨rfl, rfl, waits_iff.mpr ⟨kind, hwaits⟩⟩)
  | raise ex hl hkept hex =>
      obtain ⟨x, hx, hid, hold | ⟨rfl, hj⟩⟩ := hcomplete c.calls _ _ hx'
      · exact Or.inl ⟨x, hx, hid, hold⟩
      · obtain ⟨⟨requestId, j⟩, hmem, rfl⟩ := List.mem_map.mp hj
        have hwaits : c.Waits requestId j := List.mem_append.mp hmem
        obtain ⟨y, hy, hid', -⟩ := call_of_waits hc hwaits
        obtain rfl : x = y := Option.some.inj (hx.symm.trans hy)
        obtain rfl : requestId = x'.requestId := hid'.symm.trans hid
        exact Or.inr (Or.inr (Or.inl ⟨ex, rfl, hex, hwaits⟩))
  | refuse kind ex =>
      rcases happend _ hx' with hold | rfl
      · exact Or.inl ⟨x', hold, rfl, hout⟩
      · exact Or.inr (Or.inr (Or.inr ⟨_, List.mem_singleton.mp hout⟩))
  | beginOneway =>
      rcases happend _ hx' with hold | rfl
      · exact Or.inl ⟨x', hold, rfl, hout⟩
      · simp at hout
  | beginTwoway =>
      rcases happend _ hx' with hold | rfl
      · exact Or.inl ⟨x', hold, rfl, hout⟩
      · simp at hout
  | beginAsync =>
      rcases happend _ hx' with hold | rfl
      · exact Or.inl ⟨x', hold, rfl, hout⟩
      · simp at hout
  | sent => exact Or.inl (hgoes hx' rfl)
  | unsent => exact Or.inl (hgoes hx' rfl)
  | giveUp => exact Or.inl (hgoes hx' rfl)
  | throw i x hx ex ex' =>
      obtain ⟨y, hy, hid, hold | ⟨rfl, -⟩⟩ := hcomplete _ _ _ hx'
      · obtain ⟨z, hz, hid', heq⟩ := of_callGoes hy
        exact Or.inl ⟨z, hz, hid'.trans hid, heq ▸ hold⟩
      · exact Or.inr (Or.inr (Or.inr ⟨_, rfl⟩))
  | _ => exact Or.inl ⟨x', hx', rfl, hout⟩

end Connection

/-! ## The two ends -/

/-- The two ends of a connection, and how many messages of the other each has read. -/
structure Peers where
  connection : Bool → Connection
  read : Bool → ℕ

/-- The message that is read in a section. -/
def ConnectionEvent.reads : ConnectionEvent → Option Message
  | .message m _ => some m
  | .validateRead m none => some m
  | _ => none

/-- What may be tried again. `Outgoing::invoke` lets exceptions raised by sending, and a
`CloseConnectionException`, propagate as they are. -/
def Outcome.Repeatable : Outcome → Prop
  | .replied => False
  | .raised ex => ex = .closeConnection
  | .thrown _ => True

namespace Peers

/-- Two new connections; the end that is true has an adapter. -/
def start (warn : Bool) : Peers where
  connection side := .start false warn side
  read _ := 0

/-- An event at one end. A message that it reads is the next one of the other end. -/
def step (p : Peers) (e : Bool × ConnectionEvent) : Option Peers :=
  match e.2.reads with
  | none =>
      ((p.connection e.1).next e.2).map fun c =>
        { p with connection := Function.update p.connection e.1 c }
  | some m =>
      if (p.connection !e.1).written[p.read e.1]? = some m then
        ((p.connection e.1).next e.2).map fun c =>
          { connection := Function.update p.connection e.1 c
            read := Function.update p.read e.1 (p.read e.1 + 1) }
      else none

/-- What one end has read. -/
def received (p : Peers) (side : Bool) : List Message :=
  (p.connection !side).written.take (p.read side)

end Peers

/-! ## What one end knows about the other -/

/-- What an end knows about the other one, after it has read `received`. -/
structure Knows (me : Connection) (received : List Message) (other : Connection) : Prop where
  datagram : me.datagram = false
  accepted : me.accepted.Sublist (received.filterMap request?)
  graceful : me.exception = some .closeConnection →
    me.NoRequests ∨ .closeConnection ∈ received
  answered : ∀ requestId j, .reply requestId ∈ received → me.Waits requestId j →
    ∃ ex, me.exception = some ex ∧ ex ≠ .closeConnection
  replied : ∀ (j : ℕ) x, me.calls[j]? = some x → .replied ∈ x.outcomes →
    x.requestId ≠ 0 ∧ .reply x.requestId ∈ received
  refused : ∀ (j : ℕ) x, me.calls[j]? = some x → .raised .closeConnection ∈ x.outcomes →
    .closeConnection ∈ received ∧ ∀ requestId, (requestId, j) ∉ other.accepted

section Knows

variable {me me' other other' : Connection} {received : List Message} {e : ConnectionEvent}

theorem knows_start (warn : Bool) (side : Bool) :
    Knows (.start false warn side) [] (.start false warn !side) := by
  constructor <;> simp [Connection.start, Link.start]

/-- Only requests of the other end are accepted. -/
theorem Knows.request (h : Knows me received other) {requestId : ℤ} {call : ℕ}
    (hmem : (requestId, call) ∈ me.accepted) : .request requestId call ∈ received := by
  obtain ⟨m, hm, hm'⟩ := List.mem_filterMap.mp (h.accepted.subset hmem)
  cases m <;> simp only [request?, Option.some.injEq, Prod.mk.injEq, reduceCtorEq] at hm'
  obtain ⟨rfl, rfl⟩ := hm'
  exact hm

/-- The other end does something. It accepts nothing once it has said that it closes. -/
theorem knows_other (h : Knows me received other) (hother : other.Sound)
    (hmem : ∀ m ∈ received, m ∈ other.written) (he : Effect other e other') :
    Knows me received other' := by
  refine ⟨h.datagram, h.accepted, h.graceful, h.answered, h.replied, fun j x hx hout => ?_⟩
  obtain ⟨hclose, hnone⟩ := h.refused j x hx hout
  refine ⟨hclose, ?_⟩
  rcases accepted_effect he with hsame | ⟨requestId, call, -, -, hended⟩
  · rw [hsame]
    exact hnone
  · exact absurd (hother.link.final (hmem _ hclose)).1 hended

/-- This end does something, and may have read a message. -/
theorem knows_self (h : Knows me received other) (hcalling : me.Calling)
    (hlen : me'.calls.length < 2 ^ 31 - 1) (hother : other.Sound) (hserving : other.Serving)
    (hdatagram : other.datagram = false) {n : ℕ} (hreceived : received = other.written.take n)
    (hasked : ∀ requestId call, (requestId, call) ∈ other.accepted →
      .request requestId call ∈ me.written)
    (hvalidate : ∀ m failure, e = .validateRead m failure → me.NoRequests)
    (he : Effect me e me') {received' : List Message}
    (hreads : (e.reads = none ∧ received' = received) ∨
      ∃ m, e.reads = some m ∧ other.written[n]? = some m ∧ received' = received ++ [m]) :
    Knows me' received' other := by
  have hold (m : Message) (hm : m ∈ received) : m ∈ received' := by
    rcases hreads with ⟨-, rfl⟩ | ⟨m', -, -, rfl⟩
    · exact hm
    · exact List.mem_append_left _ hm
  have hmessage (m : Message) (u : Bool) (heq : e = .message m u) :
      other.written[n]? = some m ∧ received' = received ++ [m] := by
    subst heq
    rcases hreads with ⟨hnone, -⟩ | ⟨m', hm', hget, hrec⟩
    · simp [ConnectionEvent.reads] at hnone
    · obtain rfl : m = m' := Option.some.inj hm'
      exact ⟨hget, hrec⟩
  obtain ⟨hkept, hbecause⟩ := exception_effect he
  have hgraceful : me'.exception = some .closeConnection →
      me'.NoRequests ∨ .closeConnection ∈ received' := by
    intro hex
    have hnone (hn : me.NoRequests) : me'.NoRequests := by
      rw [noRequests_iff]
      intro requestId j hw
      rcases waits_effect hcalling he hw with ⟨hw, -⟩ | ⟨hnew, -⟩
      · exact not_waits hn requestId j hw
      · simp [hex] at hnew
    rcases hbecause _ hex with hsame | ⟨-, hcause⟩
    · exact (h.graceful hsame).imp hnone (hold _)
    · rcases hcause rfl with ⟨u, rfl⟩ | hn
      · obtain ⟨-, rfl⟩ := hmessage _ u rfl
        exact Or.inr (by simp)
      · exact Or.inl (hnone hn)
  refine ⟨(datagram_effect he).trans h.datagram, ?_, hgraceful, ?_, ?_, ?_⟩
  · rcases accepted_effect he with hsame | ⟨requestId, call, rfl, hnew, -⟩
    · rw [hsame]
      refine h.accepted.trans ?_
      rcases hreads with ⟨-, rfl⟩ | ⟨m, -, -, rfl⟩
      · exact List.Sublist.refl _
      · rw [List.filterMap_append]
        exact List.sublist_append_left _ _
    · obtain ⟨-, rfl⟩ := hmessage _ false rfl
      rw [hnew, List.filterMap_append]
      exact h.accepted.append (List.Sublist.refl _)
  · intro requestId j hmem hw
    rcases waits_effect hcalling he hw with ⟨hw', hsome⟩ |
        ⟨-, rfl, ⟨kind, rfl⟩, hcount⟩
    · by_cases hread : .reply requestId ∈ received
      · obtain ⟨ex, hex, hne⟩ := h.answered requestId j hread hw'
        exact ⟨ex, hkept ex hex, hne⟩
      -- The reply was read just now, and its caller still waits.
      have hevent : ∃ u, e = .message (.reply requestId) u := by
        rcases hreads with ⟨-, rfl⟩ | ⟨m, hm, -, rfl⟩
        · exact absurd hmem hread
        · obtain rfl : .reply requestId = m := by simpa [hread] using hmem
          cases e with
          | message m u => exact ⟨u, by simpa [ConnectionEvent.reads] using hm⟩
          | validateRead m failure => exact absurd hw' (not_waits (hvalidate m failure rfl) _ _)
          | _ => simp [ConnectionEvent.reads] at hm
      obtain ⟨u, rfl⟩ := hevent
      obtain ⟨ex, hex⟩ := Option.isSome_iff_exists.mp (hsome u rfl)
      refine ⟨ex, hex, ?_⟩
      rintro rfl
      obtain ⟨hget, rfl⟩ := hmessage _ u rfl
      rcases hgraceful hex with hnone | hclose
      · exact not_waits hnone requestId j hw
      · have hclose' : .closeConnection ∈ other.written.take n := by
          rw [← hreceived]
          simpa using hclose
        obtain ⟨requestId', call, heq⟩ := hother.link.concluded.eq_request hclose' hget
        exact absurd heq (by simp)
    · -- A new request id has no reply yet.
      have hread : .reply me.newRequestId.1 ∈ other.written := by
        rcases hreads with ⟨-, rfl⟩ | ⟨m, hm, -⟩
        · rw [hreceived] at hmem
          exact List.mem_of_mem_take hmem
        · simp [ConnectionEvent.reads] at hm
      obtain ⟨call, hcall⟩ := hserving.replies _ hread
      obtain ⟨x, hx, hid, -⟩ := hcalling.sent _ _ (hasked _ _ hcall)
      have hlt := (hcalling.ids call x hx).2
      rw [hid, newRequestId_eq hcalling (hcount ▸ hlen)] at hlt
      exact absurd hlt (lt_irrefl _)
  · intro j x' hx' hout
    rcases outcome_effect hcalling he hx' hout with ⟨x, hx, hid, hout'⟩ | ⟨-, rfl, hw⟩ |
      ⟨ex, heq, -⟩ | ⟨ex, heq⟩
    · obtain ⟨hne, hmem⟩ := h.replied j x hx hout'
      exact ⟨hid ▸ hne, hid ▸ hold _ hmem⟩
    · obtain ⟨-, rfl⟩ := hmessage _ false rfl
      obtain ⟨-, -, -, hne, -⟩ := call_of_waits hcalling hw
      exact ⟨hne, by simp⟩
    · exact absurd heq (by simp)
    · exact absurd heq (by simp)
  · intro j x' hx' hout
    rcases outcome_effect hcalling he hx' hout with ⟨x, hx, -, hout'⟩ | ⟨heq, -⟩ |
      ⟨ex, heq, hex, hw⟩ | ⟨ex, heq⟩
    · obtain ⟨hclose, hnone⟩ := h.refused j x hx hout'
      exact ⟨hold _ hclose, hnone⟩
    · exact absurd heq (by simp)
    · obtain rfl := Outcome.raised.inj heq
      have hclose := (h.graceful hex).resolve_left fun hn => not_waits hn _ _ hw
      refine ⟨hold _ hclose, fun requestId hmem => ?_⟩
      -- Had the request been accepted, its reply would have come before the message.
      obtain ⟨x, hx, hid, -⟩ := hcalling.sent _ _ (hasked _ _ hmem)
      obtain ⟨y, hy, hid', hne, -⟩ := call_of_waits hcalling hw
      obtain rfl : x = y := Option.some.inj (hx.symm.trans hy)
      obtain rfl : requestId = x'.requestId := hid.symm.trans hid'
      rw [hreceived] at hclose
      rcases hserving.owed _ _ hmem hne hdatagram with hreply | ⟨hnot, -⟩
      · have hread := hother.link.concluded.mem_take hclose hreply (by simp)
        rw [← hreceived] at hread
        obtain ⟨ex, hex', hne'⟩ := h.answered _ j hread hw
        exact hne' (Option.some.inj (hex'.symm.trans hex))
      · exact hnot (List.mem_of_mem_take hclose)
    · exact absurd heq (by simp)

end Knows

/-! ## Runs -/

namespace Peers

variable {p p' : Peers}

/-- No end runs out of request ids. -/
def Bounded (p : Peers) : Prop := ∀ side, (p.connection side).calls.length < 2 ^ 31 - 1

instance (p : Peers) : Decidable p.Bounded :=
  inferInstanceAs (Decidable (∀ side, (p.connection side).calls.length < 2 ^ 31 - 1))

/-- What holds of the two ends at any time. -/
structure Agree (p : Peers) : Prop where
  sound : ∀ side, (p.connection side).Sound
  serving : ∀ side, (p.connection side).Serving
  read : ∀ side, p.read side ≤ (p.connection !side).written.length
  knows : p.Bounded → ∀ side, (p.connection side).Calling ∧
    Knows (p.connection side) (p.received side) (p.connection !side)

theorem agree_start (warn : Bool) : (start warn).Agree where
  sound side := sound_start false warn side
  serving side := serving_start false warn side
  read side := by simp [start]
  knows _ side := ⟨calling_start false warn side, knows_start warn side⟩

/-- A step at one end, with the section's effect. -/
theorem step_cases {e : Bool × ConnectionEvent} (hs : p.step e = some p') :
    ∃ c, (p.connection e.1).next e.2 = some c ∧
      p'.connection = Function.update p.connection e.1 c ∧
      ((e.2.reads = none ∧ p'.read = p.read) ∨
        ∃ m, e.2.reads = some m ∧ (p.connection !e.1).written[p.read e.1]? = some m ∧
          p'.read = Function.update p.read e.1 (p.read e.1 + 1)) := by
  rw [step] at hs
  split at hs
  · next hreads =>
    obtain ⟨c, hc, rfl⟩ := Option.map_eq_some_iff.mp hs
    exact ⟨c, hc, rfl, Or.inl ⟨hreads, rfl⟩⟩
  · next m hreads =>
    obtain ⟨hm, hs⟩ := Option.ite_none_right_eq_some.mp hs
    obtain ⟨c, hc, rfl⟩ := Option.map_eq_some_iff.mp hs
    exact ⟨c, hc, rfl, Or.inr ⟨m, hreads, hm, rfl⟩⟩

/-- Who validates a connection by reading has not called yet. -/
theorem noRequests_of_validateRead {c c' : Connection} {m : Message} {failure : Option Failure}
    (h : c.Sound) (hc : c.Calling) (hs : c.next (.validateRead m failure) = some c') :
    c.NoRequests := by
  obtain ⟨r, hr, -⟩ := Option.bind_eq_some_iff.mp hs
  obtain ⟨⟨hchecked, hpassive⟩, -⟩ := Option.ite_none_right_eq_some.mp hr
  have hfits := h.validating
  rw [Validation.Fits, if_neg (by simp [hchecked])] at hfits
  exact noRequests_of_calls hc (h.validated (hfits.2 hpassive)).2

theorem agree_next {e : Bool × ConnectionEvent} (h : p.Agree) (hs : p.step e = some p') :
    p'.Agree := by
  obtain ⟨side, e⟩ := e
  obtain ⟨c, hc, hconn, hread⟩ := step_cases hs
  obtain ⟨hsound, he⟩ := sound_next (h.sound side) hc
  obtain ⟨ms, hms⟩ := written_effect he
  have hself : p'.connection side = c := by rw [hconn, Function.update_self]
  have hpeer : p'.connection (!side) = p.connection !side := by
    rw [hconn, Function.update_of_ne (by simp)]
  have hreadpeer : p'.read (!side) = p.read !side := by
    rcases hread with ⟨-, hr⟩ | ⟨m, -, -, hr⟩
    · rw [hr]
    · rw [hr, Function.update_of_ne (by simp)]
  have hlength : p.read (!side) ≤ (p.connection side).written.length := by
    simpa using h.read !side
  -- The two cases of a statement about both ends.
  have hboth {P : Bool → Prop} (h₁ : P side) (h₂ : P !side) : ∀ s, P s := by
    intro s
    by_cases hs : s = side
    · exact hs ▸ h₁
    · rw [Bool.eq_not_of_ne hs]
      exact h₂
  refine ⟨hboth ?_ ?_, hboth ?_ ?_, hboth ?_ ?_, fun hbounded => ?_⟩
  · exact hself ▸ hsound
  · exact hpeer ▸ h.sound !side
  · exact hself ▸ serving_effect (h.sound side) (h.serving side) he
  · exact hpeer ▸ h.serving !side
  · rw [hpeer]
    rcases hread with ⟨-, hr⟩ | ⟨m, -, hget, hr⟩
    · rw [hr]
      exact h.read side
    · rw [hr, Function.update_self]
      exact (List.getElem?_eq_some_iff.mp hget).1
  · rw [Bool.not_not, hreadpeer, hself, hms, List.length_append]
    omega
  · have hlen : c.calls.length < 2 ^ 31 - 1 := hself ▸ hbounded side
    have hold : p.Bounded := hboth (lt_of_le_of_lt (length_le he) hlen) (hpeer ▸ hbounded !side)
    obtain ⟨hcalling, hknows⟩ := h.knows hold side
    obtain ⟨hcalling', hknows'⟩ := h.knows hold !side
    rw [Bool.not_not] at hknows'
    refine hboth ⟨?_, ?_⟩ ⟨hpeer ▸ hcalling', ?_⟩
    · exact hself ▸ calling_effect hcalling he hlen
    · rw [hself, hpeer]
      refine knows_self hknows hcalling hlen (h.sound !side) (h.serving !side) hknows'.datagram rfl
        (fun requestId call hmem => ?_) (fun m failure heq => ?_) he ?_
      · have := hknows'.request hmem
        rw [received, Bool.not_not] at this
        exact List.mem_of_mem_take this
      · subst heq
        exact noRequests_of_validateRead (h.sound side) hcalling hc
      · rcases hread with ⟨hnone, hr⟩ | ⟨m, hm, hget, hr⟩
        · exact Or.inl ⟨hnone, by rw [received, received, hpeer, hr]⟩
        · refine Or.inr ⟨m, hm, hget, ?_⟩
          obtain ⟨hlt, rfl⟩ := List.getElem?_eq_some_iff.mp hget
          rw [received, received, hpeer, hr, Function.update_self]
          exact (List.take_concat_get' _ _ hlt).symm
    · have hreceived : p'.received (!side) = p.received !side := by
        rw [received, received, Bool.not_not, hself, hreadpeer, hms,
          List.take_append_of_le_length hlength]
      rw [hpeer, hreceived, Bool.not_not, hself]
      refine knows_other hknows' (h.sound side) (fun m hm => ?_) he
      rw [received, Bool.not_not] at hm
      exact List.mem_of_mem_take hm

theorem run_agree {warn : Bool} {es : List (Bool × ConnectionEvent)}
    (hr : run step (start warn) es = some p) : p.Agree :=
  run_invariant_of_step (fun _ _ _ h hs => agree_next h hs) (agree_start warn) hr

/-! ## At most once -/

/-- How often the other end has accepted a request for dispatch. -/
def dispatches (p : Peers) (side : Bool) (j : ℕ) : ℕ :=
  ((p.connection !side).accepted.map Prod.snd).count j

theorem Agree.accepted_once (h : p.Agree) (hbounded : p.Bounded) (side : Bool) (j : ℕ) :
    p.dispatches side j ≤ 1 := by
  have hcalling := (h.knows hbounded side).1
  have hknows := (h.knows hbounded !side).2
  rw [received, Bool.not_not] at hknows
  have hsub : ((p.connection !side).accepted.map Prod.snd).Sublist
      (((p.connection side).written.filterMap request?).map Prod.snd) :=
    (hknows.accepted.trans ((List.take_sublist _ _).filterMap request?)).map Prod.snd
  exact List.nodup_iff_count_le_one.mp (hcalling.unique.sublist hsub) j

/-- **What may be repeated was not dispatched.** -/
theorem Agree.not_dispatched (h : p.Agree) (hbounded : p.Bounded) {side : Bool} {j : ℕ} {x : Call}
    (hx : (p.connection side).calls[j]? = some x) {outcome : Outcome}
    (hout : outcome ∈ x.outcomes) (hrepeat : outcome.Repeatable) : p.dispatches side j = 0 := by
  obtain ⟨hcalling, hknows⟩ := h.knows hbounded side
  have hknows' := (h.knows hbounded !side).2
  rw [dispatches, List.count_eq_zero]
  intro hmem
  obtain ⟨⟨requestId, j⟩, haccepted, rfl⟩ := List.mem_map.mp hmem
  cases outcome with
  | replied => exact hrepeat
  | raised ex =>
      obtain rfl : ex = .closeConnection := hrepeat
      exact (hknows.refused j x hx hout).2 requestId haccepted
  | thrown ex =>
      have hsent := hknows'.request haccepted
      rw [received, Bool.not_not] at hsent
      obtain ⟨y, hy, -, -, hnone⟩ := hcalling.sent requestId j (List.mem_of_mem_take hsent)
      obtain rfl : x = y := Option.some.inj (hx.symm.trans hy)
      exact hnone ex hout

/-- The two ends after validation. -/
def established : List (Bool × ConnectionEvent) :=
  [(true, .validateCheck), (true, .validateSend none), (true, .validated), (true, .activate),
    (false, .validateCheck), (false, .validateRead .validateConnection none), (false, .validated),
    (false, .activate)]

/-- One call, with its reply. -/
def oneCall : List (Bool × ConnectionEvent) :=
  established ++ [(false, .sendRequest .twoway), (false, .send 0 none),
    (true, .message (.request 1 0) false), (true, .respond 0 none), (true, .responded 0 none),
    (false, .message (.reply 1) false)]

end Peers

end IceSerialPort.Ice
