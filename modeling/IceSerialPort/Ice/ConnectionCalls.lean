import IceSerialPort.Ice.ConnectionSafety

/-!
# Requests and replies of a connection

What a connection owes: to a caller, one outcome and not two; to its peer, a reply for
every request it has accepted, before it says that it closes.

## Main definitions

* `Connection.Serving`: how far the requests that were accepted have come.
* `Connection.Calling`: how far the requests that were sent have come.

## Main results

* `serving_effect`, `calling_effect`: every section keeps both.
* `run_serving`, `run_calling`: so they hold after any run; of the callers, as long as
  request ids do not wrap around.
* `answered_before_closing`: what was accepted is answered before the connection closes.
* `everyone_told`: no caller waits in vain.
-/

namespace IceSerialPort.Ice

open Transition

namespace Connection

variable {c c' : Connection} {e : ConnectionEvent}

/-! ## Requests that were accepted -/

/-- A request with this id is being dispatched. -/
def InProgress (c : Connection) (requestId : ℤ) : Prop :=
  ∃ w ∈ c.works, w.requestId = requestId ∧ 0 < w.invokeNum

/-- How far the requests that were accepted have come. Only a closed connection leaves one
without a reply, and it does not say that it closes. -/
structure Serving (c : Connection) : Prop where
  owed : ∀ requestId call, (requestId, call) ∈ c.accepted → requestId ≠ 0 → c.datagram = false →
    .reply requestId ∈ c.written ∨
      (.closeConnection ∉ c.written ∧ (c.state = .closed ∨ c.InProgress requestId))
  answered : ∀ w ∈ c.works, w.phase = .answered → .reply w.requestId ∈ c.written ∨ c.state = .closed
  broken : ∀ w ∈ c.works, w.phase = .broken → c.state = .closed
  asked : ∀ w ∈ c.works, w.requestId ≠ 0 → ∃ call, (w.requestId, call) ∈ c.accepted
  replies : ∀ requestId, .reply requestId ∈ c.written → ∃ call, (requestId, call) ∈ c.accepted

theorem serving_start (datagram warn active : Bool) : (start datagram warn active).Serving := by
  constructor <;> simp [start, Link.start]

/-- With nothing left to dispatch, no request is in progress. -/
theorem not_inProgress (h : c.Sound) (hcount : c.dispatchCount = 0) (requestId : ℤ) :
    ¬ c.InProgress requestId := by
  rintro ⟨w, hw, -, hpos⟩
  obtain ⟨i, hi⟩ := List.mem_iff_getElem?.mp hw
  have := (count_pos h hi hpos).2
  omega

/-- A change of state. If the connection says that it closes, it has answered. -/
theorem Serving.switch (hc : c.Serving) (h : c.Sound) {l : Link} (validation : Validation)
    (hkept : Link.Kept c.toLink l) :
    Serving { c with toLink := l, validation := validation } := by
  have hold (m : Message) (hm : m ∈ c.written) : m ∈ l.written := by
    rcases hkept.written with hw | ⟨hw, -⟩ <;> rw [hw]
    · exact hm
    · exact List.mem_append_left _ hm
  have hnew (m : Message) (hm : m ∈ l.written) : m ∈ c.written ∨ m = .closeConnection := by
    rcases hkept.written with hw | ⟨hw, -⟩ <;> rw [hw] at hm
    · exact Or.inl hm
    · simpa using hm
  constructor
  · intro requestId call hmem hid hdatagram
    rcases hc.owed requestId call hmem hid (hkept.datagram.symm.trans hdatagram) with hr | ⟨hn, hs⟩
    · exact Or.inl (hold _ hr)
    · right
      rcases hkept.written with hw | ⟨-, hcount, hopen, -⟩
      · exact ⟨hw ▸ hn, hs.imp hkept.closed id⟩
      · rcases hs with hclosed | hin
        · exact absurd hclosed hopen
        · exact absurd hin (not_inProgress h hcount requestId)
  · intro w hw hphase
    exact (hc.answered w hw hphase).imp (hold _) hkept.closed
  · intro w hw hphase
    exact hkept.closed (hc.broken w hw hphase)
  · exact hc.asked
  · intro requestId hm
    rcases hnew _ hm with hm | hm
    · exact hc.replies requestId hm
    · exact absurd hm (by simp)

/-- A message that is neither a reply nor about closing. -/
theorem Serving.write (hc : c.Serving) {m : Message} (hreply : ∀ requestId, m ≠ .reply requestId)
    (hclose : m ≠ .closeConnection) : Serving { c with written := c.written ++ [m] } := by
  constructor
  · intro requestId call hmem hid hdatagram
    rcases hc.owed requestId call hmem hid hdatagram with hr | ⟨hn, hs⟩
    · exact Or.inl (List.mem_append_left _ hr)
    · exact Or.inr ⟨by simp [hn, hclose.symm], hs⟩
  · intro w hw hphase
    exact (hc.answered w hw hphase).imp (List.mem_append_left _) id
  · exact hc.broken
  · exact hc.asked
  · intro requestId hm
    rcases List.mem_append.mp hm with hm | hm
    · exact hc.replies requestId hm
    · exact absurd (List.mem_singleton.mp hm).symm (hreply requestId)

/-- What only concerns the callers. -/
theorem Serving.with_callers (hc : c.Serving) (next : ℤ) (requests asyncRequests : HintedMap ℤ ℕ)
    (calls : List Call) : Serving { c with
      nextRequestId := next
      requests := requests
      asyncRequests := asyncRequests
      calls := calls } :=
  ⟨hc.owed, hc.answered, hc.broken, hc.asked, hc.replies⟩

/-- A dispatch that goes on is still in progress. -/
theorem inProgress_workGoes {i : ℕ} {w : Work} (hw : c.works[i]? = some w) (phase : Phase)
    {requestId : ℤ} (hin : c.InProgress requestId) : (c.workGoes i phase).InProgress requestId := by
  obtain ⟨v, hv, hid, hpos⟩ := hin
  obtain ⟨j, hj⟩ := List.mem_iff_getElem?.mp hv
  by_cases hij : i = j
  · subst hij
    obtain rfl : w = v := Option.some.inj (hw.symm.trans hj)
    refine ⟨{ w with phase := phase }, List.mem_of_getElem? (i := i) ?_, hid, hpos⟩
    simp [workGoes, hw]
  · refine ⟨v, List.mem_of_getElem? (i := j) ?_, hid, hpos⟩
    simp [workGoes, hij, hj]

/-- A dispatch goes on. -/
theorem Serving.workGoes (hc : c.Serving) {i : ℕ} {w : Work} (hw : c.works[i]? = some w)
    {phase : Phase}
    (hanswered : phase = .answered → .reply w.requestId ∈ c.written ∨ c.state = .closed)
    (hbroken : phase = .broken → c.state = .closed) : (c.workGoes i phase).Serving := by
  constructor
  · intro requestId call hmem hid hdatagram
    rcases hc.owed requestId call hmem hid hdatagram with hr | ⟨hn, hs⟩
    · exact Or.inl hr
    · exact Or.inr ⟨hn, hs.imp id (inProgress_workGoes hw phase)⟩
  · intro v hv hphase
    rcases mem_modify_works hv with ⟨w', hw', rfl⟩ | hold
    · obtain rfl : w = w' := Option.some.inj (hw.symm.trans hw')
      exact hanswered hphase
    · exact hc.answered v hold hphase
  · intro v hv hphase
    rcases mem_modify_works hv with ⟨w', -, rfl⟩ | hold
    · exact hbroken hphase
    · exact hc.broken v hold hphase
  · intro v hv hid
    rcases mem_modify_works hv with ⟨w', hw', rfl⟩ | hold
    · exact hc.asked w' (List.mem_of_getElem? hw') hid
    · exact hc.asked v hold hid
  · exact hc.replies

/-- A dispatch is counted out: it is answered, or the connection is closed, or no reply is
expected. -/
theorem Serving.workEnds (hc : c.Serving) {i n : ℕ} {w : Work} (hw : c.works[i]? = some w)
    (hphase : w.phase = .answered ∨ w.phase = .broken ∨ ¬ c.Response w) :
    (c.workEnds i n).Serving := by
  constructor
  · intro requestId call hmem hid hdatagram
    rcases hc.owed requestId call hmem hid hdatagram with hr | ⟨hn, hclosed | hin⟩
    · exact Or.inl hr
    · exact Or.inr ⟨hn, Or.inl hclosed⟩
    obtain ⟨v, hv, rfl, hpos⟩ := hin
    obtain ⟨j, hj⟩ := List.mem_iff_getElem?.mp hv
    by_cases hij : i = j
    · subst hij
      obtain rfl : w = v := Option.some.inj (hw.symm.trans hj)
      rcases hphase with hphase | hphase | hphase
      · exact (hc.answered w hv hphase).imp id fun hclosed => ⟨hn, Or.inl hclosed⟩
      · exact Or.inr ⟨hn, Or.inl (hc.broken w hv hphase)⟩
      · exact absurd ⟨hdatagram, hid⟩ hphase
    · refine Or.inr ⟨hn, Or.inr ⟨v, List.mem_of_getElem? (i := j) ?_, rfl, hpos⟩⟩
      simp [Connection.workEnds, hij, hj]
  · intro v hv hphase'
    rcases mem_modify_works hv with ⟨w', -, rfl⟩ | hold
    · exact absurd hphase' (by simp)
    · exact hc.answered v hold hphase'
  · intro v hv hphase'
    rcases mem_modify_works hv with ⟨w', -, rfl⟩ | hold
    · exact absurd hphase' (by simp)
    · exact hc.broken v hold hphase'
  · intro v hv hid
    rcases mem_modify_works hv with ⟨w', hw', rfl⟩ | hold
    · exact hc.asked w' (List.mem_of_getElem? hw') hid
    · exact hc.asked v hold hid
  · exact hc.replies

/-- A request is accepted, or a batch. -/
theorem Serving.accept (hc : c.Serving) (h : c.Sound) (hended : ¬ c.state.Ended) {w : Work}
    (count : ℤ) (accepted : List (ℤ × ℕ)) (hphase : w.phase = .invoking)
    (hnew : ∀ requestId call, (requestId, call) ∈ accepted →
      requestId = w.requestId ∧ 0 < w.invokeNum)
    (hasked : w.requestId ≠ 0 → ∃ call, (w.requestId, call) ∈ accepted) :
    Serving { c with
      dispatchCount := count
      works := c.works ++ [w]
      accepted := c.accepted ++ accepted } := by
  constructor
  · intro requestId call hmem hid hdatagram
    rcases List.mem_append.mp hmem with hmem | hmem
    · rcases hc.owed requestId call hmem hid hdatagram with hr | ⟨hn, hclosed | hin⟩
      · exact Or.inl hr
      · exact absurd (Or.inr hclosed) hended
      · obtain ⟨v, hv, hv'⟩ := hin
        exact Or.inr ⟨hn, Or.inr ⟨v, List.mem_append_left _ hv, hv'⟩⟩
    · obtain ⟨rfl, hpos⟩ := hnew requestId call hmem
      have hn : .closeConnection ∉ c.written := fun hm => hended (h.link.final hm).1
      exact Or.inr ⟨hn, Or.inr ⟨w, by simp, rfl, hpos⟩⟩
  · intro v hv hphase'
    rcases List.mem_append.mp hv with hold | hlast
    · exact hc.answered v hold hphase'
    · obtain rfl := List.mem_singleton.mp hlast
      rw [hphase] at hphase'
      exact absurd hphase' (by simp)
  · intro v hv hphase'
    rcases List.mem_append.mp hv with hold | hlast
    · exact hc.broken v hold hphase'
    · obtain rfl := List.mem_singleton.mp hlast
      rw [hphase] at hphase'
      exact absurd hphase' (by simp)
  · intro v hv hid
    rcases List.mem_append.mp hv with hold | hlast
    · obtain ⟨call, hcall⟩ := hc.asked v hold hid
      exact ⟨call, List.mem_append_left _ hcall⟩
    · obtain rfl := List.mem_singleton.mp hlast
      obtain ⟨call, hcall⟩ := hasked hid
      exact ⟨call, List.mem_append_right _ hcall⟩
  · intro requestId hm
    obtain ⟨call, hcall⟩ := hc.replies requestId hm
    exact ⟨call, List.mem_append_left _ hcall⟩

/-- A reply is written. -/
theorem Serving.answer (hc : c.Serving) {w : Work}
    (hw : w ∈ c.works) (hid : w.requestId ≠ 0) :
    Serving { c with written := c.written ++ [Message.reply w.requestId] } := by
  constructor
  · intro requestId call hmem hid hdatagram
    rcases hc.owed requestId call hmem hid hdatagram with hr | ⟨hn, hs⟩
    · exact Or.inl (List.mem_append_left _ hr)
    · exact Or.inr ⟨by simp [hn], hs⟩
  · intro v hv hphase
    exact (hc.answered v hv hphase).imp (List.mem_append_left _) id
  · exact hc.broken
  · exact hc.asked
  · intro requestId hm
    rcases List.mem_append.mp hm with hm | hm
    · exact hc.replies requestId hm
    · obtain rfl : requestId = w.requestId := by simpa using hm
      exact hc.asked w hw hid

theorem Serving.eraseRequest (hc : c.Serving) (kind : CallKind) (requestId : ℤ) :
    (c.eraseRequest kind requestId).Serving := by
  cases kind <;> exact ⟨hc.owed, hc.answered, hc.broken, hc.asked, hc.replies⟩

/-- **What a section does for the requests that were accepted.** -/
theorem serving_effect (h : c.Sound) (hc : c.Serving) (he : Effect c e c') : c'.Serving := by
  cases he with
  | link validation hl hsw => exact hc.switch h validation hsw.toKept
  | validate failure hstate =>
      have hwrite := hc.write (m := .validateConnection) (by simp) (by simp)
      exact ⟨hwrite.owed, hwrite.answered, hwrite.broken, hwrite.asked, hwrite.replies⟩
  | accept requestId call hval hended =>
      exact hc.accept h hended (w := ⟨requestId, 1, .invoking⟩) _ [(requestId, call)] rfl
        (by simp) fun _ => ⟨call, by simp⟩
  | acceptBatch invokeNum hval hended =>
      have := hc.accept h hended (w := ⟨0, invokeNum, .invoking⟩) (c.dispatchCount + invokeNum) [] rfl
        (by simp) (by simp)
      simpa using this
  | reply requestId kind j hwaits =>
      have herase := hc.eraseRequest kind requestId
      exact herase.with_callers _ _ _ _
  | raise ex hl hkept => exact (hc.switch h c.validation hkept).with_callers _ _ _ _
  | refuse kind ex hex => exact hc.with_callers _ _ _ _
  | beginOneway hval => exact hc.with_callers _ _ _ _
  | beginTwoway hex hval hdatagram => exact hc.with_callers _ _ _ _
  | beginAsync hex hval hdatagram => exact hc.with_callers _ _ _ _
  | sent i failure x hx hsending =>
      exact (hc.write (m := .request x.requestId i) (by simp) (by simp)).with_callers _ _ _ _
  | unsent i failure x hx hsending ex => exact hc.with_callers _ _ _ _
  | giveUp i x hx ex hfailed hl hsw =>
      exact (hc.switch h c.validation hsw.toKept).with_callers _ _ _ _
  | throw i x hx ex ex' hfailed hl hsw =>
      exact (((hc.switch h c.validation hsw.toKept).with_callers _ _ _ _).eraseRequest x.kind
        x.requestId).with_callers _ _ _ _
  | answer i failure w hw hone hresponse hopen =>
      refine (hc.answer (List.mem_of_getElem? hw) hresponse.2).workGoes hw (fun _ => ?_) (by simp)
      exact Or.inl (by simp)
  | unanswered i failure w hw hone ex => exact hc.workGoes hw (by simp) (by simp)
  | breakOff i w hw hpos phase hphase hl hsw hclosed =>
      exact (hc.switch h c.validation hsw.toKept).workGoes hw (fun _ => Or.inr hclosed)
        fun _ => hclosed
  | countOut i n w hw hn hpos hphase hl hsw =>
      have hends : (c.workEnds i n).Serving := hc.workEnds hw hphase
      exact hends.switch (h.workEnds hw hn hpos) c.validation hsw.toKept

/-! ## Requests that were sent -/

/-- The request that a message is, if it is one. -/
def request? : Message → Option (ℤ × ℕ)
  | .request requestId call => some (requestId, call)
  | _ => none

/-- How far the requests that were sent have come. A caller that expects a reply waits or
was told something, and was told it once; who was told by an exception of `sendRequest` has
not sent anything. -/
structure Calling (c : Connection) : Prop where
  next : 1 ≤ c.nextRequestId ∧ c.nextRequestId ≤ c.calls.length + 1
  ids : ∀ (j : ℕ) x, c.calls[j]? = some x → 0 ≤ x.requestId ∧ x.requestId < c.nextRequestId
  distinct : ∀ (i j : ℕ) x y, c.calls[i]? = some x → c.calls[j]? = some y →
    x.requestId = y.requestId → x.requestId ≠ 0 → i = j
  waits : ∀ kind requestId j, (requestId, j) ∈ (c.waiting kind).entries →
    ∃ x, c.calls[j]? = some x ∧ x.kind = kind ∧ x.requestId = requestId ∧ requestId ≠ 0 ∧
      x.outcomes = []
  told : ∀ (j : ℕ) x, c.calls[j]? = some x → x.kind ≠ .oneway → x.outcomes = [] →
    (x.requestId, j) ∈ (c.waiting x.kind).entries
  once : ∀ (j : ℕ) x, c.calls[j]? = some x → x.outcomes.length ≤ 1
  oneway : ∀ (j : ℕ) x, c.calls[j]? = some x → x.kind = .oneway → x.progress ≠ .over →
    x.outcomes = []
  thrown : ∀ (j : ℕ) x ex, c.calls[j]? = some x → .thrown ex ∈ x.outcomes → x.progress = .over
  sent : ∀ requestId j, .request requestId j ∈ c.written → ∃ x, c.calls[j]? = some x ∧
    x.requestId = requestId ∧ x.progress = .over ∧ ∀ ex, .thrown ex ∉ x.outcomes
  unique : ((c.written.filterMap request?).map Prod.snd).Nodup

theorem calling_start (datagram warn active : Bool) : (start datagram warn active).Calling := by
  constructor <;> simp [start, Link.start]
  intro kind
  cases kind <;> simp [waiting]

/-- What only concerns the link, the requests that were accepted, or a message that is not
a request. -/
theorem Calling.with_link (hc : c.Calling) (h' : c'.nextRequestId = c.nextRequestId)
    (hrequests : c'.requests = c.requests) (hasync : c'.asyncRequests = c.asyncRequests)
    (hcalls : c'.calls = c.calls)
    (hwritten : c'.written.filterMap request? = c.written.filterMap request?) : c'.Calling := by
  have hwaiting (kind : CallKind) : c'.waiting kind = c.waiting kind := by
    cases kind <;> simp [waiting, hrequests, hasync]
  have hsent (requestId : ℤ) (j : ℕ) :
      .request requestId j ∈ c'.written ↔ .request requestId j ∈ c.written := by
    have hiff (ms : List Message) :
        .request requestId j ∈ ms ↔ (requestId, j) ∈ ms.filterMap request? := by
      rw [List.mem_filterMap]
      refine ⟨fun hm => ⟨_, hm, rfl⟩, ?_⟩
      rintro ⟨m, hm, hm'⟩
      cases m <;> simp_all [request?]
    rw [hiff, hiff, hwritten]
  constructor
  · rw [h', hcalls]
    exact hc.next
  · rw [h', hcalls]
    exact hc.ids
  · rw [hcalls]
    exact hc.distinct
  · intro kind
    rw [hwaiting, hcalls]
    exact hc.waits kind
  · intro j x
    rw [hwaiting, hcalls]
    exact hc.told j x
  · rw [hcalls]
    exact hc.once
  · rw [hcalls]
    exact hc.oneway
  · rw [hcalls]
    exact hc.thrown
  · intro requestId j
    rw [hsent, hcalls]
    exact hc.sent requestId j
  · rw [hwritten]
    exact hc.unique

/-- A change of state. -/
theorem Calling.switch (hc : c.Calling) {l : Link} (validation : Validation)
    (hkept : Link.Kept c.toLink l) :
    Calling { c with toLink := l, validation := validation } := by
  refine hc.with_link rfl rfl rfl rfl ?_
  rcases hkept.written with hw | ⟨hw, -⟩ <;> rw [hw]
  simp [request?]

/-- A caller goes on in `sendRequest`. -/
theorem Calling.callGoes (hc : c.Calling) {i : ℕ} {x : Call} (hx : c.calls[i]? = some x)
    (progress : Progress) (hprogress : progress = .over ∨ x.progress ≠ .over) :
    (c.callGoes i progress).Calling := by
  have hget (j : ℕ) (y : Call) (hy : (c.callGoes i progress).calls[j]? = some y) :
      ∃ z, c.calls[j]? = some z ∧ z.kind = y.kind ∧ z.requestId = y.requestId ∧
        z.outcomes = y.outcomes ∧
        ((y.progress = z.progress) ∨ y.progress = .over ∨ z.progress ≠ .over) := by
    simp only [Connection.callGoes, List.getElem?_modify] at hy
    split at hy
    · next hij =>
      subst hij
      rw [hx] at hy
      obtain rfl : { x with progress := progress } = y := by simpa using hy
      exact ⟨x, hx, rfl, rfl, rfl, Or.inr hprogress⟩
    · rw [id_map'] at hy
      exact ⟨y, hy, rfl, rfl, rfl, Or.inl rfl⟩
  have hset (j : ℕ) (z : Call) (hz : c.calls[j]? = some z) :
      ∃ y, (c.callGoes i progress).calls[j]? = some y ∧ y.kind = z.kind ∧
        y.requestId = z.requestId ∧ y.outcomes = z.outcomes ∧
        (z.progress = .over → y.progress = .over) := by
    simp only [Connection.callGoes, List.getElem?_modify, hz]
    split
    · next hij =>
      subst hij
      obtain rfl : x = z := Option.some.inj (hx.symm.trans hz)
      exact ⟨_, rfl, rfl, rfl, rfl, fun hover => hprogress.resolve_right (not_not.mpr hover)⟩
    · exact ⟨z, rfl, rfl, rfl, rfl, id⟩
  constructor
  · simpa [Connection.callGoes] using hc.next
  · intro j y hy
    obtain ⟨z, hz, -, hid, -⟩ := hget j y hy
    exact hid ▸ hc.ids j z hz
  · intro j k y y' hy hy' heq hne
    obtain ⟨z, hz, -, hid, -⟩ := hget j y hy
    obtain ⟨z', hz', -, hid', -⟩ := hget k y' hy'
    exact hc.distinct j k z z' hz hz' (by rw [hid, hid', heq]) (hid ▸ hne)
  · intro kind requestId j hmem
    obtain ⟨z, hz, hkind, hid, hne, hout⟩ := hc.waits kind requestId j (by cases kind <;> exact hmem)
    obtain ⟨y, hy, hkind', hid', hout', -⟩ := hset j z hz
    exact ⟨y, hy, hkind'.trans hkind, hid'.trans hid, hne, hout'.trans hout⟩
  · intro j y hy hkind hout
    obtain ⟨z, hz, hkind', hid, hout', -⟩ := hget j y hy
    have hmem := hc.told j z hz (hkind' ▸ hkind) (hout'.trans hout)
    rw [hkind', hid] at hmem
    cases hk : y.kind <;> rw [hk] at hmem <;> exact hmem
  · intro j y hy
    obtain ⟨z, hz, -, -, hout, -⟩ := hget j y hy
    exact hout ▸ hc.once j z hz
  · intro j y hy hkind hover
    obtain ⟨z, hz, hkind', -, hout, hpr⟩ := hget j y hy
    rw [← hout]
    refine hc.oneway j z hz (hkind'.trans hkind) ?_
    rcases hpr with heq | hy | hz
    · exact heq ▸ hover
    · exact absurd hy hover
    · exact hz
  · intro j y ex hy hthrown
    obtain ⟨z, hz, -, -, hout, hpr⟩ := hget j y hy
    have hover := hc.thrown j z ex hz (hout ▸ hthrown)
    rcases hpr with heq | hy | hz
    · exact heq.trans hover
    · exact hy
    · exact absurd hover hz
  · intro requestId j hmem
    obtain ⟨z, hz, hid, hover, hthrown⟩ := hc.sent requestId j hmem
    obtain ⟨y, hy, -, hid', hout, hover'⟩ := hset j z hz
    exact ⟨y, hy, hid'.trans hid, hover' hover, fun ex => hout ▸ hthrown ex⟩
  · exact hc.unique

/-- Some callers are told something, and wait no longer. They were not told anything
before; and if it is that `sendRequest` throws, they have not sent anything. -/
theorem Calling.complete (hc : c.Calling) {outcome : Outcome} {js : List ℕ}
    {requests asyncRequests : HintedMap ℤ ℕ} (hnodup : js.Nodup)
    (hnew : ∀ j ∈ js, ∀ x, c.calls[j]? = some x → x.outcomes = [] ∧
      (x.kind = .oneway → x.progress = .over))
    (hthrown : ∀ ex, outcome = .thrown ex → ∀ j ∈ js,
      (∀ requestId, .request requestId j ∉ c.written) ∧
        ∀ x, c.calls[j]? = some x → x.progress = .over)
    (hmaps : ∀ kind requestId j,
      (requestId, j) ∈ (waiting { c with
        requests := requests, asyncRequests := asyncRequests } kind).entries ↔
        (requestId, j) ∈ (c.waiting kind).entries ∧ j ∉ js) :
    Calling { c with
      requests := requests
      asyncRequests := asyncRequests
      calls := complete c.calls outcome js } := by
  have hget (j : ℕ) (y : Call) (hy : (Ice.complete c.calls outcome js)[j]? = some y) :
      ∃ x, c.calls[j]? = some x ∧
        y = { x with outcomes := x.outcomes ++ List.replicate (js.count j) outcome } := by
    rw [getElem?_complete, Option.map_eq_some_iff] at hy
    obtain ⟨x, hx, rfl⟩ := hy
    exact ⟨x, hx, rfl⟩
  have hset (j : ℕ) (x : Call) (hx : c.calls[j]? = some x) :
      (Ice.complete c.calls outcome js)[j]? =
        some { x with outcomes := x.outcomes ++ List.replicate (js.count j) outcome } := by
    rw [getElem?_complete, hx]
    rfl
  have hmem (j : ℕ) (hj : j ∈ js) : js.count j = 1 := List.count_eq_one_of_mem hnodup hj
  constructor
  · simpa using hc.next
  · intro j y hy
    obtain ⟨x, hx, rfl⟩ := hget j y hy
    exact hc.ids j x hx
  · intro j k y y' hy hy' heq hne
    obtain ⟨x, hx, rfl⟩ := hget j y hy
    obtain ⟨x', hx', rfl⟩ := hget k y' hy'
    exact hc.distinct j k x x' hx hx' heq hne
  · intro kind requestId j hw
    obtain ⟨hw, hj⟩ := (hmaps kind requestId j).mp (by cases kind <;> exact hw)
    obtain ⟨x, hx, hkind, hid, hne, hout⟩ := hc.waits kind requestId j hw
    exact ⟨_, hset j x hx, hkind, hid, hne, by simp [hout, List.count_eq_zero_of_not_mem hj]⟩
  · intro j y hy hkind hout
    obtain ⟨x, hx, rfl⟩ := hget j y hy
    simp only [List.append_eq_nil_iff, List.replicate_eq_nil_iff] at hout
    have hw := (hmaps x.kind x.requestId j).mpr
      ⟨hc.told j x hx hkind hout.1, List.count_eq_zero.mp hout.2⟩
    cases hk : x.kind <;> rw [hk] at hw <;> exact hw
  · intro j y hy
    obtain ⟨x, hx, rfl⟩ := hget j y hy
    by_cases hj : j ∈ js
    · simp [(hnew j hj x hx).1, hmem j hj]
    · simpa [List.count_eq_zero_of_not_mem hj] using hc.once j x hx
  · intro j y hy hkind hover
    obtain ⟨x, hx, rfl⟩ := hget j y hy
    by_cases hj : j ∈ js
    · exact absurd ((hnew j hj x hx).2 hkind) hover
    · simpa [List.count_eq_zero_of_not_mem hj] using hc.oneway j x hx hkind hover
  · intro j y ex hy hex
    obtain ⟨x, hx, rfl⟩ := hget j y hy
    rcases List.mem_append.mp hex with hold | hlast
    · exact hc.thrown j x ex hx hold
    · obtain ⟨hne, heq⟩ := List.mem_replicate.mp hlast
      have hj : j ∈ js := by
        by_contra hj
        exact hne (List.count_eq_zero_of_not_mem hj)
      exact (hthrown ex heq.symm j hj).2 x hx
  · intro requestId j hw
    obtain ⟨x, hx, hid, hover, hno⟩ := hc.sent requestId j hw
    refine ⟨_, hset j x hx, hid, hover, fun ex hex => ?_⟩
    rcases List.mem_append.mp hex with hold | hlast
    · exact hno ex hold
    · obtain ⟨hne, heq⟩ := List.mem_replicate.mp hlast
      have hj : j ∈ js := by
        by_contra hj
        exact hne (List.count_eq_zero_of_not_mem hj)
      exact (hthrown ex heq.symm j hj).1 requestId hw
  · exact hc.unique

/-- The maps without the request of one caller. -/
theorem mem_eraseRequest (hc : c.Calling) {kind : CallKind} {requestId : ℤ} {j : ℕ} {x : Call}
    (hx : c.calls[j]? = some x) (hkind : x.kind = kind) (hid : x.requestId = requestId)
    (hwaits : kind = .oneway ∨ (requestId, j) ∈ (c.waiting kind).entries) (kind' : CallKind)
    (requestId' : ℤ) (j' : ℕ) :
    (requestId', j') ∈ ((c.eraseRequest kind requestId).waiting kind').entries ↔
      (requestId', j') ∈ (c.waiting kind').entries ∧ j' ∉ [j] := by
  rw [List.mem_singleton]
  have hother (hne : kind' ≠ kind) (hmem : (requestId', j') ∈ (c.waiting kind').entries) :
      j' ≠ j := by
    rintro rfl
    obtain ⟨y, hy, hk, -⟩ := hc.waits kind' requestId' j' hmem
    obtain rfl : x = y := Option.some.inj (hx.symm.trans hy)
    exact hne (hk.symm.trans hkind)
  have hsame (m : HintedMap ℤ ℕ) (hm : c.waiting kind = m) (hmem : (requestId, j) ∈ m.entries) :
      (requestId', j') ∈ (m.erase requestId).entries ↔ (requestId', j') ∈ m.entries ∧ j' ≠ j := by
    rw [← HintedMap.find_eq_some, HintedMap.find_erase]
    constructor
    · intro hfind
      split at hfind
      · exact absurd hfind (by simp)
      · next hne =>
        have hmem' := HintedMap.find_eq_some.mp hfind
        refine ⟨hmem', ?_⟩
        rintro rfl
        obtain ⟨y, hy, -, hid', -⟩ := hc.waits kind requestId' j' (hm ▸ hmem')
        obtain rfl : x = y := Option.some.inj (hx.symm.trans hy)
        exact hne (hid'.symm.trans hid)
    · rintro ⟨hmem', hne⟩
      rw [if_neg, HintedMap.find_eq_some]
      · exact hmem'
      · rintro rfl
        refine hne (Option.some.inj ?_)
        rw [← HintedMap.find_eq_some.mpr hmem', HintedMap.find_eq_some.mpr hmem]
  cases kind with
  | oneway =>
      refine ⟨fun hmem => ⟨hmem, ?_⟩, And.left⟩
      by_cases hk : kind' = .oneway
      · subst hk
        simp [waiting] at hmem
      · exact hother hk hmem
  | twoway =>
      have hmem := hwaits.resolve_left (by simp)
      cases kind' with
      | oneway => simp [waiting]
      | twoway => exact hsame c.requests rfl hmem
      | async => exact ⟨fun h => ⟨h, hother (by simp) h⟩, And.left⟩
  | async =>
      have hmem := hwaits.resolve_left (by simp)
      cases kind' with
      | oneway => simp [waiting]
      | twoway => exact ⟨fun h => ⟨h, hother (by simp) h⟩, And.left⟩
      | async => exact hsame c.asyncRequests rfl hmem

/-- A caller comes in, and waits if it expects a reply. -/
theorem Calling.append (hc : c.Calling) {x : Call} {next : ℤ}
    {requests asyncRequests : HintedMap ℤ ℕ}
    (hnext : c.nextRequestId ≤ next ∧ next ≤ c.nextRequestId + 1)
    (hid : x.requestId = 0 ∨ (x.requestId = c.nextRequestId ∧ x.requestId < next))
    (hlen : x.outcomes.length ≤ 1)
    (honeway : x.kind = .oneway → x.progress ≠ .over → x.outcomes = [])
    (hthrown : ∀ ex, .thrown ex ∈ x.outcomes → x.progress = .over)
    (hwaits : x.kind ≠ .oneway → x.outcomes = [] → x.requestId ≠ 0)
    (hmaps : ∀ kind requestId j,
      (requestId, j) ∈ (waiting { c with
        requests := requests, asyncRequests := asyncRequests } kind).entries ↔
        (requestId, j) ∈ (c.waiting kind).entries ∨
          (kind = x.kind ∧ x.kind ≠ .oneway ∧ x.outcomes = [] ∧ requestId = x.requestId ∧
            j = c.calls.length)) :
    Calling { c with
      nextRequestId := next
      requests := requests
      asyncRequests := asyncRequests
      calls := c.calls ++ [x] } := by
  have hget (j : ℕ) (y : Call) (hy : (c.calls ++ [x])[j]? = some y) :
      c.calls[j]? = some y ∨ (j = c.calls.length ∧ y = x) := by
    rw [List.getElem?_append] at hy
    split at hy
    · exact Or.inl hy
    · next hlt =>
      have hj : j - c.calls.length = 0 := by
        by_contra hne
        rw [List.getElem?_eq_none (by simp; omega)] at hy
        exact absurd hy (by simp)
      rw [hj] at hy
      exact Or.inr ⟨by omega, (Option.some.inj hy).symm⟩
  have hset (j : ℕ) (y : Call) (hy : c.calls[j]? = some y) : (c.calls ++ [x])[j]? = some y := by
    rw [List.getElem?_append_left (List.getElem?_eq_some_iff.mp hy).1]
    exact hy
  obtain ⟨hpos, hle⟩ := hc.next
  constructor
  · simp only [List.length_append, List.length_singleton]
    omega
  · intro j y hy
    rcases hget j y hy with hy | ⟨-, rfl⟩
    · have := hc.ids j y hy
      simp only
      omega
    · simp only
      omega
  · intro j k y y' hy hy' heq hne
    rcases hget j y hy with hold | ⟨rfl, rfl⟩ <;> rcases hget k y' hy' with hold' | ⟨rfl, rfl⟩
    · exact hc.distinct j k y y' hold hold' heq hne
    · have := hc.ids j y hold
      omega
    · have := hc.ids k y' hold'
      omega
    · rfl
  · intro kind requestId j hw
    rcases (hmaps kind requestId j).mp (by cases kind <;> exact hw) with hw | ⟨rfl, hk, hout, rfl, rfl⟩
    · obtain ⟨y, hy, hy'⟩ := hc.waits kind requestId j hw
      exact ⟨y, hset j y hy, hy'⟩
    · exact ⟨x, by simp, rfl, rfl, hwaits hk hout, hout⟩
  · intro j y hy hkind hout
    have hw : (y.requestId, j) ∈ (waiting { c with
        requests := requests, asyncRequests := asyncRequests } y.kind).entries := by
      rw [hmaps]
      rcases hget j y hy with hy | ⟨rfl, rfl⟩
      · exact Or.inl (hc.told j y hy hkind hout)
      · exact Or.inr ⟨rfl, hkind, hout, rfl, rfl⟩
    cases hk : y.kind <;> rw [hk] at hw <;> exact hw
  · intro j y hy
    rcases hget j y hy with hy | ⟨-, rfl⟩
    · exact hc.once j y hy
    · exact hlen
  · intro j y hy hkind hover
    rcases hget j y hy with hy | ⟨-, rfl⟩
    · exact hc.oneway j y hy hkind hover
    · exact honeway hkind hover
  · intro j y ex hy hex
    rcases hget j y hy with hy | ⟨-, rfl⟩
    · exact hc.thrown j y ex hy hex
    · exact hthrown ex hex
  · intro requestId j hw
    obtain ⟨y, hy, hy'⟩ := hc.sent requestId j hw
    exact ⟨y, hset j y hy, hy'⟩
  · exact hc.unique

/-- A request is written, by a caller that has not written it before. -/
theorem Calling.write (hc : c.Calling) {i : ℕ} {x : Call} (hx : c.calls[i]? = some x)
    (hover : x.progress = .over) (hthrown : ∀ ex, .thrown ex ∉ x.outcomes)
    (hnew : ∀ requestId, .request requestId i ∉ c.written) :
    Calling { c with written := c.written ++ [Message.request x.requestId i] } := by
  refine ⟨hc.next, hc.ids, hc.distinct, hc.waits, hc.told, hc.once, hc.oneway, hc.thrown, ?_, ?_⟩
  · intro requestId j hw
    rcases List.mem_append.mp hw with hw | hw
    · exact hc.sent requestId j hw
    · obtain ⟨rfl, rfl⟩ : requestId = x.requestId ∧ j = i := by simpa using hw
      exact ⟨x, hx, rfl, hover, hthrown⟩
  · have hmap : ((c.written ++ [Message.request x.requestId i]).filterMap request?).map Prod.snd =
        (c.written.filterMap request?).map Prod.snd ++ [i] := by
      simp [request?]
    rw [hmap, List.nodup_append]
    refine ⟨hc.unique, by simp, ?_⟩
    rintro j hj k hk rfl
    obtain rfl : j = i := by simpa using hk
    obtain ⟨⟨requestId, j⟩, hmem, rfl⟩ := List.mem_map.mp hj
    obtain ⟨m, hm, hm'⟩ := List.mem_filterMap.mp hmem
    cases m <;> simp only [request?, Option.some.injEq, Prod.mk.injEq, reduceCtorEq] at hm'
    obtain ⟨rfl, rfl⟩ := hm'
    exact hnew _ hm

/-- As long as ids do not wrap around, the next one is new. -/
theorem newRequestId_eq (hc : c.Calling) (hlen : c.calls.length + 1 < 2 ^ 31 - 1) :
    c.newRequestId = (c.nextRequestId, c.nextRequestId + 1) := by
  obtain ⟨hpos, hle⟩ := hc.next
  rw [newRequestId, if_neg (by omega), succInt, if_neg (by omega)]

theorem not_has_next (hc : c.Calling) (kind : CallKind) :
    ¬ (c.waiting kind).Has c.nextRequestId := by
  intro hhas
  obtain ⟨j, hj⟩ := HintedMap.has_iff.mp hhas
  obtain ⟨x, hx, -, hid, -⟩ := hc.waits kind _ j (HintedMap.find_eq_some.mp hj)
  have := hc.ids j x hx
  omega

/-- The callers that wait are different ones. -/
theorem nodup_waiting (hc : c.Calling) :
    ((c.requests.entries ++ c.asyncRequests.entries).map Prod.snd).Nodup := by
  have hmap (kind : CallKind) : ((c.waiting kind).entries.map Prod.snd).Nodup := by
    refine List.Nodup.map_on ?_ (List.Nodup.of_map _ (c.waiting kind).nodup)
    rintro ⟨requestId, j⟩ hmem ⟨requestId', j'⟩ hmem' rfl
    obtain ⟨x, hx, -, rfl, -⟩ := hc.waits kind requestId j hmem
    obtain ⟨y, hy, -, rfl, -⟩ := hc.waits kind requestId' j hmem'
    rw [Option.some.inj (hx.symm.trans hy)]
  rw [List.map_append, List.nodup_append]
  refine ⟨hmap .twoway, hmap .async, ?_⟩
  rintro j hj j' hj' rfl
  obtain ⟨⟨requestId, j⟩, hmem, rfl⟩ := List.mem_map.mp hj
  obtain ⟨⟨requestId', j'⟩, hmem', heq⟩ := List.mem_map.mp hj'
  obtain ⟨x, hx, hkind, -⟩ := hc.waits .twoway requestId j hmem
  obtain ⟨y, hy, hkind', -⟩ := hc.waits .async requestId' j' hmem'
  obtain rfl : j' = j := heq
  rw [Option.some.inj (hx.symm.trans hy), hkind'] at hkind
  exact absurd hkind (by simp)

/-- Who waits was not told anything. -/
theorem waiting_outcomes (hc : c.Calling) {j : ℕ}
    (hj : j ∈ (c.requests.entries ++ c.asyncRequests.entries).map Prod.snd) {x : Call}
    (hx : c.calls[j]? = some x) : x.outcomes = [] ∧ x.kind ≠ .oneway := by
  obtain ⟨⟨requestId, j⟩, hmem, rfl⟩ := List.mem_map.mp hj
  have hwaits : (requestId, j) ∈ (c.waiting .twoway).entries ∨
      (requestId, j) ∈ (c.waiting .async).entries := List.mem_append.mp hmem
  rcases hwaits with hmem | hmem
  · obtain ⟨y, hy, hkind, -, -, hout⟩ := hc.waits _ requestId j hmem
    obtain rfl : x = y := Option.some.inj (hx.symm.trans hy)
    exact ⟨hout, by simp [hkind]⟩
  · obtain ⟨y, hy, hkind, -, -, hout⟩ := hc.waits _ requestId j hmem
    obtain rfl : x = y := Option.some.inj (hx.symm.trans hy)
    exact ⟨hout, by simp [hkind]⟩

/-- A request that is not written yet. -/
theorem not_sent (hc : c.Calling) {i : ℕ} {x : Call} (hx : c.calls[i]? = some x)
    (hover : x.progress ≠ .over) (requestId : ℤ) : .request requestId i ∉ c.written := by
  intro hm
  obtain ⟨y, hy, -, hover', -⟩ := hc.sent requestId i hm
  obtain rfl : x = y := Option.some.inj (hx.symm.trans hy)
  exact hover hover'

theorem callGoes_getElem? {i : ℕ} {x : Call} (hx : c.calls[i]? = some x) (progress : Progress) :
    (c.callGoes i progress).calls[i]? = some { x with progress := progress } := by
  simp [Connection.callGoes, hx]

/-- Nobody waits any more. -/
theorem Calling.raise (hc : c.Calling) (ex : LocalException) :
    Calling { c with
      requests := ∅
      asyncRequests := ∅
      calls := Ice.complete c.calls (.raised ex)
        ((c.requests.entries ++ c.asyncRequests.entries).map Prod.snd) } := by
  refine hc.complete (nodup_waiting hc) (fun j hj x hx => ?_) (by simp) fun kind requestId j => ?_
  · obtain ⟨hout, hkind⟩ := waiting_outcomes hc hj hx
    exact ⟨hout, fun heq => absurd heq hkind⟩
  · constructor
    · intro hmem
      cases kind <;> simp [waiting] at hmem
    · rintro ⟨hmem, hj⟩
      refine absurd (List.mem_map_of_mem (f := Prod.snd) (a := (requestId, j)) ?_) hj
      cases kind with
      | oneway => simp [waiting] at hmem
      | twoway => exact List.mem_append_left _ hmem
      | async => exact List.mem_append_right _ hmem

/-- One caller waits no longer. -/
theorem Calling.erase (hc : c.Calling) {kind : CallKind} {requestId : ℤ} {j : ℕ} {x : Call}
    (hx : c.calls[j]? = some x) (hkind : x.kind = kind) (hid : x.requestId = requestId)
    (hwaits : kind = .oneway ∨ (requestId, j) ∈ (c.waiting kind).entries) (hout : x.outcomes = [])
    (honeway : x.kind = .oneway → x.progress = .over) (outcome : Outcome)
    (hthrown : ∀ ex, outcome = .thrown ex →
      (∀ requestId, .request requestId j ∉ c.written) ∧ x.progress = .over) :
    Calling { c.eraseRequest kind requestId with calls := Ice.complete c.calls outcome [j] } := by
  have hmaps := mem_eraseRequest hc hx hkind hid hwaits
  have hsame (y : Call) (hy : c.calls[j]? = some y) : x = y := Option.some.inj (hx.symm.trans hy)
  have hnew : ∀ k ∈ [j], ∀ y, c.calls[k]? = some y → y.outcomes = [] ∧
      (y.kind = .oneway → y.progress = .over) := by
    intro k hk y hy
    obtain rfl := List.mem_singleton.mp hk
    obtain rfl := hsame y hy
    exact ⟨hout, honeway⟩
  have hthrown' : ∀ ex, outcome = .thrown ex → ∀ k ∈ [j],
      (∀ requestId, .request requestId k ∉ c.written) ∧
        ∀ y, c.calls[k]? = some y → y.progress = .over := by
    intro ex hex k hk
    obtain rfl := List.mem_singleton.mp hk
    refine ⟨(hthrown ex hex).1, fun y hy => ?_⟩
    obtain rfl := hsame y hy
    exact (hthrown ex hex).2
  have hnodup : [j].Nodup := List.nodup_singleton j
  cases kind with
  | oneway => exact hc.complete hnodup hnew hthrown' hmaps
  | twoway => exact hc.complete hnodup hnew hthrown' hmaps
  | async => exact hc.complete hnodup hnew hthrown' hmaps

/-- **What a section does for the callers.** -/
theorem calling_effect (hc : c.Calling) (he : Effect c e c')
    (hlen : c'.calls.length < 2 ^ 31 - 1) : c'.Calling := by
  cases he with
  | link validation hl hsw => exact hc.switch validation hsw.toKept
  | validate failure hstate => exact hc.with_link rfl rfl rfl rfl (by simp [request?])
  | accept requestId call hval hended => exact hc.with_link rfl rfl rfl rfl rfl
  | acceptBatch invokeNum hval hended => exact hc.with_link rfl rfl rfl rfl rfl
  | reply requestId kind j hwaits =>
      obtain ⟨x, hx, hkind, hid, -, hout⟩ := hc.waits kind requestId j hwaits
      have hne : x.kind ≠ .oneway := by
        rw [hkind]
        rintro rfl
        simp [waiting] at hwaits
      exact hc.erase hx hkind hid (Or.inr hwaits) hout (fun heq => absurd heq hne) _ (by simp)
  | raise ex hl hkept => exact (hc.switch c.validation hkept).raise ex
  | refuse kind ex hex =>
      refine hc.append ⟨le_rfl, by omega⟩ (Or.inl rfl) (by simp) (by simp) (by simp) (by simp)
        fun kind' requestId j => ?_
      cases kind' <;> simp [waiting]
  | beginOneway hval =>
      refine hc.append ⟨le_rfl, by omega⟩ (Or.inl rfl) (by simp) (by simp) (by simp) (by simp)
        fun kind' requestId j => ?_
      cases kind' <;> simp [waiting]
  | beginTwoway hex hval hdatagram =>
      have hid := newRequestId_eq hc (by simpa using hlen)
      have hnew := not_has_next hc .twoway
      rw [hid]
      refine hc.append ⟨by simp, le_rfl⟩ (Or.inr ⟨rfl, by simp⟩) (by simp) (by simp) (by simp) ?_
        fun kind' requestId j => ?_
      · have := hc.next
        intro _ _
        simp only [ne_eq]
        omega
      · cases kind' with
        | oneway => simp [waiting]
        | twoway =>
            have hentries := HintedMap.entries_insert hnew c.calls.length
            simp only [waiting] at hentries ⊢
            rw [hentries]
            simp [or_comm]
        | async => simp [waiting]
  | beginAsync hex hval hdatagram =>
      have hid := newRequestId_eq hc (by simpa using hlen)
      have hnew := not_has_next hc .async
      rw [hid]
      refine hc.append ⟨by simp, le_rfl⟩ (Or.inr ⟨rfl, by simp⟩) (by simp) (by simp) (by simp) ?_
        fun kind' requestId j => ?_
      · have := hc.next
        intro _ _
        simp only [ne_eq]
        omega
      · cases kind' with
        | oneway => simp [waiting]
        | twoway => simp [waiting]
        | async =>
            have hentries := HintedMap.entries_insert hnew c.calls.length
            simp only [waiting] at hentries ⊢
            rw [hentries]
            simp [or_comm]
  | sent i failure x hx hsending =>
      have hgoes := hc.callGoes hx .over (Or.inl rfl)
      have hnone : ∀ ex, .thrown ex ∉ x.outcomes := by
        intro ex hex
        have := hc.thrown i x ex hx hex
        simp [hsending] at this
      exact hgoes.write (x := { x with progress := .over }) (callGoes_getElem? hx .over) rfl hnone
        (not_sent hc hx (by simp [hsending]))
  | unsent i failure x hx hsending ex => exact hc.callGoes hx _ (Or.inr (by simp [hsending]))
  | giveUp i x hx ex hfailed hl hsw =>
      exact (hc.switch c.validation hsw.toKept).callGoes hx _ (Or.inl rfl)
  | throw i x hx ex ex' hfailed hl hsw hclosed hbecause hhas =>
      have hswitch := hc.switch c.validation hsw.toKept
      have hgoes := hswitch.callGoes hx .over (Or.inl rfl)
      have hx' := callGoes_getElem? hx .over
      have hnot := not_sent hswitch hx (by simp [hfailed])
      rcases hhas with hone | hhas
      · have hout := hc.oneway i x hx hone (by simp [hfailed])
        have herase := hgoes.erase hx' rfl rfl (Or.inl hone) hout (fun _ => rfl)
          (.thrown ⟨ex', false⟩) fun _ _ => ⟨hnot, rfl⟩
        exact herase
      · obtain ⟨j, hj⟩ := HintedMap.has_iff.mp hhas
        have hmem := HintedMap.find_eq_some.mp hj
        obtain ⟨y, hy, hkind, hid, hne, hout⟩ := hc.waits x.kind x.requestId j hmem
        obtain rfl := hc.distinct j i y x hy hx hid (hid ▸ hne)
        obtain rfl : x = y := Option.some.inj (hx.symm.trans hy)
        have herase := hgoes.erase hx' rfl rfl (Or.inr ?_) hout (fun _ => rfl)
          (.thrown ⟨ex', false⟩) fun _ _ => ⟨hnot, rfl⟩
        · exact herase
        · cases hk : x.kind <;> rw [hk] at hmem <;> exact hmem
  | answer i failure w hw hone hresponse hopen =>
      exact hc.with_link rfl rfl rfl rfl (by simp [request?, Connection.workGoes])
  | unanswered i failure w hw hone ex => exact hc.with_link rfl rfl rfl rfl rfl
  | breakOff i w hw hpos phase hphase hl hsw hclosed =>
      exact (hc.switch c.validation hsw.toKept).with_link rfl rfl rfl rfl rfl
  | countOut i n w hw hn hpos hphase hl hsw =>
      have hends : (c.workEnds i n).Calling := hc.with_link rfl rfl rfl rfl rfl
      exact hends.switch c.validation hsw.toKept

/-- Where nobody has called, nobody waits. -/
theorem noRequests_of_calls (hc : c.Calling) (hnil : c.calls = []) : c.NoRequests := by
  have hnone (kind : CallKind) : (c.waiting kind).entries = [] := by
    rw [List.eq_nil_iff_forall_not_mem]
    rintro ⟨requestId, j⟩ hmem
    obtain ⟨x, hx, -⟩ := hc.waits kind requestId j hmem
    simp [hnil] at hx
  exact ⟨hnone .twoway, hnone .async⟩

theorem NoRequests.eraseRequest (h : c.NoRequests) (kind : CallKind) (requestId : ℤ) :
    (c.eraseRequest kind requestId).NoRequests := by
  cases kind with
  | oneway => exact h
  | twoway => exact ⟨by simp [Connection.eraseRequest, HintedMap.erase, h.1], h.2⟩
  | async => exact ⟨h.1, by simp [Connection.eraseRequest, HintedMap.erase, h.2]⟩

/-- When the transceiver is gone, nobody waits. -/
theorem noRequests_effect (h : c.Sound) (hc : c.Calling) (he : Effect c e c')
    (hover : c.transceiver = false → c.NoRequests) (hnone : c'.transceiver = false) :
    c'.NoRequests := by
  cases he with
  | link validation hl hsw =>
      rcases hsw.transceiver hnone with hnone | hval
      · exact hover hnone
      · have hnone' : c.NoRequests := noRequests_of_calls hc (h.validated hval).2
        exact hnone'
  | raise => exact ⟨rfl, rfl⟩
  | reply requestId kind j =>
      have hold : c.transceiver = false := by cases kind <;> exact hnone
      exact (hover hold).eraseRequest kind requestId
  | beginTwoway hex =>
      obtain ⟨ex, hex'⟩ := exists_exception h (by simpa using hnone)
      simp [hex] at hex'
  | beginAsync hex =>
      obtain ⟨ex, hex'⟩ := exists_exception h (by simpa using hnone)
      simp [hex] at hex'
  | giveUp i x hx ex hfailed hl hsw =>
      exact hover ((hsw.transceiver hnone).resolve_right (state_ne_of_calls h hx))
  | @throw i l x hx ex ex' hfailed hl hsw =>
      have hold : l.transceiver = false := by
        cases hkind : x.kind <;> simpa [hkind, eraseRequest, callGoes] using hnone
      have hnone' : ({ c with toLink := l }.callGoes i .over).NoRequests :=
        hover ((hsw.transceiver hold).resolve_right (state_ne_of_calls h hx))
      exact hnone'.eraseRequest x.kind x.requestId
  | breakOff i w hw hpos phase hphase hl hsw =>
      exact hover ((hsw.transceiver hnone).resolve_right (state_ne_of_works h hw))
  | countOut i n w hw hn hpos hphase hl hsw =>
      exact hover ((hsw.transceiver hnone).resolve_right (state_ne_of_works (c := c) h hw))
  | _ => exact hover hnone

/-! ## Runs -/

theorem length_le (he : Effect c e c') : c.calls.length ≤ c'.calls.length := by
  cases he with
  | reply requestId kind => cases kind <;> simp
  | throw i x => simp [callGoes]
  | _ => simp [callGoes, workGoes, workEnds]

theorem datagram_effect (he : Effect c e c') : c'.datagram = c.datagram := by
  cases he with
  | link validation hl hsw => exact hsw.datagram
  | raise ex hl hkept => exact hkept.datagram
  | giveUp i x hx ex hfailed hl hsw => exact hsw.datagram
  | throw i x hx ex ex' hfailed hl hsw => cases hkind : x.kind <;> exact hsw.datagram
  | breakOff i w hw hpos phase hphase hl hsw => exact hsw.datagram
  | countOut i n w hw hn hpos hphase hl hsw => exact hsw.datagram
  | reply requestId kind => cases kind <;> rfl
  | _ => rfl

/-- **Whatever is accepted is answered**, or the connection is closed without a word about
closing. -/
theorem run_serving {es : List ConnectionEvent} (h : c.Sound) (hc : c.Serving)
    (hr : run next c es = some c') : c'.Serving := by
  refine (run_invariant_of_step (I := fun c => c.Sound ∧ c.Serving) ?_ ⟨h, hc⟩ hr).2
  rintro s e s' ⟨hs, hserving⟩ hn
  obtain ⟨hs', he⟩ := sound_next hs hn
  exact ⟨hs', serving_effect hs hserving he⟩

/-- A connection that answers a request, and then says that it closes. -/
def answersAndCloses : List ConnectionEvent :=
  [.validateCheck, .validateSend none, .validated, .activate, .message (.request 1 0) false,
    .destroy .objectAdapterDeactivated none, .respond 0 none, .responded 0 none]

/-- **Every caller is told one thing at most, and none is forgotten.** -/
theorem run_calling {es : List ConnectionEvent} (h : c.Sound) (hc : c.Calling)
    (hover : c.transceiver = false → c.NoRequests) (hr : run next c es = some c')
    (hlen : c'.calls.length < 2 ^ 31 - 1) :
    c'.Calling ∧ (c'.transceiver = false → c'.NoRequests) := by
  refine (run_invariant_of_step (I := fun c => c.Sound ∧ (c.calls.length < 2 ^ 31 - 1 →
    c.Calling ∧ (c.transceiver = false → c.NoRequests))) ?_ ⟨h, fun _ => ⟨hc, hover⟩⟩ hr).2 hlen
  rintro s e s' ⟨hs, hcalling⟩ hn
  obtain ⟨hs', he⟩ := sound_next hs hn
  refine ⟨hs', fun hlen' => ?_⟩
  obtain ⟨hc, hover⟩ := hcalling (lt_of_le_of_lt (length_le he) hlen')
  exact ⟨calling_effect hc he hlen', noRequests_effect hs hc he hover⟩

/-- A connection that is lost while two callers wait. -/
def lostWaiting : List ConnectionEvent :=
  [.validateCheck, .validateRead .validateConnection none, .validated, .activate,
    .sendRequest .twoway, .send 0 none, .sendRequest .async,
    .exception ⟨.connectionLost, by decide⟩, .finished]

end Connection

end IceSerialPort.Ice
