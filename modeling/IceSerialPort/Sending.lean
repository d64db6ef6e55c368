import IceSerialPort.Server

/-!
# What the peer receives

`writeSerialPort` hands the whole frame of its message to one `write`, and acknowledges
the message whatever that `write` returns. The count is printed and not compared with
the length. The typestate `sending` says that each call makes exactly one `write` of its
own frame before it returns; the stream is then made of what these writes moved, in the
order in which they happened.

## Main definitions

* `Write`, `Server.writes`: the writes of a run, in order.
* `SentExactly`: the stream is the acknowledged messages, framed.

## Main results

* `run_wellSent`: the stream is what the writes moved, one write for each call.
* `sentExactly_iff`: the stream is the acknowledged messages exactly when no write was
  short.
-/

namespace IceSerialPort

open Effects CString Framing Transition

/-- A write that happened: the call that made it, the memory it handed over, and the
count that came back. -/
structure Write where
  call : ℕ
  memory : Bytes
  count : Int
  deriving DecidableEq

/-- The bytes that a write has sent. -/
def Write.moved (x : Write) : Bytes := x.memory.take x.count.toNat

/-- A performed action as a write. -/
def writeOf : ℕ × Performed Action.Answer → Option Write
  | (i, ⟨.write _ p _, r⟩) => some ⟨i, p, r⟩
  | _ => none

/-- The writes of all calls, in the order in which they happened. -/
def Server.writes (s : Server) : List Write := s.history.filterMap writeOf

/-- The calls that have written, in the order in which they did. -/
def Server.writers (s : Server) : List ℕ := s.writes.map Write.call

/-- The message of a request. -/
def Operation.message? : Operation → Option Bytes
  | .writeSerialPort message => some message
  | _ => none

/-- The message of call `i`. -/
def Server.message? (s : Server) (i : ℕ) : Option Bytes :=
  s.calls[i]?.bind fun c => c.job.message?

/-- The messages of the calls that have written, in the order of their writes. -/
def Server.sentMessages (s : Server) : List Bytes := s.writers.filterMap s.message?

/-! ## The protocol of a call -/

/-- How far a call of `writeSerialPort` has come with its message. -/
inductive SendState where
  | pending (message : Bytes)
  | sent (message : Bytes)
  /-- The call is of another operation. -/
  | other

/-- The message of the call. -/
def SendState.message? : SendState → Option Bytes
  | .pending message => some message
  | .sent message => some message
  | .other => none

/-- A call writes the frame of its message once, and then can only be acknowledged. -/
def sending : Typestate Action Action.Answer Abort Reply Operation SendState where
  start
    | .writeSerialPort message => .pending message
    | _ => .other
  can
    | .pending message, .write _ p len => p = frame 0 message ∧ len = message.length + 1
    | .sent _, .write _ _ _ => False
    | _, _ => True
  next
    | .pending message, .write _ _ _, _ => .sent message
    | g, _, _ => g
  final
    | .pending _, _ => False
    | .sent _, reply => reply = .ack
    | .other, _ => True
  abort g _ := g = .other

theorem sending_writeSerialPort (message : Bytes) :
    sending.Obeys (.pending message) ((fun _ => Reply.ack) <$> writeSerialPort message) := by
  have hrest : ∀ fd,
      sending.Obeys (.pending message) (writeRest message fd >>= fun _ => .ret Reply.ack) :=
    fun fd => ⟨⟨rfl, rfl⟩, fun _ => ⟨trivial, fun _ => ⟨trivial, fun _ => rfl⟩⟩⟩
  rw [writeSerialPort_eq, map_eq_pure_bind, bind_assoc]
  exact obeys_openSerialPort_bind trivial (fun fd _ _ => hrest fd)
    fun fd _ _ => ⟨trivial, fun _ => hrest fd⟩

/-- **Every call writes its own frame once before it returns.** -/
theorem sending_program (op : Operation) : sending.Obeys (sending.start op) op.program := by
  cases op with
  | writeSerialPort message => exact sending_writeSerialPort message
  | readSerialPort =>
      exact sending.obeys_of_forall (g := .other) (fun _ => trivial) (fun _ _ => rfl)
        (fun _ => trivial) (fun _ => rfl) _
  | readInfoFromDevice =>
      exact sending.obeys_of_forall (g := .other) (fun _ => trivial) (fun _ _ => rfl)
        (fun _ => trivial) (fun _ => rfl) _

theorem message?_next (g : SendState) (a : Action) (r : a.Answer) :
    (sending.next g a r).message? = g.message? := by
  cases g <;> cases a <;> rfl

theorem message?_after (g : SendState) (h : List (Performed Action.Answer)) :
    (sending.after g h).message? = g.message? := by
  induction h generalizing g with
  | nil => rfl
  | cons p h ih =>
      have := ih (sending.next g p.1 p.2)
      rw [message?_next] at this
      exact this

theorem message?_eq (s : Server) (i : ℕ) :
    s.message? i = (sending.stateAt s i).bind SendState.message? := by
  rw [Server.message?, Typestate.stateAt, Option.bind_map]
  congr
  funext c
  rw [Function.comp_apply, message?_after]
  cases c.job <;> rfl

/-! ## The stream along a run -/

/-- **What one action adds to the stream**: what it moved, if it is a write. -/
theorem perform_stream {i : ℕ} {w w' : World} {a : Action} {c : Choice} {r : a.Answer}
    (h : perform i w a c = some (r, w')) :
    w'.stream = w.stream ++ (writeOf (i, ⟨a, r⟩)).toList.flatMap Write.moved := by
  cases a with
  | write fd p len =>
      rcases perform_write.mp h with ⟨k, -, -, -, -, rfl, rfl⟩ | ⟨errno, -, rfl, rfl⟩ <;>
        simp [writeOf, Write.moved]
  | _ => simp [writeOf, (perform_sameBut h).stream (by simp [Action.part])]

/-- Only a write moves a call on. -/
theorem next_of_writeOf_eq_none {i : ℕ} {g : SendState} {a : Action} {r : a.Answer}
    (h : writeOf (i, ⟨a, r⟩) = none) : sending.next g a r = g := by
  cases a with
  | write fd p len => simp [writeOf] at h
  | _ => cases g <;> rfl

/-- The count of a write: -1, or that of some of the bytes handed over. -/
def Write.Counts (x : Write) : Prop :=
  x.count = -1 ∨ ∃ k : ℕ, x.count = k ∧ k ≤ x.memory.length

/-- The stream is what the writes moved; each call that is done has written its frame,
once, and every call has a message without NUL. -/
structure Server.WellSent (s : Server) : Prop where
  stream : s.world.stream = s.writes.flatMap Write.moved
  frame : ∀ x ∈ s.writes, x.Counts ∧
    ∃ m, sending.stateAt s x.call = some (.sent m) ∧ x.memory = frame 0 m
  once : s.writers.Nodup
  done : ∀ i m, sending.stateAt s i = some (.sent m) → i ∈ s.writers
  message : ∀ i g, sending.stateAt s i = some g → ∃ m, g.message? = some m ∧ (0 : UInt8) ∉ m

/-- A request to write a message without NUL. -/
def IsWrite : Operation → Prop
  | .writeSerialPort message => (0 : UInt8) ∉ message
  | _ => False

instance : DecidablePred IsWrite
  | .writeSerialPort message => inferInstanceAs (Decidable ((0 : UInt8) ∉ message))
  | .readSerialPort => isFalse id
  | .readInfoFromDevice => isFalse id

theorem writes_act (s : Server) (w : World)
    (calls : List (Call Action Action.Answer Abort Reply Operation))
    (e : ℕ × Performed Action.Answer) :
    Server.writes ⟨w, calls, s.history ++ [e]⟩ = s.writes ++ (writeOf e).toList := by
  simp only [Server.writes, List.filterMap_append, List.filterMap_cons, List.filterMap_nil]
  cases writeOf e <;> rfl

/-- An event that is not a write changes nothing the invariant speaks of. -/
theorem wellSent_congr {s s' : Server} (h : s.WellSent) (hs : s'.world.stream = s.world.stream)
    (hw : s'.writes = s.writes) (hstate : sending.stateAt s' = sending.stateAt s) :
    s'.WellSent := by
  have hwriters : s'.writers = s.writers := by rw [Server.writers, hw, Server.writers]
  constructor
  · rw [hs, hw]
    exact h.stream
  · rw [hw, hstate]
    exact h.frame
  · rw [hwriters]
    exact h.once
  · rw [hwriters, hstate]
    exact h.done
  · rw [hstate]
    exact h.message

/-- The write of a call whose message is pending. -/
theorem wellSent_write {s s' : Server} {x : Write} {message : Bytes} (h : s.WellSent)
    (hg : sending.stateAt s x.call = some (.pending message))
    (hstate : sending.stateAt s' =
      Function.update (sending.stateAt s) x.call (some (.sent message)))
    (hs : s'.world.stream = s.world.stream ++ x.moved) (hw : s'.writes = s.writes ++ [x])
    (hx : x.Counts) (hmem : x.memory = frame 0 message) : s'.WellSent := by
  have hwriters : s'.writers = s.writers ++ [x.call] := by
    rw [Server.writers, hw, List.map_append, Server.writers]
    rfl
  -- The writer has not written before: it would be done.
  have hnew : x.call ∉ s.writers := by
    intro hmem
    rcases List.mem_map.mp hmem with ⟨y, hy, hcall⟩
    rcases (h.frame y hy).2 with ⟨m, hm, -⟩
    rw [hcall, hg] at hm
    simp at hm
  constructor
  · rw [hs, hw, h.stream, List.flatMap_append]
    simp
  · intro y hy
    rw [hw, List.mem_append, List.mem_singleton] at hy
    rcases hy with hy | rfl
    · rcases h.frame y hy with ⟨hcount, m, hm, hframe⟩
      have hne : y.call ≠ x.call := fun heq => hnew (heq ▸ List.mem_map_of_mem hy)
      refine ⟨hcount, m, ?_, hframe⟩
      rw [hstate, Function.update_of_ne hne]
      exact hm
    · refine ⟨hx, message, ?_, hmem⟩
      rw [hstate, Function.update_self]
  · rw [hwriters, List.nodup_append]
    refine ⟨h.once, by simp, ?_⟩
    intro i hi j hj
    rw [List.mem_singleton.mp hj]
    exact fun heq => hnew (heq ▸ hi)
  · intro i m hm
    rw [hwriters, List.mem_append, List.mem_singleton]
    by_cases hi : i = x.call
    · exact Or.inr hi
    · rw [hstate, Function.update_of_ne hi] at hm
      exact Or.inl (h.done i m hm)
  · intro i g hi
    by_cases hcall : i = x.call
    · rw [hcall, hstate, Function.update_self] at hi
      obtain rfl := Option.some.inj hi
      rcases h.message x.call _ hg with ⟨m, hm, hno⟩
      exact ⟨m, hm, hno⟩
    · rw [hstate, Function.update_of_ne hcall] at hi
      exact h.message i g hi

/-- A new call has its message pending. -/
theorem wellSent_spawn {s : Server} {message : Bytes} (hT : sending.Typed s)
    (h : s.WellSent) (hno : (0 : UInt8) ∉ message) (p : Code Reply) :
    Server.WellSent { s with calls := s.calls ++ [⟨.writeSerialPort message, p⟩] } := by
  have hstate := Typestate.stateAt_spawn hT (.writeSerialPort message) p
  have hnone : sending.stateAt s s.calls.length = none := by simp [Typestate.stateAt]
  have hstart : sending.start (.writeSerialPort message) = .pending message := rfl
  constructor
  · exact h.stream
  · intro x hx
    rcases h.frame x hx with ⟨hcount, m, hm, hframe⟩
    have hne : x.call ≠ s.calls.length := by
      intro heq
      rw [heq, hnone] at hm
      simp at hm
    refine ⟨hcount, m, ?_, hframe⟩
    rw [hstate, Function.update_of_ne hne]
    exact hm
  · exact h.once
  · intro i m hm
    by_cases hi : i = s.calls.length
    · rw [hi, hstate, Function.update_self, hstart] at hm
      simp at hm
    · rw [hstate, Function.update_of_ne hi] at hm
      exact h.done i m hm
  · intro i g hg
    by_cases hi : i = s.calls.length
    · rw [hi, hstate, Function.update_self] at hg
      obtain rfl := Option.some.inj hg
      exact ⟨message, rfl, hno⟩
    · rw [hstate, Function.update_of_ne hi] at hg
      exact h.message i g hg

theorem wellSent_boot {w : World} (hw : w.stream = []) :
    Server.WellSent (Pool.boot w) := by
  have hwrites : Server.writes (Pool.boot w) = [] := rfl
  constructor
  · rw [hwrites]
    exact hw
  · simp [hwrites]
  · simp [Server.writers, hwrites]
  · simp
  · simp

/-- **The stream is what the writes moved, and each call that is done wrote once**, in
every run in which messages without NUL are written. -/
theorem run_wellSent {openAtStart : List Bool} {file : Bytes} {es : List ServerEvent}
    {s : Server} (hops : OnlyDispatches IsWrite es)
    (hr : (Server.boot openAtStart file).run es = some s) : sending.Typed s ∧ s.WellSent := by
  refine Typestate.typed_run (I := Server.WellSent) sending_program
    ?outside ?spawn ?act ?boot (hops.always _) hr
  case outside =>
    intro (s : Server) bs w _ hI _ hw
    rw [system_outside, Option.some.injEq] at hw
    subst hw
    exact wellSent_congr hI rfl rfl rfl
  case spawn =>
    intro (s : Server) op hT hI hop
    have hwrite : IsWrite op := hop op rfl
    cases op with
    | writeSerialPort message => exact wellSent_spawn hT hI hwrite _
    | readSerialPort => exact hwrite.elim
    | readInfoFromDevice => exact hwrite.elim
  case act =>
    intro (s : Server) i c op a k r w g hT hI _ hc hg hcan hp
    have hstate := Typestate.stateAt_act hc hg r w
    have hwrites := writes_act s w (s.calls.set i ⟨op, k r⟩) (i, ⟨a, r⟩)
    have hstream := perform_stream hp
    cases ho : writeOf (i, ⟨a, r⟩) with
    | none =>
        rw [next_of_writeOf_eq_none ho, ← hg, Function.update_eq_self] at hstate
        refine wellSent_congr hI ?_ ?_ hstate
        · rw [hstream, ho]
          simp
        · rw [hwrites, ho]
          simp
    | some x =>
        cases a with
        | write fd p len =>
            obtain rfl : ⟨i, p, r⟩ = x := Option.some.inj ho
            rcases hI.message i g hg with ⟨m, hm, -⟩
            cases g with
            | pending message =>
                rcases hcan with ⟨rfl, rfl⟩
                refine wellSent_write hI hg hstate ?_ (by rw [hwrites, ho]; rfl) ?_ rfl
                · rw [hstream, ho]
                  simp
                · rcases perform_write.mp hp with ⟨k, -, -, -, hk, rfl, -⟩ | ⟨errno, -, rfl, -⟩
                  · exact Or.inr ⟨k, rfl, by simpa [frame] using hk⟩
                  · exact Or.inl rfl
            | sent message => exact hcan.elim
            | other => simp [SendState.message?] at hm
        | _ => simp [writeOf] at ho
  case boot => exact wellSent_boot rfl

/-! ## The stream and the acknowledgements -/

/-- The peer has received exactly the acknowledged messages, in the order of their
writes. -/
structure SentExactly (s : Server) : Prop where
  /-- The calls that have written are those that returned. -/
  acknowledged : ∀ i, i ∈ s.writers ↔ s.result? i = some .ack
  once : s.writers.Nodup
  stream : s.world.stream = frames 0 s.sentMessages
  split : split 0 s.world.stream = s.sentMessages

/-- No write was short. -/
def WholeWrites (s : Server) : Prop := ∀ x ∈ s.writes, x.count = x.memory.length

instance (s : Server) : Decidable (WholeWrites s) :=
  inferInstanceAs (Decidable (∀ x ∈ s.writes, _))

/-- When no call is in progress, those that have written have been acknowledged. -/
theorem mem_writers_iff {s : Server} (hT : sending.Typed s) (h : s.WellSent) (hidle : s.Idle)
    (i : ℕ) : i ∈ s.writers ↔ s.result? i = some .ack := by
  constructor
  · intro hi
    rcases List.mem_map.mp hi with ⟨x, hx, rfl⟩
    rcases (h.frame x hx).2 with ⟨m, hm, -⟩
    have hcall := hm
    rw [Typestate.stateAt, Option.map_eq_some_iff] at hcall
    rcases hcall with ⟨c, hc, -⟩
    rcases Prog.returned_iff.mp (hidle c (List.mem_of_getElem? hc)) with ⟨reply, hreply⟩
    have hack : reply = .ack := hT.final_of_ret hc hm hreply
    rw [Pool.result?, hc, Option.bind_some, hreply, hack]
    rfl
  · intro hr
    rw [Pool.result?, Option.bind_eq_some_iff] at hr
    rcases hr with ⟨c, hc, hv⟩
    have hret : c.rest = .ret .ack := Prog.value?_eq_some.mp hv
    obtain ⟨g, hg⟩ := Typestate.exists_stateAt (T := sending) hc
    have hfinal := hT.final_of_ret hc hg hret
    rcases h.message i g hg with ⟨m, hm, -⟩
    cases g with
    | pending message => exact hfinal.elim
    | sent message => exact h.done i message hg
    | other => simp [SendState.message?] at hm

/-- The memory of each write is the frame of its call's message. -/
theorem message?_of_mem_writes {s : Server} (h : s.WellSent) {x : Write} (hx : x ∈ s.writes) :
    ∃ m, s.message? x.call = some m ∧ (0 : UInt8) ∉ m ∧ x.memory = frame 0 m := by
  rcases (h.frame x hx).2 with ⟨m, hm, hframe⟩
  rcases h.message x.call _ hm with ⟨m', hm', hno⟩
  obtain rfl : m = m' := Option.some.inj hm'
  refine ⟨m, ?_, hno, hframe⟩
  rw [message?_eq, hm]
  rfl

theorem sentMessages_eq {s : Server} (h : s.WellSent) :
    s.sentMessages = s.writes.map fun x => cut 0 x.memory := by
  rw [Server.sentMessages, Server.writers, List.filterMap_map, ← List.filterMap_eq_map]
  apply List.filterMap_congr
  intro x hx
  rcases message?_of_mem_writes h hx with ⟨m, hm, hno, hframe⟩
  rw [Function.comp_apply, Function.comp_apply, hm, hframe, cut_frame_eq, cut_eq_self.mpr hno]

theorem frames_sentMessages {s : Server} (h : s.WellSent) :
    frames 0 s.sentMessages = s.writes.flatMap Write.memory := by
  rw [sentMessages_eq h, frames, List.flatMap_map]
  apply List.flatMap_congr
  intro x hx
  rcases message?_of_mem_writes h hx with ⟨m, -, hno, hframe⟩
  rw [hframe, cut_frame_eq, cut_eq_self.mpr hno]

/-- What the writes moved is the frames exactly when no write was short. -/
theorem stream_eq_frames_iff {s : Server} (h : s.WellSent) :
    s.world.stream = frames 0 s.sentMessages ↔ WholeWrites s := by
  have hle : ∀ x ∈ s.writes, x.count.toNat ≤ x.memory.length := by
    intro x hx
    rcases (h.frame x hx).1 with hcount | ⟨k, hcount, hk⟩
    · simp [hcount]
    · simpa [hcount] using hk
  rw [h.stream, frames_sentMessages h]
  refine (flatMap_take_eq_iff hle).trans ?_
  apply forall₂_congr
  intro x hx
  rcases h.frame x hx with ⟨hcounts, m, -, hframe⟩
  have hpos : 0 < x.memory.length := by simp [hframe, frame]
  rcases hcounts with hcount | ⟨k, hcount, -⟩
  · rw [hcount]
    constructor <;> intro heq <;> omega
  · rw [hcount]
    constructor <;> intro heq <;> omega

/-- No call of `writeSerialPort` ends but with its acknowledgement. -/
theorem idle_of_wellSent {s : Server} (hT : sending.Typed s) (h : s.WellSent) (hq : s.Quiet) :
    s.Idle := by
  refine Typestate.idle_of_quiet hT ?_ hq
  intro i g e hg hother
  rcases h.message i g hg with ⟨m, hm, -⟩
  rw [show g = .other from hother] at hm
  simp [SendState.message?] at hm

/-- **With no call in progress, the stream is the acknowledged messages exactly when no
write was short.** -/
theorem sentExactly_iff {openAtStart : List Bool} {file : Bytes} {es : List ServerEvent}
    {s : Server} (hops : OnlyDispatches IsWrite es)
    (hr : (Server.boot openAtStart file).run es = some s) (hquiet : s.Quiet) :
    SentExactly s ↔ WholeWrites s := by
  rcases run_wellSent hops hr with ⟨hT, hW⟩
  have hidle := idle_of_wellSent hT hW hquiet
  rw [← stream_eq_frames_iff hW]
  constructor
  · exact SentExactly.stream
  · intro hstream
    refine ⟨mem_writers_iff hT hW hidle, hW.once, hstream, ?_⟩
    rw [hstream]
    apply split_frames
    intro m hm
    rw [sentMessages_eq hW] at hm
    rcases List.mem_map.mp hm with ⟨x, -, rfl⟩
    exact not_mem_cut x.memory

/-- Two calls that overlap; the one dispatched second writes first, an empty message. -/
def overlappingWrites : List ServerEvent :=
  [.spawn (.writeSerialPort [104, 105]), .spawn (.writeSerialPort []), .act 0 .granted,
    .act 1 .granted, .act 1 (.moved 1), .act 0 (.moved 3), .act 0 .granted, .act 1 .granted,
    .act 1 .granted, .act 0 .granted]

theorem sentExactly_overlappingWrites :
    ∃ s, (Server.boot [] []).run overlappingWrites = some s ∧ SentExactly s := by
  have hrun : ∃ s ∈ (Server.boot [] []).run overlappingWrites, s.Quiet ∧ WholeWrites s := by
    decide +kernel
  rcases hrun with ⟨s, hs, hquiet, hwhole⟩
  exact ⟨s, hs, (sentExactly_iff (by decide) hs hquiet).mpr hwhole⟩

/-- A `write` that moves one byte of the three of a frame. -/
def shortWrite : List ServerEvent :=
  [.spawn (.writeSerialPort [104, 105]), .act 0 .granted, .act 0 (.moved 1), .act 0 .granted,
    .act 0 .granted]

/-- The message is acknowledged, and no message can be read off the stream. -/
theorem not_forall_sentExactly :
    ¬ ∀ (openAtStart : List Bool) (file : Bytes) (es : List ServerEvent) (s : Server),
      OnlyDispatches IsWrite es → NoFailure es →
        (Server.boot openAtStart file).run es = some s → s.Quiet → SentExactly s := by
  intro hall
  have hrun : ∃ s ∈ (Server.boot [] []).run shortWrite,
      s.Quiet ∧ split 0 s.world.stream ≠ s.sentMessages := by decide +kernel
  rcases hrun with ⟨s, hs, hquiet, hsplit⟩
  exact hsplit (hall [] [] shortWrite s (by decide) (by decide) hs hquiet).split

end IceSerialPort
