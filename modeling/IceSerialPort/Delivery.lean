import IceSerialPort.Server

/-!
# Messages from the serial line

`readSerialPort` keeps nothing between calls: of the bytes its one `read` takes off the
line it returns those before the first NUL, and the others are gone. What the calls
return is therefore what `cut` makes of the chunks their reads took, and the chunks are
the line, cut up where the reads happened to stop.

## Main definitions

* `Server.chunks`, `Server.texts`: what the reads took, and what the calls returned.
* `ReadRun`: a peer's framed messages arrive while calls are made one after another.

## Main results

* `line_run`: no byte of the line is lost or repeated.
* `run_reading`: what the calls returned is the cut of the chunks they took.
* `delivered_of_whole`, `whole_of_delivered`: the messages come through exactly when
  every read takes one whole frame.
-/

namespace IceSerialPort

open Effects CString Framing Transition

/-- The bytes that an entry of the history took off the line. -/
def chunkOf (e : ℕ × Performed Action.Answer) : Option Bytes := taken e.2

/-- What the reads took off the line, in order. -/
def Server.chunks (s : Server) : List Bytes := s.history.filterMap chunkOf

/-- The text of a call that has returned one. -/
def textOf (c : Call Action Action.Answer Abort Reply Operation) : Option Bytes :=
  match c.rest.value? with
  | some (.text s) => some s
  | _ => none

/-- The texts that the calls have returned, in the order of the calls. -/
def Server.texts (s : Server) : List Bytes := s.calls.filterMap textOf

/-! ## The line along a run -/

theorem chunks_act (s : Server) (w : World)
    (calls : List (Call Action Action.Answer Abort Reply Operation))
    (e : ℕ × Performed Action.Answer) :
    Server.chunks ⟨w, calls, s.history ++ [e]⟩ = s.chunks ++ (chunkOf e).toList := by
  simp only [Server.chunks, List.filterMap_append, List.filterMap_cons, List.filterMap_nil]
  cases chunkOf e <;> rfl

/-- **No byte of the line is lost or repeated**: what has arrived has been taken by a
read, in order, or is still on the line. -/
theorem line_run {s t : Server} {es : List ServerEvent} (h : s.run es = some t) :
    t.chunks.flatten ++ t.world.line = s.chunks.flatten ++ s.world.line ++ arrived es := by
  induction es generalizing s with
  | nil =>
      obtain rfl : s = t := by simpa using h
      simp [arrived]
  | cons e es ih =>
      rcases Option.bind_eq_some_iff.mp h with ⟨s', hs, ht⟩
      rw [ih ht]
      cases e with
      | outside bs =>
          rcases System.step_outside.mp hs with ⟨w, hw, rfl⟩
          rw [system_outside, Option.some.injEq] at hw
          subst hw
          simp [arrived, Server.chunks]
      | spawn op =>
          rw [System.step_spawn.mp hs]
          rfl
      | act i c =>
          rcases System.step_act.mp hs with ⟨op, a, k, r, w, -, hp, rfl⟩
          have hline := perform_line hp
          rw [chunks_act, hline]
          simp [arrived, chunkOf]

/-! ## The protocol of a call -/

/-- How far a call of `readSerialPort` has come. -/
inductive ReadState where
  | waiting
  /-- The `read` took these bytes. -/
  | took (chunk : Bytes)
  /-- The `read` failed or met the end of the file. -/
  | failed
  /-- The call is of another operation. -/
  | other

/-- A call reads once and returns the text of what it took, unless that fills `read_buf`
and has no NUL. -/
def reading : Typestate Action Action.Answer Abort Reply Operation ReadState where
  start
    | .readSerialPort => .waiting
    | _ => .other
  can
    | .took _, .read _ _ => False
    | _, _ => True
  next
    | .waiting, .read _ _, r => if 0 < r.n then .took r.bytes else .failed
    | g, _, _ => g
  final
    | .waiting, _ => False
    | .took chunk, reply => reply = .text (cut 0 chunk)
    | .failed, reply => reply = .text noData
    | .other, _ => True
  abort
    | .took chunk, _ => chunk.length = 2048 ∧ (0 : UInt8) ∉ chunk
    | .other, _ => True
    | _, _ => False

/-- What a call does after its `read` has returned `got`. -/
theorem reading_readAnswer (fd : Int) (got : ReadAnswer 2048) :
    reading.Obeys (if 0 < got.n then .took got.bytes else .failed)
      (readAnswer fd got >>= fun s => .ret (Reply.text s)) := by
  rw [readAnswer]
  by_cases hn : 0 < got.n
  · simp only [hn, if_true]
    refine ⟨trivial, fun _ => obeys_string_bind (fun s hs => ?_) fun hnone => ?_⟩
    · rw [Block.text?_fill_zero] at hs
      split at hs
      · rw [← Option.some.inj hs]
        exact rfl
      · exact absurd hs (by simp)
    · rw [Block.text?_eq_none, Block.mem_fill_zero, not_or, Nat.not_lt] at hnone
      exact ⟨Nat.le_antisymm got.length_le hnone.1, hnone.2⟩
  · simp only [hn, if_false]
    exact ⟨trivial, fun _ => rfl⟩

/-- **Every call reads once and can only return the text of what it took.** -/
theorem reading_readSerialPort :
    reading.Obeys .waiting (Reply.text <$> readSerialPort) := by
  have hrest : ∀ fd, reading.Obeys .waiting (readRest fd >>= fun s => .ret (Reply.text s)) :=
    fun fd => ⟨trivial, fun got => reading_readAnswer fd got⟩
  rw [readSerialPort_eq, map_eq_pure_bind, bind_assoc]
  exact obeys_openSerialPort_bind trivial (fun fd _ _ => hrest fd)
    fun fd _ _ => ⟨trivial, fun _ => hrest fd⟩

/-! ## One call after another -/

/-- A call that took a chunk and has returned. -/
def answeredCall (chunk : Bytes) : Call Action Action.Answer Abort Reply Operation :=
  ⟨.readSerialPort, .ret (.text (cut 0 chunk))⟩

/-- The calls took the chunks `done` and have returned, except perhaps the last one. -/
inductive Server.Reading (s : Server) : Prop where
  | settled (done : List Bytes) (calls : s.calls = done.map answeredCall)
      (chunks : s.chunks = done)
  | opening (done : List Bytes) (p : Code Reply)
      (calls : s.calls = done.map answeredCall ++ [⟨.readSerialPort, p⟩])
      (chunks : s.chunks = done) (obeys : reading.Obeys .waiting p)
  | holding (done : List Bytes) (chunk : Bytes) (p : Code Reply)
      (calls : s.calls = done.map answeredCall ++ [⟨.readSerialPort, p⟩])
      (chunks : s.chunks = done ++ [chunk]) (obeys : reading.Obeys (.took chunk) p)
      (pending : ¬ p.Returned)
      (taken : ∃ e ∈ s.history, e.1 = done.length ∧ (chunkOf e).isSome)

/-- The call that acts is the last one: the others have returned. -/
theorem last_of_acting {done : List Bytes} {p : Code Reply} {i : ℕ} {op : Operation}
    {a : Action} {k : a.Answer → Code Reply}
    (h : (done.map answeredCall ++ [⟨.readSerialPort, p⟩])[i]? = some ⟨op, .call a k⟩) :
    i = done.length ∧ op = .readSerialPort ∧ p = .call a k := by
  have hlt : i < done.length + 1 := by
    have := (List.getElem?_eq_some_iff.mp h).1
    simpa using this
  by_cases hi : i < done.length
  · rw [List.getElem?_append_left (by simpa using hi), List.getElem?_map,
      List.getElem?_eq_getElem hi, Option.map_some, answeredCall] at h
    injection h with h
    injection h with _ hrest
    exact absurd hrest (by simp)
  · obtain rfl : i = done.length := by omega
    rw [List.getElem?_append_right (by simp), List.length_map, Nat.sub_self] at h
    injection h with h
    injection h with hop hrest
    exact ⟨rfl, hop.symm, hrest⟩

/-- A step of the last call leaves the others. -/
theorem set_last (done : List Bytes) (x y : Call Action Action.Answer Abort Reply Operation) :
    (done.map answeredCall ++ [x]).set done.length y = done.map answeredCall ++ [y] := by
  rw [List.set_append_right _ _ (by simp)]
  simp

/-- A call that has taken a chunk has returned its text or is still to return it. -/
theorem reading_of_took {s : Server} {done : List Bytes} {chunk : Bytes} {p : Code Reply}
    (calls : s.calls = done.map answeredCall ++ [⟨.readSerialPort, p⟩])
    (chunks : s.chunks = done ++ [chunk]) (obeys : reading.Obeys (.took chunk) p)
    (taken : ∃ e ∈ s.history, e.1 = done.length ∧ (chunkOf e).isSome) : s.Reading := by
  by_cases hp : p.Returned
  · rcases Prog.returned_iff.mp hp with ⟨reply, rfl⟩
    have hreply : reply = .text (cut 0 chunk) := obeys
    refine .settled (done ++ [chunk]) ?_ chunks
    rw [calls, hreply, List.map_append]
    rfl
  · exact .holding done chunk p calls chunks obeys hp taken

/-- An action of a call that still waits. -/
theorem reading_act_waiting {s : Server} {done : List Bytes} {i : ℕ} {a : Action}
    {k : a.Answer → Code Reply} {r : a.Answer} {c : Choice} {w : World}
    (calls : s.calls = done.map answeredCall ++ [⟨.readSerialPort, .call a k⟩])
    (chunks : s.chunks = done) (obeys : reading.Obeys .waiting (.call a k))
    (hp : perform i s.world a c = some (r, w)) (hok : c.succeeds) :
    Server.Reading ⟨w, done.map answeredCall ++ [⟨.readSerialPort, k r⟩],
      s.history ++ [(done.length, ⟨a, r⟩)]⟩ := by
  cases a with
  | read fd count =>
      rcases perform_read.mp hp with ⟨n, -, -, hn, -, -, hr, -, -⟩ | ⟨rfl, -⟩ | ⟨errno, rfl, -⟩
      · have hpos : 0 < r.n := by omega
        have hchunk : chunkOf (done.length, ⟨.read fd count, r⟩) = some r.bytes := by
          simp [chunkOf, taken, hpos]
        have hnext : reading.next .waiting (.read fd count) r = .took r.bytes := by
          simp [reading, hpos]
        refine reading_of_took rfl ?_ (hnext ▸ obeys.2 r) ?_
        · rw [chunks_act, chunks, hchunk]
          rfl
        · exact ⟨_, List.mem_append_right _ List.mem_cons_self, rfl, by simp [hchunk]⟩
      · exact absurd hok (by simp [Choice.succeeds])
      · exact absurd hok (by simp [Choice.succeeds])
  | _ =>
      refine .opening done _ rfl ?_ (obeys.2 r)
      rw [chunks_act, chunks]
      simp [chunkOf, taken]

/-- An action of a call that has taken a chunk. -/
theorem reading_act_took {s : Server} {done : List Bytes} {chunk : Bytes} {a : Action}
    {k : a.Answer → Code Reply} {r : a.Answer} {w : World}
    (chunks : s.chunks = done ++ [chunk]) (obeys : reading.Obeys (.took chunk) (.call a k))
    (taken : ∃ e ∈ s.history, e.1 = done.length ∧ (chunkOf e).isSome) :
    Server.Reading ⟨w, done.map answeredCall ++ [⟨.readSerialPort, k r⟩],
      s.history ++ [(done.length, ⟨a, r⟩)]⟩ := by
  rcases taken with ⟨e, he, hcall, hsome⟩
  cases a with
  | read fd count => exact obeys.1.elim
  | _ =>
      refine reading_of_took rfl ?_ (obeys.2 r)
        ⟨e, List.mem_append_left _ he, hcall, hsome⟩
      rw [chunks_act, chunks]
      simp [chunkOf, taken]

/-- One read at a time, and no call fails. -/
def OneReader (s : Server) (e : ServerEvent) : Prop :=
  (∀ op, e = .spawn op → op = .readSerialPort ∧ s.Idle) ∧ ∀ i c, e = .act i c → c.succeeds

/-- **One event of a run of successive reads.** -/
theorem reading_step {s s' : Server} {e : ServerEvent} (hC : OneReader s e) (hI : s.Reading)
    (hs : system.step s e = some s') : s'.Reading := by
  cases e with
  | outside bs =>
      rcases System.step_outside.mp hs with ⟨w, -, rfl⟩
      cases hI with
      | settled done calls chunks => exact .settled done calls chunks
      | opening done p calls chunks obeys => exact .opening done p calls chunks obeys
      | holding done chunk p calls chunks obeys pending taken =>
          exact .holding done chunk p calls chunks obeys pending taken
  | spawn op =>
      rcases hC.1 op rfl with ⟨rfl, hidle⟩
      rw [System.step_spawn.mp hs]
      cases hI with
      | settled done calls chunks =>
          refine .opening done _ ?_ chunks reading_readSerialPort
          rw [calls]
          rfl
      | opening done p calls chunks obeys =>
          rcases Prog.returned_iff.mp (hidle _ (calls ▸ List.mem_append_right _ List.mem_cons_self))
            with ⟨reply, rfl⟩
          exact obeys.elim
      | holding done chunk p calls chunks obeys pending taken =>
          exact absurd (hidle _ (calls ▸ List.mem_append_right _ List.mem_cons_self)) pending
  | act i c =>
      have hok := hC.2 i c rfl
      rcases System.step_act.mp hs with ⟨op, a, k, r, w, hc, hp, rfl⟩
      cases hI with
      | settled done calls chunks =>
          rw [calls, List.getElem?_map, Option.map_eq_some_iff] at hc
          rcases hc with ⟨chunk, -, hcall⟩
          injection hcall with _ hrest
          exact absurd hrest (by simp)
      | opening done p calls chunks obeys =>
          rw [calls] at hc
          rcases last_of_acting hc with ⟨rfl, rfl, rfl⟩
          rw [calls, set_last]
          exact reading_act_waiting calls chunks obeys hp hok
      | holding done chunk p calls chunks obeys pending taken =>
          rw [calls] at hc
          rcases last_of_acting hc with ⟨rfl, rfl, rfl⟩
          rw [calls, set_last]
          exact reading_act_took chunks obeys taken

/-! ## The messages of a peer -/

/-- Every call that took bytes off the line has ended. -/
def Server.AllEnded (s : Server) : Prop :=
  ∀ e ∈ s.history, (chunkOf e).isSome → s.next? e.1 = none

instance (s : Server) : Decidable s.AllEnded :=
  inferInstanceAs (Decidable (∀ e ∈ s.history, _))

/-- The texts returned are what the calls took, cut; only the last chunk taken may be
still to come, or have been the end of its call if it was too long. -/
theorem texts_of_reading {s : Server} (h : s.Reading) :
    ∃ done, s.texts = done.map (cut 0) ∧ done <+: s.chunks ∧
      (s.AllEnded → s.chunks = done ∨
        ∃ chunk, s.chunks = done ++ [chunk] ∧ chunk.length = 2048 ∧ (0 : UInt8) ∉ chunk) := by
  have hanswered : ∀ done : List Bytes,
      (done.map answeredCall).filterMap textOf = done.map (cut 0) := by
    intro done
    rw [List.filterMap_map, ← List.filterMap_eq_map]
    rfl
  cases h with
  | settled done calls chunks =>
      refine ⟨done, ?_, chunks ▸ List.prefix_rfl, fun _ => Or.inl chunks⟩
      rw [Server.texts, calls, hanswered]
  | opening done p calls chunks obeys =>
      refine ⟨done, ?_, chunks ▸ List.prefix_rfl, fun _ => Or.inl chunks⟩
      have hnone : textOf ⟨.readSerialPort, p⟩ = none := by
        cases p with
        | ret reply => exact obeys.elim
        | stop e => rfl
        | call a k => rfl
      rw [Server.texts, calls, List.filterMap_append, hanswered, List.filterMap_cons_none hnone]
      simp
  | holding done chunk p calls chunks obeys pending taken =>
      have hnone : p.value? = none := by
        cases p with
        | ret reply => exact absurd trivial pending
        | stop e => rfl
        | call a k => rfl
      refine ⟨done, ?_, chunks ▸ List.prefix_append _ _, ?_⟩
      · have htext : textOf ⟨.readSerialPort, p⟩ = none := by simp [textOf, hnone]
        rw [Server.texts, calls, List.filterMap_append, hanswered, List.filterMap_cons_none htext]
        simp
      · intro hall
        rcases taken with ⟨e, he, hcall, hsome⟩
        have hended := hall e he hsome
        rw [Pool.next?, hcall, calls] at hended
        cases p with
        | ret reply => exact absurd trivial pending
        | stop f => exact Or.inr ⟨chunk, chunks, obeys⟩
        | call a k => simp [Prog.action?] at hended

/-- A peer sends framed messages, some of which have arrived, while `readSerialPort` is
called again and again, each time after the call before it has returned; no call to the
operating system fails. -/
structure ReadRun (openAtStart : List Bool) (file : Bytes) (ms : List Bytes)
    (es : List ServerEvent) (s : Server) : Prop where
  messages : ∀ m ∈ ms, m ≠ [] ∧ (0 : UInt8) ∉ m ∧ m.length ≤ 2047
  arrives : arrived es <+: frames 0 ms
  reads : OnlyDispatches (fun op => op = .readSerialPort) es
  successive : Always system.step (fun s e => (dispatch? e).isSome → s.Idle)
    (Server.boot openAtStart file) es
  noFailure : NoFailure es
  run : (Server.boot openAtStart file).run es = some s

/-- All messages have been sent and taken off the line, and no call is left with some. -/
structure Consumed (ms : List Bytes) (es : List ServerEvent) (s : Server) : Prop where
  sent : arrived es = frames 0 ms
  line : s.world.line = []
  ended : s.AllEnded

/-- The texts returned are the first messages, and all of them once all are consumed. -/
def Delivered (ms : List Bytes) (es : List ServerEvent) (s : Server) : Prop :=
  s.texts <+: ms ∧ (Consumed ms es s → s.texts = ms)

/-- Every read took one whole frame. -/
def WholeReads (s : Server) : Prop := ∀ chunk ∈ s.chunks, Whole 0 chunk

instance (s : Server) : Decidable (WholeReads s) :=
  inferInstanceAs (Decidable (∀ chunk ∈ s.chunks, _))

section ReadRun

variable {openAtStart : List Bool} {file : Bytes} {ms : List Bytes} {es : List ServerEvent}
  {s : Server}

theorem run_reading (h : ReadRun openAtStart file ms es s) : s.Reading := by
  have hC : Always system.step OneReader (Server.boot openAtStart file) es := by
    refine Always.mono ?_ (((h.reads.always _).and h.successive).and (h.noFailure.always _))
    intro s e ⟨⟨hread, hidle⟩, hsucceeds⟩
    refine ⟨fun op hop => ⟨hread op hop, hidle ?_⟩, hsucceeds⟩
    rw [hop]
    rfl
  refine run_invariant (fun s e s' => reading_step) ?_ hC h.run
  exact .settled [] rfl rfl

/-- What the reads took is the beginning of what was sent. -/
theorem chunks_of_readRun (h : ReadRun openAtStart file ms es s) :
    s.chunks.flatten ++ s.world.line = arrived es := by
  have hline := line_run h.run
  simpa [Server.boot, Pool.boot, Server.chunks, World.boot] using hline

/-- **Whole reads deliver the messages**: at every point the texts returned are the
first messages, and all of them once all are consumed. -/
theorem delivered_of_whole (h : ReadRun openAtStart file ms es s) (hw : WholeReads s) :
    Delivered ms es s := by
  have hfree : ∀ m ∈ ms, (0 : UInt8) ∉ m := fun m hm => (h.messages m hm).2.1
  rcases texts_of_reading (run_reading h) with ⟨done, htexts, hpre, hall⟩
  have hdone : ∀ chunk ∈ done, Whole 0 chunk := fun chunk hc => hw chunk (hpre.subset hc)
  have hchunks := chunks_of_readRun h
  constructor
  · have htaken : done.flatten <+: frames 0 ms := by
      have hflat : done.flatten <+: s.chunks.flatten := by
        rcases hpre with ⟨rest, hrest⟩
        rw [← hrest, List.flatten_append]
        exact List.prefix_append _ _
      exact (hflat.trans (hchunks ▸ List.prefix_append _ _)).trans h.arrives
    rw [htexts]
    exact cut_eq_of_whole hfree hdone htaken
  · intro hcons
    -- A chunk that ends its call has no NUL, and a whole frame has one.
    have htaken : s.chunks = done := by
      rcases hall hcons.ended with heq | ⟨chunk, heq, -, hno⟩
      · exact heq
      · exact absurd (hw chunk (by simp [heq])).mem hno
    have hframes : frames 0 (done.map (cut 0)) = frames 0 ms := by
      rw [← flatten_of_whole hdone, ← htaken, ← hcons.sent, ← hchunks, hcons.line,
        List.append_nil]
    have hcut : ∀ m ∈ done.map (cut 0), (0 : UInt8) ∉ m := by
      intro m hm
      rcases List.mem_map.mp hm with ⟨chunk, -, rfl⟩
      exact not_mem_cut chunk
    calc
      s.texts = done.map (cut 0) := htexts
      _ = split 0 (frames 0 (done.map (cut 0))) := (split_frames hcut).symm
      _ = split 0 (frames 0 ms) := by rw [hframes]
      _ = ms := split_frames hfree

/-- **Only whole reads deliver the messages**: a run that has consumed them all and
returned them all took one whole frame with each read. -/
theorem whole_of_delivered (h : ReadRun openAtStart file ms es s) (hcons : Consumed ms es s)
    (hd : Delivered ms es s) : WholeReads s := by
  rcases texts_of_reading (run_reading h) with ⟨done, htexts, -, hall⟩
  have hchunks := chunks_of_readRun h
  rw [hcons.line, List.append_nil, hcons.sent] at hchunks
  -- The stream ends with a NUL, so its last chunk has not ended its call.
  have htaken : s.chunks = done := by
    rcases hall hcons.ended with heq | ⟨chunk, heq, hlen, hno⟩
    · exact heq
    · have hne : chunk ≠ [] := by
        rintro rfl
        simp at hlen
      have hsuffix : chunk <:+ frames 0 ms := by
        rw [← hchunks, heq, List.flatten_append]
        simp
      exact absurd (mem_of_suffix_frames hne hsuffix) hno
  rw [htaken] at hchunks
  rw [WholeReads, htaken]
  exact whole_of_cuts (fun m hm => (h.messages m hm).1) (fun m hm => (h.messages m hm).2.1)
    (htexts.symm.trans (hd.2 hcons)) hchunks

/-- **The messages come through, none lost, repeated, split or merged, when every read
takes one whole frame, and only then.** -/
theorem delivered_wholeReads (h : ReadRun openAtStart file ms es s) :
    (WholeReads s → Delivered ms es s) ∧
      (Consumed ms es s → Delivered ms es s → WholeReads s) :=
  ⟨delivered_of_whole h, whole_of_delivered h⟩

end ReadRun

/-- A frame that arrives in two pieces and is read whole. -/
def wholeRead : List ServerEvent :=
  [.outside [104], .spawn .readSerialPort, .outside [105, 0], .act 0 .granted, .act 0 (.moved 3),
    .act 0 .granted]

theorem delivered_wholeRead :
    ∃ s, (Server.boot [] []).run wholeRead = some s ∧ Delivered [[104, 105]] wholeRead s := by
  have hrun : ∃ s ∈ (Server.boot [] []).run wholeRead, WholeReads s := by decide +kernel
  rcases hrun with ⟨s, hs, hwhole⟩
  have h : ReadRun [] [] [[104, 105]] wholeRead s :=
    ⟨by decide, ⟨[], rfl⟩, by decide, by decide, by decide, hs⟩
  exact ⟨s, hs, (delivered_wholeReads h).1 hwhole⟩

/-- Two frames that are on the line when a `read` comes, and are taken together. -/
def mergedRead : List ServerEvent :=
  [.outside [97, 0, 98, 0], .spawn .readSerialPort, .act 0 .granted, .act 0 (.moved 4),
    .act 0 .granted]

/-- The second message is lost. -/
theorem not_forall_delivered :
    ¬ ∀ (openAtStart : List Bool) (file : Bytes) (ms : List Bytes) (es : List ServerEvent)
      (s : Server), ReadRun openAtStart file ms es s → Delivered ms es s := by
  intro hall
  have hrun : ∃ s ∈ (Server.boot [] []).run mergedRead,
      s.texts ≠ [[97], [98]] ∧ s.world.line = [] ∧ s.AllEnded := by decide +kernel
  rcases hrun with ⟨s, hs, htexts, hline, hall'⟩
  have h : ReadRun [] [] [[97], [98]] mergedRead s :=
    ⟨by decide, ⟨[], rfl⟩, by decide, by decide, by decide, hs⟩
  exact htexts ((hall [] [] [[97], [98]] mergedRead s h).2 ⟨rfl, hline, hall'⟩)

end IceSerialPort
