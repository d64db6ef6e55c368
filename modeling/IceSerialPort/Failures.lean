import IceSerialPort.Server

/-!
# What becomes of a failed call

No operation has a way to fail: `Server.ice` declares no exception and the code raises
none. A failed `open` is printed, `readSerialPort` answers `No data` when nothing was
read, and `writeSerialPort` prints the count and returns. The typestate `accounting`
carries the history of a call, so that what an operation makes of the answers of its own
calls is read off its text once and holds however the calls interleave.

## Main definitions

* `Answers`, `Aborts`: what each operation returns, from what its calls came to, and when
  it ends without returning.

## Main results

* `accounting_program`: each operation ends so, on every path.
* `failuresAnswered_of_reachable`: in every reachable state, for every call.
-/

namespace IceSerialPort

open Effects CString Framing Transition

/-- What each operation returns, given what it has performed. -/
def Answers : Operation → List (Performed Action.Answer) → Reply → Prop
  | .readSerialPort, h, reply =>
      ((∃ p ∈ h, Failed p) → reply = .text noData ∧ ∀ p ∈ h, taken p = none) ∧
        ((∀ p ∈ h, ¬ Failed p) →
          ∃ chunk, h.filterMap taken = [chunk] ∧ chunk ≠ [] ∧ reply = .text (cut 0 chunk))
  | .writeSerialPort message, h, reply =>
      reply = .ack ∧ ∃ (fd : Int) (errno : ℕ) (count : Int),
        h = ⟨.openPort .wronly, (fd, errno)⟩ ::
          ((if fd < 0 then [⟨.printf (.openError errno), ()⟩] else []) ++
            [⟨.write fd (frame 0 message) (message.length + 1), count⟩,
              ⟨.printf (.wrote (cInt count)), ()⟩, ⟨.close fd, ()⟩]) ∧
        (count = -1 ∨ (1 ≤ count ∧ count ≤ message.length + 1))
  | .readInfoFromDevice, h, reply =>
      ∃ (b : Block 128) (text : Bytes),
        h.getLast? = some ⟨.copyBuffer, b⟩ ∧ b.text? = some text ∧ reply = .text text

/-- How each operation can end without returning, given what it has performed. -/
def Aborts : Operation → List (Performed Action.Answer) → Abort → Prop
  | .readSerialPort, h, e =>
      e = .undefined .unterminated ∧ (∀ p ∈ h, ¬ Failed p) ∧
        ∃ chunk, h.filterMap taken = [chunk] ∧ chunk.length = 2048 ∧ (0 : UInt8) ∉ chunk
  | .writeSerialPort _, _, _ => False
  | .readInfoFromDevice, _, e => e ≠ .raised

/-- `fopen` has failed. -/
def noStream : Performed Action.Answer := ⟨.fopen, (none : Option ℕ)⟩

/-- A call with its history: it uses a null stream only if `fopen` gave it that, it
ends as its operation does. -/
def accounting : Typestate Action Action.Answer Abort Reply Operation
    (Operation × List (Performed Action.Answer)) where
  start op := (op, [])
  can g a := a = .fscanf none ∨ a = .fclose none → noStream ∈ g.2
  next g a r := (g.1, g.2 ++ [⟨a, r⟩])
  final g reply := (∀ p ∈ g.2, Consistent p) → Answers g.1 g.2 reply
  abort g e := (∀ p ∈ g.2, Consistent p) → Aborts g.1 g.2 e

theorem accounting_after (op : Operation) (pre h : List (Performed Action.Answer)) :
    accounting.after (op, pre) h = (op, pre ++ h) := by
  induction h generalizing pre with
  | nil => simp [Typestate.after]
  | cons p h ih =>
      have := ih (pre ++ [p])
      simpa [Typestate.after, accounting] using this

/-! ## The operations -/

/-- A read that took something: nothing failed before it. -/
theorem accounting_of_read {pre h : List (Performed Action.Answer)} {fd : Int} {u : Unit}
    (hpre : ∀ p ∈ pre, taken p = none ∧ (Failed p → fd < 0)) {got : ReadAnswer 2048}
    (hn : 0 < got.n) (hh : h = pre ++ [⟨.read fd 2048, got⟩, ⟨.close fd, u⟩])
    (hok : ∀ p ∈ h, Consistent p) :
    (∀ p ∈ h, ¬ Failed p) ∧ got.bytes ≠ [] ∧ h.filterMap taken = [got.bytes] := by
  subst hh
  have hread : Consistent ⟨.read fd 2048, got⟩ := hok _ (by simp)
  have hfd : ¬ fd < 0 := fun hneg => by have := hread.1 hneg; omega
  refine ⟨?_, ?_, ?_⟩
  · intro p hp hf
    rw [List.mem_append, List.mem_pair] at hp
    rcases hp with hp | rfl | rfl
    · exact hfd ((hpre p hp).2 hf)
    · exact absurd hf (by simpa [Failed] using hn)
    · exact hf.elim
  · rcases hread.2 with ⟨hle, -⟩ | ⟨-, hne⟩
    · omega
    · exact hne
  · have hnil : pre.filterMap taken = [] :=
      List.filterMap_eq_nil_iff.mpr fun p hp => (hpre p hp).1
    have hgot : taken ⟨.read fd 2048, got⟩ = some got.bytes := by simp [taken, hn]
    rw [List.filterMap_append, hnil, List.filterMap_cons_some hgot]
    rfl

/-- What `readSerialPort` does after its `read` has returned `got`. -/
theorem accounting_readAnswer {pre : List (Performed Action.Answer)} {fd : Int}
    (hpre : ∀ p ∈ pre, taken p = none ∧ (Failed p → fd < 0)) (got : ReadAnswer 2048) :
    accounting.Obeys (.readSerialPort, pre ++ [⟨.read fd 2048, got⟩])
      (readAnswer fd got >>= fun s => .ret (Reply.text s)) := by
  refine ⟨by simp [accounting], fun u => ?_⟩
  have hnext : accounting.next (.readSerialPort, pre ++ [⟨.read fd 2048, got⟩]) (.close fd) u =
      (.readSerialPort, pre ++ [⟨.read fd 2048, got⟩, ⟨.close fd, u⟩]) := by simp [accounting]
  rw [hnext]
  by_cases hn : got.n > 0
  · simp only [hn, if_true]
    refine obeys_string_bind (fun s hs hok => ?_) fun hnone hok => ?_
    · obtain ⟨hno, hbytes, htaken⟩ := accounting_of_read hpre hn rfl hok
      constructor
      · rintro ⟨p, hp, hf⟩
        exact absurd hf (hno p hp)
      · intro _
        refine ⟨got.bytes, htaken, hbytes, ?_⟩
        rw [Block.text?_fill_zero] at hs
        split at hs
        · rw [← Option.some.inj hs]
        · exact absurd hs (by simp)
    · obtain ⟨hno, -, htaken⟩ := accounting_of_read hpre hn rfl hok
      rw [Block.text?_eq_none, Block.mem_fill_zero, not_or, Nat.not_lt] at hnone
      exact ⟨rfl, hno, got.bytes, htaken, Nat.le_antisymm got.length_le hnone.1, hnone.2⟩
  · simp only [hn, if_false]
    intro _
    have hfailed : Failed ⟨.read fd 2048, got⟩ := by simpa [Failed] using hn
    constructor
    · intro _
      refine ⟨rfl, fun p hp => ?_⟩
      rw [List.mem_append, List.mem_pair] at hp
      rcases hp with hp | rfl | rfl
      · exact (hpre p hp).1
      · simp [taken, hn]
      · rfl
    · intro hno
      exact absurd hfailed (hno _ (by simp))

theorem accounting_readSerialPort :
    accounting.Obeys (.readSerialPort, []) (Reply.text <$> readSerialPort) := by
  rw [readSerialPort_eq, map_eq_pure_bind, bind_assoc]
  refine obeys_openSerialPort_bind (by simp [accounting]) (fun fd errno _ => ?_)
    fun fd errno hfd => ⟨by simp [accounting], fun u => ?_⟩
  · refine ⟨by simp [accounting], fun got => ?_⟩
    have hpre : ∀ p ∈ ([⟨.openPort .rdonly, (fd, errno)⟩] : List (Performed Action.Answer)),
        taken p = none ∧ (Failed p → fd < 0) := by
      simp [taken, Failed]
    exact accounting_readAnswer hpre got
  · refine ⟨by simp [accounting], fun got => ?_⟩
    have hpre : ∀ p ∈ ([⟨.openPort .rdonly, (fd, errno)⟩, ⟨.printf (.openError errno), u⟩] :
        List (Performed Action.Answer)), taken p = none ∧ (Failed p → fd < 0) := by
      simp [taken, Failed, hfd]
    exact accounting_readAnswer hpre got

theorem accounting_writeSerialPort (message : Bytes) :
    accounting.Obeys (.writeSerialPort message, [])
      ((fun _ => Reply.ack) <$> writeSerialPort message) := by
  rw [writeSerialPort_eq, map_eq_pure_bind, bind_assoc]
  refine obeys_openSerialPort_bind (by simp [accounting]) (fun fd errno hfd => ?_)
    fun fd errno hfd => ⟨by simp [accounting], fun _ => ?_⟩ <;>
  · refine ⟨by simp [accounting], fun n => ⟨by simp [accounting], fun _ =>
      ⟨by simp [accounting], fun _ hok => ?_⟩⟩⟩
    have hwrite : Consistent ⟨.write fd (c_str message) (message.length + 1), n⟩ :=
      hok _ (by simp [accounting])
    exact ⟨rfl, fd, errno, n, by simp [accounting, hfd, c_str, frame], hwrite.2⟩

theorem accounting_readInfoFromDevice :
    accounting.Obeys (.readInfoFromDevice, []) (Reply.text <$> readInfoFromDevice) := by
  simp only [readInfoFromDevice_eq, map_eq_pure_bind, Prog.call_bind, bind_assoc]
  refine ⟨by simp [accounting], fun _ => ⟨by simp [accounting], fun _ =>
    ⟨by simp [accounting], fun ptr => ⟨?_, fun r => ?_⟩⟩⟩⟩
  · cases ptr <;> simp [accounting, noStream]
  · refine Sys.obeys_checked_bind (fun _ _ => ⟨?_, fun r' => ?_⟩)
      fun f _ _ => by simp [accounting, Aborts]
    · cases ptr <;> simp [accounting, noStream]
    · refine Sys.obeys_checked_bind (fun _ _ => ⟨by simp [accounting], fun b => ?_⟩)
        fun f _ _ => by simp [accounting, Aborts]
      refine obeys_string_bind (fun text htext _ => ?_) fun _ _ => by simp [accounting, Aborts]
      exact ⟨b, text, by simp [accounting], htext, rfl⟩

/-- **Each operation ends as it does on every path, whatever its calls come to.** -/
theorem accounting_program (op : Operation) :
    accounting.Obeys (accounting.start op) op.program := by
  cases op with
  | readSerialPort => exact accounting_readSerialPort
  | writeSerialPort message => exact accounting_writeSerialPort message
  | readInfoFromDevice => exact accounting_readInfoFromDevice

/-- No way of ending is an exception. -/
theorem not_raised_of_aborts {op : Operation} {h : List (Performed Action.Answer)} {e : Abort}
    (ha : Aborts op h e) : e ≠ .raised := by
  cases op with
  | readSerialPort =>
      rw [ha.1]
      simp
  | writeSerialPort message => exact ha.elim
  | readInfoFromDevice => exact ha

/-! ## Every reachable state -/

/-- The operating system has answered every call consistently. -/
def Server.Sound (s : Server) : Prop := ∀ e ∈ s.history, Consistent e.2

/-- **Every run is consistent, and its calls keep their accounts.** -/
theorem run_sound {openAtStart : List Bool} {file : Bytes} {es : List ServerEvent} {s : Server}
    (h : (Server.boot openAtStart file).run es = some s) : accounting.Typed s ∧ s.Sound := by
  refine Typestate.typed_run (C := fun _ _ => True) (I := Server.Sound) accounting_program
    ?outside ?spawn ?act ?boot always_true h
  case outside =>
    intro (s : Server) bs w _ hI _ _
    exact hI
  case spawn =>
    intro (s : Server) op _ hI _
    exact hI
  case act =>
    intro (s : Server) i c op a k r w g _ hI _ _ _ _ hp e he
    rcases List.mem_append.mp he with he | he
    · exact hI e he
    · rw [List.mem_singleton.mp he]
      exact perform_consistent hp
  case boot => simp [Server.Sound, Pool.boot]

/-- What failures come to in a state of the server. -/
structure FailuresAnswered (s : Server) : Prop where
  not_raised : ∀ c ∈ s.calls, c.rest ≠ .stop .raised
  /-- A call that has ended without returning has ended as `Aborts` says. -/
  aborts : ∀ (i : ℕ) c e, s.calls[i]? = some c → c.rest = .stop e → Aborts c.job (s.own i) e
  /-- A call on a null stream follows a failed `fopen`. -/
  null_stream : ∀ i a, s.next? i = some a → a = .fscanf none ∨ a = .fclose none →
    noStream ∈ s.own i
  /-- A call that has returned answers as `Answers` says. -/
  answers : ∀ (i : ℕ) c reply, s.calls[i]? = some c → c.rest = .ret reply →
    Answers c.job (s.own i) reply
  /-- A query with no failing call answers with the token of its own response, when no
  other call comes between its steps. -/
  own_response : ∀ cs rep s', system.serve s .readInfoFromDevice cs = some (rep, s') →
    (∀ p ∈ rep.trace, ¬ Failed p) → ∀ reply, rep.outcome = .returned reply →
      ∃ status body rest, cs = .granted :: .fetched status body :: rest ∧
        reply = .text (cut 0 (token body))
  /-- A device that sends `No data` gets the same answer returned with no failure. -/
  no_data : frame 0 noData <+: s.world.line →
    ∃ rep s', system.serve s .readSerialPort [.granted, .moved 8, .granted] = some (rep, s') ∧
      (∀ p ∈ rep.trace, ¬ Failed p) ∧ rep.outcome = .returned (.text noData)

theorem state_of_accounting {s : Server} {i : ℕ}
    {c : Call Action Action.Answer Abort Reply Operation} (hc : s.calls[i]? = some c) :
    accounting.stateAt s i = some (c.job, s.own i) := by
  rw [Typestate.stateAt, hc, Option.map_some]
  exact congrArg some (accounting_after c.job [] (s.own i))

/-- A query on its own whose calls all succeed. -/
theorem own_response_of_serve {s s' : Server} {cs : List Choice} {rep : ServerReport}
    (h : system.serve s .readInfoFromDevice cs = some (rep, s'))
    (hno : ∀ p ∈ rep.trace, ¬ Failed p) {reply : Reply} (hr : rep.outcome = .returned reply) :
    ∃ status body rest, cs = .granted :: .fetched status body :: rest ∧
      reply = .text (cut 0 (token body)) := by
  rcases Option.map_eq_some_iff.mp h with ⟨rep₁, hrun, heq⟩
  rcases Prod.mk.inj heq with ⟨rfl, -⟩
  rw [system_program, Operation.program, execute_map] at hrun
  rcases Option.map_eq_some_iff.mp hrun with ⟨rep₀, hrun₀, rfl⟩
  rcases readInfoFromDevice_cases hrun₀ with ⟨status, body, rest, hcs, hcases⟩
  refine ⟨status, body, rest, hcs, ?_⟩
  rcases hcases with ⟨hout, -⟩ | ⟨hout, -⟩ | ⟨b, hb, rfl⟩
  · simp [hout, Outcome.map] at hr
  · simp [hout, Outcome.map] at hr
  · have htoken : token body ≠ [] := by
      intro hnil
      refine hno ⟨.fscanf (some s.world.table.lowestFree),
        .ok (if token body = [] then -1 else 1)⟩ (by simp) ?_
      simp [Failed, hnil]
    have hlen : (token body).length < 128 := by
      by_contra hlong
      rw [storeAll_scanStores_eq_none _ htoken (by omega)] at hb
      exact absurd hb (by simp)
    obtain ⟨b', hb', hbytes⟩ := storeAll_scanStores s.world.buffer htoken hlen
    obtain rfl : b = b' := Option.some.inj (hb.symm.trans hb')
    have htext : b.text? = some (cut 0 (token body)) := by
      rw [Block.text?_eq_cut (by simp [hbytes]), hbytes, cut_append_delim]
    simpa [htext, textOutcome, Outcome.map, eq_comm] using hr

/-- A message `No data` from the device. -/
theorem no_data_of_serve {s : Server} (h : frame 0 noData <+: s.world.line) :
    ∃ rep s', system.serve s .readSerialPort [.granted, .moved 8, .granted] = some (rep, s') ∧
      (∀ p ∈ rep.trace, ¬ Failed p) ∧ rep.outcome = .returned (.text noData) := by
  have hlen : 8 ≤ s.world.line.length := h.length_le
  have htake : s.world.line.take 8 = frame 0 noData := (List.prefix_iff_eq_take.mp h).symm
  have hreceived : received (s.world.line.take 8) = .returned noData := by
    rw [htake]
    decide
  have hrun := execute_readSerialPort (i := s.calls.length) (by decide : 1 ≤ 8) (by decide) hlen
  simp only [System.serve, system_program, system_env, Operation.program, execute_map, hrun,
    hreceived]
  refine ⟨_, _, rfl, ?_, rfl⟩
  simp [Failed]

/-- **In every reachable state no failure has been raised, and every call that has
returned answers as its own calls came to.** -/
theorem failuresAnswered_of_reachable {s : Server} (h : s.Reachable) : FailuresAnswered s := by
  rcases h with ⟨openAtStart, file, es, hrun⟩
  rcases run_sound hrun with ⟨hT, hS⟩
  have hown : ∀ i, ∀ p ∈ s.own i, Consistent p := by
    intro i p hp
    rcases List.mem_map.mp hp with ⟨e, he, rfl⟩
    exact hS e (List.mem_of_mem_filter he)
  have haborts : ∀ (i : ℕ) c e, s.calls[i]? = some c → c.rest = .stop e →
      Aborts c.job (s.own i) e := by
    intro i c e hc he
    exact hT.abort_of_stop hc (state_of_accounting hc) he (hown i)
  refine ⟨?_, haborts, ?_, ?_, fun _ _ _ hs hno _ hr => own_response_of_serve hs hno hr,
    no_data_of_serve⟩
  · intro c hc hstop
    obtain ⟨i, hi⟩ := List.mem_iff_getElem?.mp hc
    exact not_raised_of_aborts (haborts i c _ hi hstop) rfl
  · intro i a hn hnull
    rcases Option.bind_eq_some_iff.mp hn with ⟨c, hc, ha⟩
    rcases Prog.action?_eq_some.mp ha with ⟨k, hcall⟩
    exact hT.can_of_call hc (state_of_accounting hc) hcall hnull
  · intro i c reply hc hr
    exact hT.final_of_ret hc (state_of_accounting hc) hr (hown i)

/-- A `writeSerialPort` whose `open` and `write` fail. -/
def failedWrite : List ServerEvent :=
  [.spawn (.writeSerialPort [104, 105]), .act 0 (.failed 2), .act 0 .granted, .act 0 (.failed 9),
    .act 0 .granted, .act 0 .granted]

theorem failuresAnswered_failedWrite :
    ∃ s, (Server.boot [] []).run failedWrite = some s ∧ FailuresAnswered s := by
  have hsome : ((Server.boot [] []).run failedWrite).isSome := by decide +kernel
  rcases Option.isSome_iff_exists.mp hsome with ⟨s, hs⟩
  exact ⟨s, hs, failuresAnswered_of_reachable ⟨[], [], failedWrite, hs⟩⟩

/-- No failure is reported as a success: a call that returned made no failing call, an
operation that does not return raises, and nothing is done with a null stream. -/
structure FailuresRaised (s : Server) : Prop where
  returned : ∀ (i : ℕ) c, s.calls[i]? = some c → c.rest.Returned → ∀ p ∈ s.own i, ¬ Failed p
  raised : ∀ c ∈ s.calls, ∀ e, c.rest = .stop e → e = .raised
  null_stream : ∀ i, s.next? i ≠ some (.fscanf none) ∧ s.next? i ≠ some (.fclose none)

/-- The write that failed has been acknowledged. -/
theorem not_forall_failuresRaised : ¬ ∀ s : Server, s.Reachable → FailuresRaised s := by
  intro hall
  have hrun : ∃ s ∈ (Server.boot [] []).run failedWrite,
      s.result? 0 = some .ack ∧ ∃ p ∈ s.own 0, Failed p := by decide +kernel
  rcases hrun with ⟨s, hs, hack, p, hp, hfailed⟩
  rcases Option.bind_eq_some_iff.mp hack with ⟨c, hc, hv⟩
  have hret : c.rest.Returned := Prog.returned_iff.mpr ⟨.ack, Prog.value?_eq_some.mp hv⟩
  exact (hall s ⟨[], [], failedWrite, hs⟩).returned 0 c hc hret p hp hfailed

end IceSerialPort
