import IceSerialPort.Server

/-!
# Device queries at the same time

When the thread pool has more than one thread, queries overlap. A query is then four
steps: its shell truncates `/tmp/device-info`, its `curl` writes the response there, the
file is opened and scanned into `buffer`, and `buffer` is copied into the result. File
and array are shared by all queries, so an answer is the query's own only if nobody else
uses the file between its write and its scan, nor the array between its scan and its
copy. (`readSerialPort` reads into an array of its own.)

## Main definitions

* `QueryEvent`, `Server.queryStep`: the four steps, as runs of the server.
* `Phase`, `Server.Phased`: how far each query has come.
* `Undisturbed`: a step that comes between the steps of no other query.

## Main results

* `queryStep_truncate`, …, `queryStep_copy`: what each step does.
* `ownAnswers_of_undisturbed`: in a run of undisturbed steps every answer is the
  query's own response.
-/

namespace IceSerialPort

open Effects CString Framing Transition

/-- The dispatch of a query, and the four steps of query `i`. -/
inductive QueryEvent where
  | dispatch
  | truncate (i : ℕ)
  | write (i : ℕ)
  | scan (i : ℕ)
  | copy (i : ℕ)
  deriving DecidableEq

/-- A response of at most 127 bytes, not empty and without white space. -/
structure Response where
  bytes : Bytes
  ne_nil : bytes ≠ []
  not_space : ∀ c ∈ bytes, isspace c = false
  length_le : bytes.length ≤ 127

/-- A response is its own token. -/
theorem Response.token_eq (r : Response) : token r.bytes = r.bytes := token_eq_self r.not_space

/-- A response fits `buffer`. -/
theorem Response.storeAll (r : Response) (b : Block 128) :
    ∃ b', b.storeAll (scanStores r.bytes) = some b' ∧
      b'.bytes = r.bytes ++ 0 :: b.bytes.drop (r.bytes.length + 1) := by
  have hne : token r.bytes ≠ [] := by rw [r.token_eq]; exact r.ne_nil
  have hlen : (token r.bytes).length < 128 := by
    rw [r.token_eq]
    exact Nat.lt_succ_of_le r.length_le
  simpa only [r.token_eq] using storeAll_scanStores b hne hlen

/-- The query that takes the step. -/
def QueryEvent.query? : QueryEvent → Option ℕ
  | .dispatch => none
  | .truncate i => some i
  | .write i => some i
  | .scan i => some i
  | .copy i => some i

/-- One step of a query, as the run of the server that it is. The step is possible when
it is the query's next one; `body i` is the response that query `i` receives. -/
def Server.queryStep (body : ℕ → Response) (s : Server) : QueryEvent → Option Server
  | .dispatch => s.run [.spawn .readInfoFromDevice]
  | .truncate i =>
      if s.next? i = some .redirect then s.run [.act i .granted] else none
  | .write i =>
      if s.next? i = some (.curl 0) then s.run [.act i (.fetched 0 (body i).bytes)] else none
  | .scan i =>
      -- `fopen`, `fscanf` and `fclose`
      if s.next? i = some .fopen then
        s.run [.act i .granted, .act i .granted, .act i .granted]
      else none
  | .copy i =>
      if s.next? i = some .copyBuffer then s.run [.act i .granted] else none

/-- The steps of queries are runs of the server. -/
theorem reachable_queryStep {body : ℕ → Response} {s s' : Server} {e : QueryEvent}
    (hs : s.Reachable) (h : s.queryStep body e = some s') : s'.Reachable := by
  cases e with
  | dispatch => exact hs.run h
  | _ =>
      simp only [Server.queryStep, Option.ite_none_right_eq_some] at h
      exact hs.run h.2

/-! ## How far a query has come -/

/-- The copy of `buffer` into the result. -/
def copyRest : Code Reply :=
  .call .copyBuffer fun buffer => string buffer >>= fun s => .ret (Reply.text s)

/-- Opening and scanning the file, and the rest. -/
def scanRest : Code Reply :=
  .call .fopen fun ptr => .call (.fscanf ptr) fun r => Sys.checked r >>= fun _ =>
    .call (.fclose ptr) fun r => Sys.checked r >>= fun _ => copyRest

/-- Where a query is between its steps. -/
inductive Phase where
  | waiting
  | truncated
  | written
  | scanned
  | answered (text : Bytes)
  /-- `buffer` held no NUL when it was copied. -/
  | undefined

/-- What is left of a query. -/
def Phase.rest : Phase → Code Reply
  | .waiting => .call .redirect fun offset => .call (.curl offset) fun _ => scanRest
  | .truncated => .call (.curl 0) fun _ => scanRest
  | .written => scanRest
  | .scanned => copyRest
  | .answered text => .ret (.text text)
  | .undefined => .stop (.undefined .unterminated)

theorem program_readInfoFromDevice :
    Operation.readInfoFromDevice.program = Phase.waiting.rest := by
  simp only [Operation.program, readInfoFromDevice_eq, map_eq_pure_bind, Prog.call_bind, bind_assoc]
  rfl

/-- The calls are queries in these phases. -/
def Server.Phased (s : Server) (phases : List Phase) : Prop :=
  s.calls = phases.map fun p => ⟨.readInfoFromDevice, p.rest⟩

theorem next?_of_phased {s : Server} {phases : List Phase} (h : s.Phased phases) (i : ℕ) :
    s.next? i = phases[i]?.bind fun p => p.rest.action? := by
  rw [Pool.next?, h, List.getElem?_map]
  cases phases[i]? <;> rfl

/-- The next action of a query says in which phase it is. -/
theorem next?_eq_some_iff {s : Server} {phases : List Phase} (h : s.Phased phases) {i : ℕ}
    {a : Action} {p : Phase} (hp : ∀ q : Phase, q.rest.action? = some a ↔ q = p) :
    s.next? i = some a ↔ phases[i]? = some p := by
  rw [next?_of_phased h, Option.bind_eq_some_iff]
  simp only [hp, exists_eq_right]

/-- The next action of a query, and where it takes the server. -/
theorem phased_act {s s' : Server} {phases : List Phase} (h : s.Phased phases) {i : ℕ}
    {p : Phase} (hp : phases[i]? = some p) {a : Action} {k : a.Answer → Code Reply}
    (hrest : p.rest = .call a k) {c : Choice} (hs : system.step s (.act i c) = some s') :
    ∃ r, perform i s.world a c = some (r, s'.world) ∧
      s'.calls = s.calls.set i ⟨.readInfoFromDevice, k r⟩ := by
  have hc : s.calls[i]? = some ⟨.readInfoFromDevice, .call a k⟩ := by
    rw [h, List.getElem?_map, hp, Option.map_some, hrest]
  exact System.calls_of_step_act hc hs

theorem phased_set {s s' : Server} {phases : List Phase} (h : s.Phased phases) {i : ℕ}
    {p : Phase} {rest : Code Reply} (hrest : rest = p.rest)
    (hs : s'.calls = s.calls.set i ⟨.readInfoFromDevice, rest⟩) : s'.Phased (phases.set i p) := by
  rw [Server.Phased, hs, h, hrest, List.map_set]

/-! ## What each step does -/

section Steps

variable {body : ℕ → Response} {s s' : Server} {phases : List Phase} {i : ℕ}

theorem next?_redirect (h : s.Phased phases) :
    s.next? i = some .redirect ↔ phases[i]? = some .waiting :=
  next?_eq_some_iff h fun q => by
    cases q <;> simp [Phase.rest, scanRest, copyRest, Prog.action?]

theorem next?_curl (h : s.Phased phases) :
    s.next? i = some (.curl 0) ↔ phases[i]? = some .truncated :=
  next?_eq_some_iff h fun q => by
    cases q <;> simp [Phase.rest, scanRest, copyRest, Prog.action?]

theorem next?_fopen (h : s.Phased phases) :
    s.next? i = some .fopen ↔ phases[i]? = some .written :=
  next?_eq_some_iff h fun q => by
    cases q <;> simp [Phase.rest, scanRest, copyRest, Prog.action?]

theorem next?_copyBuffer (h : s.Phased phases) :
    s.next? i = some .copyBuffer ↔ phases[i]? = some .scanned :=
  next?_eq_some_iff h fun q => by
    cases q <;> simp [Phase.rest, scanRest, copyRest, Prog.action?]

theorem queryStep_dispatch (h : s.Phased phases)
    (hs : s.queryStep body .dispatch = some s') :
    s'.world = s.world ∧ s'.Phased (phases ++ [.waiting]) := by
  have hstep : system.step s (.spawn .readInfoFromDevice) = some s' := by
    simpa [Server.queryStep] using hs
  rw [System.step_spawn.mp hstep]
  refine ⟨rfl, ?_⟩
  rw [Server.Phased, List.map_append, ← h, system_program, program_readInfoFromDevice]
  rfl

/-- The file is empty afterwards. -/
theorem queryStep_truncate (h : s.Phased phases)
    (hs : s.queryStep body (.truncate i) = some s') :
    phases[i]? = some .waiting ∧ s'.world = { s.world with file := [] } ∧
      s'.Phased (phases.set i .truncated) := by
  simp only [Server.queryStep, Option.ite_none_right_eq_some] at hs
  rcases hs with ⟨hn, hs⟩
  have hp := (next?_redirect h).mp hn
  have hstep : system.step s (.act i .granted) = some s' := by simpa using hs
  obtain ⟨r, hperf, hcalls⟩ := phased_act h hp rfl hstep
  obtain ⟨-, rfl, hw⟩ := perform_redirect.mp hperf
  exact ⟨hp, hw, phased_set h rfl hcalls⟩

/-- The response is written from the start of the file. -/
theorem queryStep_write (h : s.Phased phases) (hs : s.queryStep body (.write i) = some s') :
    phases[i]? = some .truncated ∧
      s'.world = { s.world with file := overwrite s.world.file 0 (body i).bytes } ∧
      s'.Phased (phases.set i .written) := by
  simp only [Server.queryStep, Option.ite_none_right_eq_some] at hs
  rcases hs with ⟨hn, hs⟩
  have hp := (next?_curl h).mp hn
  have hstep : system.step s (.act i (.fetched 0 (body i).bytes)) = some s' := by simpa using hs
  obtain ⟨r, hperf, hcalls⟩ := phased_act h hp rfl hstep
  obtain ⟨bs, hbs, hw⟩ := perform_curl.mp hperf
  injection hbs with hr hbs
  subst hbs
  exact ⟨hp, hw, phased_set h rfl hcalls⟩

/-- `buffer` is copied: its text, if it has one, is the answer. -/
theorem queryStep_copy (h : s.Phased phases) (hs : s.queryStep body (.copy i) = some s') :
    phases[i]? = some .scanned ∧ s'.world = s.world ∧
      s'.Phased (phases.set i (match s.world.buffer.text? with
        | some text => .answered text
        | none => .undefined)) := by
  simp only [Server.queryStep, Option.ite_none_right_eq_some] at hs
  rcases hs with ⟨hn, hs⟩
  have hp := (next?_copyBuffer h).mp hn
  have hstep : system.step s (.act i .granted) = some s' := by simpa using hs
  obtain ⟨r, hperf, hcalls⟩ := phased_act h hp rfl hstep
  obtain ⟨-, rfl, hw⟩ := perform_copyBuffer.mp hperf
  refine ⟨hp, hw, phased_set h ?_ hcalls⟩
  simp only [string]
  cases s.world.buffer.text? <;> rfl

/-- The three calls of a scan that succeed, one after another. -/
theorem perform_scan {w w₁ w₂ w₃ : World} {ptr : Option ℕ} {n : Int} {r : Except Fault Unit}
    (ho : perform i w .fopen .granted = some (ptr, w₁))
    (hf : perform i w₁ (.fscanf ptr) .granted = some (.ok n, w₂))
    (hc : perform i w₂ (.fclose ptr) .granted = some (r, w₃)) :
    r = .ok () ∧ ∃ b, w.buffer.storeAll (scanStores w.file) = some b ∧
      w₃ = w.scanned i w.file b := by
  rcases perform_fopen.mp ho with ⟨-, rfl, rfl⟩ | ⟨errno, hno, -⟩
  · rcases (perform_fscanf.mp hf).2 with ⟨hptr, -⟩ | ⟨p, b, hptr, -, hb, -, rfl⟩ |
      ⟨p, -, -, -, hr, -⟩
    · exact absurd hptr (by simp)
    · obtain rfl := Option.some.inj hptr
      rcases (perform_fclose.mp hc).2 with ⟨hptr, -⟩ | ⟨p, hptr, -, rfl, rfl⟩
      · exact absurd hptr (by simp)
      · obtain rfl := Option.some.inj hptr
        exact ⟨rfl, b, hb, rfl⟩
    · exact absurd hr (by simp)
  · exact absurd hno (by simp)

/-- The file is scanned into `buffer`; the scan has stayed inside it. -/
theorem queryStep_scan (h : s.Phased phases) (hs : s.queryStep body (.scan i) = some s') :
    phases[i]? = some .written ∧
      ∃ b, s.world.buffer.storeAll (scanStores s.world.file) = some b ∧
        s'.world = s.world.scanned i s.world.file b ∧ s'.Phased (phases.set i .scanned) := by
  simp only [Server.queryStep, Option.ite_none_right_eq_some] at hs
  rcases hs with ⟨hn, hs⟩
  have hp := (next?_fopen h).mp hn
  rw [Server.run, run_cons, Option.bind_eq_some_iff] at hs
  rcases hs with ⟨s₁, hopen, hs⟩
  rw [run_cons, Option.bind_eq_some_iff] at hs
  rcases hs with ⟨s₂, hscan, hs⟩
  have hclose : system.step s₂ (.act i .granted) = some s' := by simpa using hs
  have hlt : i < s.calls.length := by
    rw [h, List.length_map]
    exact (List.getElem?_eq_some_iff.mp hp).1
  obtain ⟨ptr, ho, hc₁⟩ := phased_act h hp rfl hopen
  have hi₁ : s₁.calls[i]? = some ⟨.readInfoFromDevice, .call (.fscanf ptr) fun r =>
      Sys.checked r >>= fun _ =>
        .call (.fclose ptr) fun r => Sys.checked r >>= fun _ => copyRest⟩ := by
    rw [hc₁]
    exact List.getElem?_set_self hlt
  obtain ⟨r, hf, hc₂⟩ := System.calls_of_step_act hi₁ hscan
  have hlt₁ : i < s₁.calls.length := (List.getElem?_eq_some_iff.mp hi₁).1
  have hi₂ : s₂.calls[i]? = some ⟨.readInfoFromDevice, Sys.checked r >>= fun _ =>
      .call (.fclose ptr) fun r => Sys.checked r >>= fun _ => copyRest⟩ := by
    rw [hc₂]
    exact List.getElem?_set_self hlt₁
  -- A scan or a close that goes wrong leaves the call with no next step.
  cases r with
  | error e =>
      obtain ⟨op, a, k, r', w, hc, -⟩ := System.step_act.mp hclose
      simp [hi₂, Sys.checked] at hc
  | ok n =>
      obtain ⟨r', hcl, hc₃⟩ := System.calls_of_step_act hi₂ hclose
      obtain ⟨rfl, b, hb, hw⟩ := perform_scan ho hf hcl
      refine ⟨hp, b, hb, hw, phased_set h (p := .scanned) rfl ?_⟩
      rw [hc₃, hc₂, hc₁, List.set_set, List.set_set]
      rfl

/-- A scan whose stores stay inside `buffer` is possible. -/
theorem isSome_scan (h : s.Phased phases) (hp : phases[i]? = some .written) {b : Block 128}
    (hb : s.world.buffer.storeAll (scanStores s.world.file) = some b) :
    (s.queryStep body (.scan i)).isSome := by
  have hc : s.calls[i]? = some ⟨.readInfoFromDevice, scanRest⟩ := by
    rw [h, List.getElem?_map, hp]
    rfl
  have hlt : i < s.calls.length := (List.getElem?_eq_some_iff.mp hc).1
  let w : World := { s.world with table := s.world.table.alloc (.stream i) }
  have hopen : perform i s.world .fopen .granted = some (some s.world.table.lowestFree, w) :=
    perform_fopen.mpr (Or.inl ⟨rfl, rfl, rfl⟩)
  have hscan : perform i w (.fscanf (some s.world.table.lowestFree)) .granted =
      some (.ok (if token w.file = [] then -1 else 1), { w with buffer := b }) :=
    perform_fscanf.mpr ⟨rfl, Or.inr (Or.inl ⟨_, b, rfl, isStream_alloc s.world i, hb, rfl, rfl⟩)⟩
  have hclose : perform i { w with buffer := b } (.fclose (some s.world.table.lowestFree))
      .granted = some (.ok (), s.world.scanned i s.world.file b) :=
    perform_fclose.mpr ⟨rfl, Or.inr ⟨_, rfl, isStream_alloc s.world i, rfl, rfl⟩⟩
  rw [Server.queryStep, if_pos ((next?_fopen h).mpr hp), Server.run, run_cons,
    System.step_act_of_env hc hopen, Option.bind_some, run_cons,
    System.step_act_of_env (List.getElem?_set_self hlt) hscan, Option.bind_some, run_cons,
    System.step_act_of_env (List.getElem?_set_self (by simpa using hlt)) hclose]
  rfl

end Steps

/-! ## Runs of undisturbed steps -/

/-- The step comes where no other query with another response is in the middle of its
use of the file or of `buffer`: no truncation and no write between a write and its scan,
no scan between a scan and its copy. A write covers what is in the file, and a response
that is scanned has no NUL, which would end the text of `buffer` early. -/
def Undisturbed (body : ℕ → Response) (s : Server) : QueryEvent → Prop
  | .truncate i => ∀ j ≠ i, s.next? j ≠ some .fopen
  | .write i =>
      s.world.file.length ≤ (body i).bytes.length ∧
        ∀ j ≠ i, s.next? j = some .fopen → (body j).bytes = (body i).bytes
  | .scan i =>
      (0 : UInt8) ∉ (body i).bytes ∧
        ∀ j ≠ i, s.next? j = some .copyBuffer → (body j).bytes = (body i).bytes
  | _ => True

theorem lt_of_next? {s : Server} {i : ℕ} {a : Action} (h : s.next? i = some a) :
    i < s.calls.length := by
  rw [Pool.next?, Option.bind_eq_some_iff] at h
  rcases h with ⟨c, hc, -⟩
  exact (List.getElem?_eq_some_iff.mp hc).1

/-- An assumption on the calls about to perform `a` concerns finitely many calls. -/
instance decidableForallNext (s : Server) (i : ℕ) (a : Action) (P : ℕ → Prop)
    [DecidablePred P] : Decidable (∀ j ≠ i, s.next? j = some a → P j) :=
  decidable_of_iff (∀ j < s.calls.length, j ≠ i → s.next? j = some a → P j)
    ⟨fun h j hj hn => h j (lt_of_next? hn) hj hn, fun h j _ hj hn => h j hj hn⟩

instance (body : ℕ → Response) (s : Server) : (e : QueryEvent) → Decidable (Undisturbed body s e)
  | .dispatch => isTrue trivial
  | .truncate i => decidableForallNext s i .fopen fun _ => False
  | .write _ => inferInstanceAs (Decidable (_ ∧ _))
  | .scan _ => inferInstanceAs (Decidable (_ ∧ _))
  | .copy _ => isTrue trivial

/-- What is shared is as a query in this phase, with the response `bs`, needs it. -/
def Phase.Agrees (w : World) (bs : Bytes) : Phase → Prop
  | .written => w.file = bs
  | .scanned => w.buffer.text? = some bs
  | .answered text => text = bs
  | .undefined => False
  | _ => True

/-- Every query finds what it needs. -/
def Server.Intact (body : ℕ → Response) (s : Server) : Prop :=
  ∃ phases, s.Phased phases ∧
    ∀ (j : ℕ) (p : Phase), phases[j]? = some p → p.Agrees s.world (body j).bytes

/-- One query moves on; what is shared must still agree with the others. -/
theorem agrees_set {body : ℕ → Response} {w : World} {phases : List Phase} {i : ℕ}
    {p' : Phase} (hother : ∀ j ≠ i, ∀ p : Phase, phases[j]? = some p → p.Agrees w (body j).bytes)
    (hown : p'.Agrees w (body i).bytes) :
    ∀ (j : ℕ) (p : Phase), (phases.set i p')[j]? = some p → p.Agrees w (body j).bytes := by
  intro j p hp
  by_cases hj : j = i
  · subst hj
    have hlt : j < phases.length := by
      have := (List.getElem?_eq_some_iff.mp hp).1
      simpa using this
    rw [List.getElem?_set_self hlt] at hp
    exact Option.some.inj hp ▸ hown
  · rw [List.getElem?_set_ne (Ne.symm hj)] at hp
    exact hother j hj p hp

/-- A response without a NUL is the text in `buffer` after its scan. -/
theorem text?_scan_response (r : Response) (hno : (0 : UInt8) ∉ r.bytes) {b b' : Block 128}
    (hb : b.storeAll (scanStores r.bytes) = some b') : b'.text? = some r.bytes := by
  obtain ⟨b'', hb'', hbytes⟩ := r.storeAll b
  obtain rfl : b' = b'' := Option.some.inj (hb.symm.trans hb'')
  rw [Block.text?_eq_cut (by simp [hbytes]), hbytes, cut_append_delim, cut_eq_self.mpr hno]

/-- **An undisturbed step leaves to every query what it needs.** -/
theorem intact_queryStep {body : ℕ → Response} {s s' : Server} {e : QueryEvent}
    (hC : Undisturbed body s e) (hI : s.Intact body) (hs : s.queryStep body e = some s') :
    s'.Intact body := by
  rcases hI with ⟨phases, hph, hag⟩
  cases e with
  | dispatch =>
      rcases queryStep_dispatch hph hs with ⟨hw, hph'⟩
      refine ⟨_, hph', ?_⟩
      intro j p hp
      rw [hw]
      by_cases hj : j < phases.length
      · exact hag j p (by rwa [List.getElem?_append_left hj] at hp)
      · obtain rfl : p = .waiting := by
          rw [List.getElem?_append_right (by omega)] at hp
          have hmem := List.mem_of_getElem? hp
          simpa using hmem
        trivial
  | truncate i =>
      rcases queryStep_truncate hph hs with ⟨-, hw, hph'⟩
      refine ⟨_, hph', agrees_set ?_ trivial⟩
      intro j hj p hp
      have hold := hag j p hp
      rw [hw]
      cases p with
      | written => exact absurd ((next?_fopen hph).mpr hp) (hC j hj)
      | _ => exact hold
  | write i =>
      rcases queryStep_write hph hs with ⟨-, hw, hph'⟩
      have hfile : s'.world.file = (body i).bytes := by rw [hw, overwrite_zero hC.1]
      refine ⟨_, hph', agrees_set ?_ hfile⟩
      intro j hj p hp
      have hold := hag j p hp
      cases p with
      | written => exact hfile.trans (hC.2 j hj ((next?_fopen hph).mpr hp)).symm
      | scanned => rw [hw]; exact hold
      | _ => exact hold
  | scan i =>
      rcases queryStep_scan hph hs with ⟨hp, b, hb, hw, hph'⟩
      have hfile : s.world.file = (body i).bytes := hag i _ hp
      rw [hfile] at hb
      have htext : s'.world.buffer.text? = some (body i).bytes := by
        rw [hw]
        exact text?_scan_response (body i) hC.1 hb
      refine ⟨_, hph', agrees_set ?_ htext⟩
      intro j hj p hp
      have hold := hag j p hp
      cases p with
      | scanned => rw [Phase.Agrees, htext, hC.2 j hj ((next?_copyBuffer hph).mpr hp)]
      | written => rw [hw]; exact hold
      | _ => exact hold
  | copy i =>
      rcases queryStep_copy hph hs with ⟨hp, hw, hph'⟩
      have htext : s.world.buffer.text? = some (body i).bytes := hag i _ hp
      rw [htext] at hph'
      refine ⟨_, hph', agrees_set ?_ rfl⟩
      intro j hj p hp
      rw [hw]
      exact hag j p hp

/-- A call can act as its environment allows. -/
theorem isSome_run_act {s : Server} {i : ℕ} {op : Operation} {a : Action}
    {k : a.Answer → Code Reply} {c : Choice} {r : a.Answer} {w : World}
    (hc : s.calls[i]? = some ⟨op, .call a k⟩) (hp : perform i s.world a c = some (r, w)) :
    (s.run [.act i c]).isSome := by
  rw [Server.run, run_cons, System.step_act_of_env (S := system) hc hp]
  rfl

/-- A query that finds what it needs and has not ended can take its next step. -/
theorem progress_of_intact {body : ℕ → Response} {s : Server} (h : s.Intact body) {i : ℕ}
    {c : Call Action Action.Answer Abort Reply Operation} (hc : s.calls[i]? = some c)
    (hgoing : ¬ c.rest.Ended) :
    ∃ e : QueryEvent, e.query? = some i ∧ (s.queryStep body e).isSome := by
  rcases h with ⟨phases, hph, hag⟩
  have hcall := hc
  rw [hph, List.getElem?_map, Option.map_eq_some_iff] at hcall
  rcases hcall with ⟨p, hp, rfl⟩
  cases p with
  | waiting =>
      have hperf : perform i s.world .redirect .granted = some ((0 : ℕ), _) :=
        perform_redirect.mpr ⟨rfl, rfl, rfl⟩
      refine ⟨.truncate i, rfl, ?_⟩
      rw [Server.queryStep, if_pos ((next?_redirect hph).mpr hp)]
      exact isSome_run_act hc hperf
  | truncated =>
      have hperf : perform i s.world (.curl 0) (.fetched 0 (body i).bytes) = some ((0 : Int), _) :=
        perform_curl.mpr ⟨(body i).bytes, rfl, rfl⟩
      refine ⟨.write i, rfl, ?_⟩
      rw [Server.queryStep, if_pos ((next?_curl hph).mpr hp)]
      exact isSome_run_act hc hperf
  | written =>
      have hfile : s.world.file = (body i).bytes := hag i _ hp
      obtain ⟨b, hb, -⟩ := (body i).storeAll s.world.buffer
      exact ⟨.scan i, rfl, isSome_scan hph hp (hfile ▸ hb)⟩
  | scanned =>
      have hperf : perform i s.world .copyBuffer .granted = some (s.world.buffer, _) :=
        perform_copyBuffer.mpr ⟨rfl, rfl, rfl⟩
      refine ⟨.copy i, rfl, ?_⟩
      rw [Server.queryStep, if_pos ((next?_copyBuffer hph).mpr hp)]
      exact isSome_run_act hc hperf
  | answered text => exact absurd trivial hgoing
  | undefined => exact absurd trivial hgoing

/-- No query has run into undefined behaviour, each that has returned has returned its own
response, and each that has not can take its next step. -/
structure OwnAnswers (body : ℕ → Response) (s : Server) : Prop where
  defined : ∀ (i : ℕ) (c : Call Action Action.Answer Abort Reply Operation) (f : Abort),
    s.calls[i]? = some c → c.rest ≠ .stop f
  own : ∀ i (reply : Reply), s.result? i = some reply → reply = .text (body i).bytes
  progress : ∀ (i : ℕ) (c : Call Action Action.Answer Abort Reply Operation),
    s.calls[i]? = some c → ¬ c.rest.Ended →
      ∃ e : QueryEvent, e.query? = some i ∧ (s.queryStep body e).isSome

theorem ownAnswers_of_intact {body : ℕ → Response} {s : Server} (h : s.Intact body) :
    OwnAnswers body s := by
  refine ⟨?_, ?_, fun i c hc hgoing => progress_of_intact h hc hgoing⟩ <;>
    rcases h with ⟨phases, hph, hag⟩
  · intro i c f hc hf
    rw [hph, List.getElem?_map, Option.map_eq_some_iff] at hc
    rcases hc with ⟨p, hp, rfl⟩
    cases p <;> simp [Phase.rest, scanRest, copyRest] at hf
    exact hag i _ hp
  · intro i reply hr
    rw [Pool.result?, hph, List.getElem?_map, Option.bind_map] at hr
    rcases Option.bind_eq_some_iff.mp hr with ⟨p, hp, hv⟩
    have hrest : p.rest = .ret reply := Prog.value?_eq_some.mp hv
    cases p <;> simp [Phase.rest, scanRest, copyRest] at hrest
    rw [← hrest, show _ = (body i).bytes from hag i _ hp]

/-- **In a run of undisturbed steps every answer is the query's own response.** -/
theorem ownAnswers_of_undisturbed {openAtStart : List Bool} {file : Bytes}
    {body : ℕ → Response} {es : List QueryEvent} {s : Server}
    (hC : Always (Server.queryStep body) (Undisturbed body) (Server.boot openAtStart file) es)
    (hr : run (Server.queryStep body) (Server.boot openAtStart file) es = some s) :
    OwnAnswers body s := by
  apply ownAnswers_of_intact
  refine run_invariant (fun s e s' => intact_queryStep) ?_ hC hr
  exact ⟨[], rfl, by simp⟩

/-- `a` to the first query, `b` to the others. -/
def sampleBody (i : ℕ) : Response where
  bytes := if i = 0 then [97] else [98]
  ne_nil := by split <;> simp
  not_space := by split <;> simp [isspace]
  length_le := by split <;> simp

/-- The second query truncates the file while the first has scanned it and not copied
its answer, which does no harm. -/
theorem ownAnswers_overlapping :
    ∃ s, run (Server.queryStep sampleBody) (Server.boot [] [])
        [.dispatch, .dispatch, .truncate 0, .write 0, .scan 0, .truncate 1, .write 1, .copy 0,
          .scan 1, .copy 1] = some s ∧ OwnAnswers sampleBody s := by
  have hC : Always (Server.queryStep sampleBody) (Undisturbed sampleBody) (Server.boot [] [])
      [.dispatch, .dispatch, .truncate 0, .write 0, .scan 0, .truncate 1, .write 1, .copy 0,
        .scan 1, .copy 1] := by decide +kernel
  have hsome : (run (Server.queryStep sampleBody) (Server.boot [] [])
      [.dispatch, .dispatch, .truncate 0, .write 0, .scan 0, .truncate 1, .write 1, .copy 0,
        .scan 1, .copy 1]).isSome := by decide +kernel
  obtain ⟨s, hs⟩ := Option.isSome_iff_exists.mp hsome
  exact ⟨s, hs, ownAnswers_of_undisturbed hC hs⟩

/-- The second query writes between the first one's write and scan: the first returns
the `b` of the second. -/
theorem not_forall_ownAnswers :
    ¬ ∀ (openAtStart : List Bool) (file : Bytes) (body : ℕ → Response) (es : List QueryEvent)
      (s : Server), run (Server.queryStep body) (Server.boot openAtStart file) es = some s →
        OwnAnswers body s := by
  intro hall
  have hbad : ((run (Server.queryStep sampleBody) (Server.boot [] [])
      [.dispatch, .dispatch, .truncate 0, .write 0, .truncate 1, .write 1, .scan 0,
        .copy 0]).bind fun s => s.result? 0) = some (.text [98]) := by decide +kernel
  obtain ⟨s, hs, hresult⟩ := Option.bind_eq_some_iff.mp hbad
  have hown := (hall [] [] sampleBody _ s hs).own 0 _ hresult
  simp [sampleBody] at hown

end IceSerialPort
