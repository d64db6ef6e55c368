import IceSerialPort.Lib.Linearize
import IceSerialPort.Server

/-!
# Calls that look atomic

However the calls of `readSerialPort` and `writeSerialPort` interleave, clients cannot
tell the server from one that serves each of them in a single step: the step is its
`read` or `write`, where the bytes move and the reply is settled. Nothing the calls of
`readInfoFromDevice` do in between matters.

Those calls share the file `/tmp/device-info` and the array `buffer`, and are atomic
only among themselves one at a time. When no query is dispatched before the last one
has ended, the server as a whole refines one whose three operations are single steps:
a query scans its own response into `buffer` and answers what `buffer` then holds.

## Main definitions

* `Link`, `link`: the serial line, and its operations in one step.
* `Shared`, `atomicServer`: the line and `buffer`, and all three operations.
* `Stage`, `stages`: where a call stands before and after it has settled.

## Main results

* `serial_linearizable`: the serial operations, in every run.
* `server_linearizable`: all operations, when queries do not overlap.
-/

namespace IceSerialPort

open Effects CString Framing Transition

/-! ## The operations in one step -/

/-- The serial line in both directions. -/
structure Link where
  line : Bytes
  stream : Bytes
  deriving DecidableEq

/-- What is decided about an operation served in one step. -/
inductive Decision where
  /-- This many bytes move. -/
  | moves (n : ℕ)
  /-- No byte moves, or the file cannot be opened. -/
  | refused
  /-- The file is opened. -/
  | granted
  deriving DecidableEq

/-- A read of `n` bytes answers their text, without any it answers `No data`; a write
of `n` bytes of the message and its NUL is acknowledged, and so is one of none. -/
def Link.serve (l : Link) : Operation → Decision → Option (Outcome Abort Reply × Link)
  | .readSerialPort, .moves n =>
      if 1 ≤ n ∧ n ≤ 2048 ∧ n ≤ l.line.length then
        some ((received (l.line.take n)).map .text, { l with line := l.line.drop n })
      else none
  | .readSerialPort, .refused => some (.returned (.text noData), l)
  | .writeSerialPort message, .moves n =>
      if 1 ≤ n ∧ n ≤ message.length + 1 then
        some (.returned .ack, { l with stream := l.stream ++ (c_str message).take n })
      else none
  | .writeSerialPort _, .refused => some (.returned .ack, l)
  | _, _ => none

/-- The serial operations; the peer's bytes arrive from outside. -/
def link : Atomic Link Operation Decision (Outcome Abort Reply) Bytes where
  serve _ := Link.serve
  outside l bs := some { l with line := l.line ++ bs }

/-- The line, and the array that the queries share. -/
structure Shared where
  link : Link
  buffer : Block 128
  deriving DecidableEq

/-- A query with response `body`: what `fscanf` leaves in `buffer` is answered, up to
its first NUL. -/
def Shared.query (s : Shared) (body : Bytes) : Outcome Abort Reply × Shared :=
  match s.buffer.storeAll (scanStores body) with
  | some b => ((textOutcome b.text?).map .text, { s with buffer := b })
  | none => (.aborted (.undefined .bufferOverrun), s)

/-- All operations; `body i` is the response to call `i`. -/
def atomicServer (body : ℕ → Bytes) :
    Atomic Shared Operation Decision (Outcome Abort Reply) Bytes where
  serve i s
    | .readInfoFromDevice, .granted => some (s.query (body i))
    | .readInfoFromDevice, .refused => some (.aborted (.undefined .nullStream), s)
    | op, d => (s.link.serve op d).map fun r => (r.1, { s with link := r.2 })
  outside s bs := some { s with link := { s.link with line := s.link.line ++ bs } }

/-! ## Where a call stands -/

/-- What a call has done, up to where it settles and beyond. -/
inductive Stage where
  /-- `readSerialPort` before its `read`. -/
  | reading
  /-- `writeSerialPort` before its `write`. -/
  | writing (message : Bytes)
  /-- One of the two, afterwards. -/
  | settled (o : Outcome Abort Reply)
  /-- A query before its shell runs. -/
  | asked
  | truncated (offset : ℕ)
  /-- The response is in the file. -/
  | fetched
  | opened (ptr : Option ℕ)
  /-- The response is in `buffer`. -/
  | scanned (ptr : Option ℕ)
  | closed
  | answered (o : Outcome Abort Reply)
  deriving DecidableEq

/-- A query that has not ended. -/
def Stage.Open : Stage → Prop
  | .asked => True
  | .truncated _ => True
  | .fetched => True
  | .opened _ => True
  | .scanned _ => True
  | .closed => True
  | _ => False

/-- The answer that a `read` leads to. -/
def readOutcome {count : ℕ} (got : ReadAnswer count) : Outcome Abort Reply :=
  if 0 < got.n then (received got.bytes).map .text else .returned (.text noData)

/-- What a call may do at each stage. -/
def Stage.can : Stage → Action → Prop
  | .reading, .openPort mode => mode = .rdonly
  | .reading, .printf _ => True
  | .reading, .read _ count => count = 2048
  | .writing _, .openPort mode => mode = .wronly
  | .writing _, .printf _ => True
  | .writing message, .write _ p len => p = c_str message ∧ len = message.length + 1
  | .settled _, .printf _ => True
  | .settled _, .close _ => True
  | .asked, .redirect => True
  | .truncated offset, .curl o => o = offset
  | .fetched, .fopen => True
  | .opened ptr, .fscanf p => p = ptr
  | .scanned ptr, .fclose p => p = ptr
  | .closed, .copyBuffer => True
  | _, _ => False

/-- Where an answered action leads. -/
def Stage.next : Stage → (a : Action) → a.Answer → Stage
  | .reading, .read _ _, got => .settled (readOutcome got)
  | .writing _, .write _ _ _, _ => .settled (.returned .ack)
  | .asked, .redirect, offset => .truncated offset
  | .truncated _, .curl _, _ => .fetched
  | .fetched, .fopen, ptr => .opened ptr
  | .opened ptr, .fscanf _, .ok _ => .scanned ptr
  | .opened _, .fscanf _, .error f => .answered (.aborted (.undefined f))
  | .scanned _, .fclose _, .ok _ => .closed
  | .scanned _, .fclose _, .error f => .answered (.aborted (.undefined f))
  | .closed, .copyBuffer, b => .answered ((textOutcome b.text?).map .text)
  | g, _, _ => g

/-- The stages of every operation. A call ends as it has settled. -/
def stages : Typestate Action Action.Answer Abort Reply Operation Stage where
  start
    | .readSerialPort => .reading
    | .writeSerialPort message => .writing message
    | .readInfoFromDevice => .asked
  can := Stage.can
  next := Stage.next
  final g v := g = .settled (.returned v) ∨ g = .answered (.returned v)
  abort g e := g = .settled (.aborted e) ∨ g = .answered (.aborted e)

section Obeys

/-- What a text ends with, after the text has been settled. -/
theorem obeys_settled_string {n : ℕ} {buf : Block n} {g : Stage}
    (h : g = .settled ((textOutcome buf.text?).map .text) ∨
      g = .answered ((textOutcome buf.text?).map .text)) :
    stages.Obeys g (string buf >>= fun s => .ret (Reply.text s)) := by
  refine obeys_string_bind ?_ ?_
  · intro s hs
    rw [hs] at h
    exact h
  · intro hnone
    rw [hnone] at h
    exact h

theorem obeys_readAnswer (fd : Int) (got : ReadAnswer 2048) :
    stages.Obeys (.settled (readOutcome got))
      (readAnswer fd got >>= fun s => .ret (Reply.text s)) := by
  rw [readAnswer, Prog.call_bind]
  refine ⟨trivial, fun _ => ?_⟩
  show stages.Obeys (.settled (readOutcome got)) _
  by_cases hpos : got.n > 0
  · rw [if_pos hpos, readOutcome, if_pos hpos, ← textOutcome_fill got.length_le]
    exact obeys_settled_string (Or.inl rfl)
  · rw [if_neg hpos, readOutcome, if_neg hpos]
    exact Or.inl rfl

/-- The programs keep to their stages. -/
theorem stages_obeys (op : Operation) : stages.Obeys (stages.start op) op.program := by
  cases op with
  | readSerialPort =>
      rw [Operation.program, map_eq_pure_bind, readSerialPort_eq, bind_assoc]
      refine obeys_openSerialPort_bind rfl ?_ ?_
      · intro fd errno _
        exact ⟨rfl, fun got => obeys_readAnswer fd got⟩
      · intro fd errno _
        exact ⟨trivial, fun _ => ⟨rfl, fun got => obeys_readAnswer fd got⟩⟩
  | writeSerialPort message =>
      have hrest : ∀ fd, stages.Obeys (.writing message)
          (writeRest message fd >>= fun _ => .ret Reply.ack) := fun fd =>
        ⟨⟨rfl, rfl⟩, fun _ => ⟨trivial, fun _ => ⟨trivial, fun _ => Or.inl rfl⟩⟩⟩
      rw [Operation.program, map_eq_pure_bind, writeSerialPort_eq, bind_assoc]
      refine obeys_openSerialPort_bind rfl ?_ ?_
      · intro fd errno _
        exact hrest fd
      · intro fd errno _
        exact ⟨trivial, fun _ => hrest fd⟩
  | readInfoFromDevice =>
      rw [Operation.program, map_eq_pure_bind, readInfoFromDevice_eq]
      simp only [Prog.call_bind, bind_assoc]
      refine ⟨trivial, fun offset => ⟨rfl, fun _ => ⟨trivial, fun ptr => ⟨rfl, fun r => ?_⟩⟩⟩⟩
      refine Sys.obeys_checked_bind ?_ ?_
      · intro n hn
        subst hn
        refine ⟨rfl, fun r => Sys.obeys_checked_bind ?_ ?_⟩
        · intro u hu
          subst hu
          exact ⟨trivial, fun b => obeys_settled_string (Or.inr rfl)⟩
        · intro f hf
          subst hf
          exact Or.inr rfl
      · intro f hf
        subst hf
        exact Or.inr rfl

end Obeys

/-! ## What each stage means -/

/-- The stages of each operation. -/
def Stage.Of : Operation → Stage → Prop
  | .readSerialPort, .reading => True
  | .readSerialPort, .settled _ => True
  | .writeSerialPort message, .writing m => m = message
  | .writeSerialPort _, .settled _ => True
  | .readInfoFromDevice, .answered _ => True
  | .readInfoFromDevice, g => g.Open
  | _, _ => False

theorem Stage.Of.next {op : Operation} {g : Stage} (h : Stage.Of op g) (a : Action)
    (r : a.Answer) : Stage.Of op (g.next a r) := by
  cases op <;> cases g <;> first | exact False.elim h | skip
  all_goals cases a <;> first
    | exact h
    | exact True.intro
    | (cases r <;> exact True.intro)

/-- A call is at a stage of its operation. -/
theorem stage_of {s : Server} {i : ℕ} {c : Call Action Action.Answer Abort Reply Operation}
    {g : Stage} (hc : s.calls[i]? = some c) (hg : stages.stateAt s i = some g) :
    Stage.Of c.job g := by
  refine Typestate.stateAt_induction (P := Stage.Of) ?_ (fun op g a r h => h.next a r) hc hg
  intro op
  cases op <;> first | exact True.intro | exact rfl

theorem Stage.Of.not_open {op : Operation} {g : Stage} (h : Stage.Of op g)
    (hop : op ≠ .readInfoFromDevice) : ¬ g.Open := by
  cases op with
  | readInfoFromDevice => exact absurd rfl hop
  | readSerialPort => cases g <;> first | exact False.elim h | exact id
  | writeSerialPort message => cases g <;> first | exact False.elim h | exact id

/-! ## What each stage does -/

section Acts

variable {i : ℕ} {w w' : World} {c : Choice} {g : Stage} {a : Action} {r : a.Answer}

/-- The serial line of a world. -/
def World.link (w : World) : Link := ⟨w.line, w.stream⟩

/-- What the operations share in a world. -/
def World.shared (w : World) : Shared := ⟨w.link, w.buffer⟩

theorem link_eq_of_sameBut {part : Part} (h : World.SameBut part w w') (hline : part ≠ .line)
    (hstream : part ≠ .stream) : w'.link = w.link := by
  rw [World.link, h.line hline, h.stream hstream, World.link]

/-- A serial call leaves the queries' file and array alone. It settles, as the link does
in one step, or it has not touched the line and stands where it stood. -/
theorem serial_act {op : Operation} (hof : Stage.Of op g) (hop : op ≠ .readInfoFromDevice)
    (hcan : g.can a) (h : perform i w a c = some (r, w')) :
    w'.file = w.file ∧ w'.buffer = w.buffer ∧
      ((∃ d o, (∀ o', g ≠ .settled o') ∧ w.link.serve op d = some (o, w'.link) ∧
          g.next a r = .settled o) ∨
        (w'.link = w.link ∧ g.next a r = g)) := by
  have hsame := perform_sameBut h
  cases op with
  | readInfoFromDevice => exact absurd rfl hop
  | readSerialPort =>
      cases g <;> first | exact hof.elim | skip
      case reading =>
        cases a <;> first | exact hcan.elim | skip
        case openPort mode =>
          exact ⟨hsame.file (by rintro ⟨⟩), hsame.buffer (by rintro ⟨⟩),
            Or.inr ⟨link_eq_of_sameBut hsame (by rintro ⟨⟩) (by rintro ⟨⟩), rfl⟩⟩
        case printf line =>
          exact ⟨hsame.file (by rintro ⟨⟩), hsame.buffer (by rintro ⟨⟩),
            Or.inr ⟨link_eq_of_sameBut hsame (by rintro ⟨⟩) (by rintro ⟨⟩), rfl⟩⟩
        case read fd count =>
          obtain rfl : count = 2048 := hcan
          refine ⟨hsame.file (by rintro ⟨⟩), hsame.buffer (by rintro ⟨⟩), Or.inl ?_⟩
          show ∃ d o, _ ∧ _ ∧ Stage.settled (readOutcome r) = _
          rcases perform_read.mp h with ⟨n, -, -, h1, h2, h3, hn, hbytes, rfl⟩ |
            ⟨-, -, hn, -, rfl⟩ | ⟨errno, -, hn, -, rfl⟩
          · refine ⟨.moves n, _, (by simp), ?_, rfl⟩
            have hpos : 0 < n := h1
            simp [Link.serve, h1, h2, h3, readOutcome, hn, hpos, hbytes, World.link]
          · exact ⟨.refused, _, (by simp), by simp [Link.serve, readOutcome, hn], rfl⟩
          · exact ⟨.refused, _, (by simp), by simp [Link.serve, readOutcome, hn], rfl⟩
      case settled o =>
        cases a <;> first | exact hcan.elim | skip
        all_goals exact ⟨hsame.file (by rintro ⟨⟩), hsame.buffer (by rintro ⟨⟩),
          Or.inr ⟨link_eq_of_sameBut hsame (by rintro ⟨⟩) (by rintro ⟨⟩), rfl⟩⟩
  | writeSerialPort message =>
      cases g <;> first | exact hof.elim | skip
      case writing m =>
        obtain rfl : m = message := hof
        cases a <;> first | exact hcan.elim | skip
        case openPort mode =>
          exact ⟨hsame.file (by rintro ⟨⟩), hsame.buffer (by rintro ⟨⟩),
            Or.inr ⟨link_eq_of_sameBut hsame (by rintro ⟨⟩) (by rintro ⟨⟩), rfl⟩⟩
        case printf line =>
          exact ⟨hsame.file (by rintro ⟨⟩), hsame.buffer (by rintro ⟨⟩),
            Or.inr ⟨link_eq_of_sameBut hsame (by rintro ⟨⟩) (by rintro ⟨⟩), rfl⟩⟩
        case write fd p len =>
          obtain ⟨rfl, rfl⟩ : p = c_str m ∧ len = m.length + 1 := hcan
          refine ⟨hsame.file (by rintro ⟨⟩), hsame.buffer (by rintro ⟨⟩), Or.inl ?_⟩
          rcases perform_write.mp h with ⟨n, -, -, h1, h2, -, rfl⟩ | ⟨errno, -, -, rfl⟩
          · exact ⟨.moves n, .returned .ack, (by simp), by simp [Link.serve, h1, h2, World.link], rfl⟩
          · exact ⟨.refused, .returned .ack, (by simp), rfl, rfl⟩
      case settled o =>
        cases a <;> first | exact hcan.elim | skip
        all_goals exact ⟨hsame.file (by rintro ⟨⟩), hsame.buffer (by rintro ⟨⟩),
          Or.inr ⟨link_eq_of_sameBut hsame (by rintro ⟨⟩) (by rintro ⟨⟩), rfl⟩⟩

/-- A query leaves the line alone, and goes on until it answers. -/
theorem query_act (hof : Stage.Of .readInfoFromDevice g) (hcan : g.can a)
    (h : perform i w a c = some (r, w')) :
    w'.link = w.link ∧ g.Open ∧ ((g.next a r).Open ∨ ∃ o, g.next a r = .answered o) := by
  have hsame := perform_sameBut h
  cases g <;> first | exact hof.elim | skip
  all_goals cases a <;> first | exact hcan.elim | skip
  all_goals refine ⟨link_eq_of_sameBut hsame (by rintro ⟨⟩) (by rintro ⟨⟩), trivial, ?_⟩
  all_goals first
    | exact Or.inl trivial
    | exact Or.inr ⟨_, rfl⟩
    | skip
  all_goals cases r
  all_goals first | exact Or.inl trivial | exact Or.inr ⟨_, rfl⟩

end Acts

/-! ## The serial operations in every run -/

/-- What the serial calls share, and the outcomes they have settled on. -/
def serialCommitment : Commitment Action Action.Answer Abort Reply Operation World Link Stage where
  typestate := stages
  view := World.link
  promise _
    | .settled o => some o
    | _ => none
  visible op := op ≠ .readInfoFromDevice

theorem serial_linearizes :
    serialCommitment.Linearizes system link (fun _ _ => True) fun _ => True where
  obeys := stages_obeys
  start w op := by cases op <;> rfl
  outside := by
    intro s bs w _ _ hw
    rw [system_outside, Option.some.injEq] at hw
    subst hw
    exact ⟨rfl, fun g => rfl, trivial⟩
  spawn _ _ _ _ _ := trivial
  act := by
    intro s i c op a k r w g hT _ _ hc hg hcan hr
    refine ⟨?_, fun m g' _ _ => rfl, trivial⟩
    have hof := stage_of hc hg
    by_cases hop : op = .readInfoFromDevice
    · subst hop
      obtain ⟨hlink, hopen, hnext⟩ := query_act hof hcan hr
      refine .silent hlink ?_
      have hnone : ∀ {g' : Stage}, g'.Open ∨ (∃ o, g' = .answered o) →
          serialCommitment.promise w g' = none := by
        rintro g' (h | ⟨o, rfl⟩)
        · cases g' <;> first | exact h.elim | rfl
        · rfl
      exact (hnone hnext).trans (hnone (Or.inl hopen)).symm
    · obtain ⟨-, -, ⟨d, o, hfresh, hserve, hnext⟩ | ⟨hlink, hnext⟩⟩ := serial_act hof hop hcan hr
      · refine .settles d o ?_ hserve ?_
        · cases g <;> first | exact absurd rfl (hfresh _) | rfl
        · show serialCommitment.promise w (g.next a r) = some o
          rw [hnext]
          rfl
      · refine .silent hlink ?_
        show serialCommitment.promise w (g.next a r) = _
        rw [hnext]
        rfl
  ends := by
    intro s i c g hT _ hc hg hvis
    have hof := stage_of hc hg
    have hsettled : ∀ o, g ≠ .answered o := by
      rintro o rfl
      revert hof hvis
      cases c.job <;> simp [Stage.Of, serialCommitment]
    constructor
    · intro v hv
      rcases hT.final_of_ret hc hg hv with rfl | rfl
      · rfl
      · exact absurd rfl (hsettled _)
    · intro e he
      rcases hT.abort_of_stop hc hg he with rfl | rfl
      · rfl
      · exact absurd rfl (hsettled _)

/-- **The serial operations are linearizable.** Every run of the server is followed by
a run of the link that serves each call in one step: the same bytes arrive, the line is
the same at every moment, and what a call answers is what its step answered. -/
theorem serial_linearizable {openAtStart : List Bool} {file : Bytes} {es : List ServerEvent}
    {s : Server} (h : (Server.boot openAtStart file).run es = some s) :
    ∃ log, Follows system.machine link.machine (Explains World.link (· ≠ .readInfoFromDevice))
      (Server.boot openAtStart file) ⟨⟨[], []⟩, []⟩ es log :=
  serial_linearizes.follows trivial always_true h

/-- A read and a write whose calls alternate. -/
def alternating : List ServerEvent :=
  [.spawn .readSerialPort, .spawn (.writeSerialPort [104, 105]), .act 1 .granted, .act 0 .granted,
    .outside [111, 107, 0], .act 1 (.moved 3), .act 0 (.moved 3), .act 1 .granted, .act 0 .granted]

theorem serial_linearizable_alternating :
    ∃ s, (Server.boot [true, true, true] []).run alternating = some s ∧
      s.result? 0 = some (.text [111, 107]) ∧
      ∃ log, Follows system.machine link.machine (Explains World.link (· ≠ .readInfoFromDevice))
        (Server.boot [true, true, true] []) ⟨⟨[], []⟩, []⟩ alternating log := by
  have hrun : ∃ s ∈ (Server.boot [true, true, true] []).run alternating,
      s.result? 0 = some (.text [111, 107]) := by decide +kernel
  obtain ⟨s, hs, hresult⟩ := hrun
  exact ⟨s, hs, hresult, serial_linearizable hs⟩

/-! ## All operations, when queries do not overlap -/

/-- A query is dispatched only when every query before it has ended. -/
def OneQueryAtATime (s : Server) : ServerEvent → Prop
  | .spawn .readInfoFromDevice => ∀ c ∈ s.calls, c.job = .readInfoFromDevice → c.rest.Ended
  | _ => True

instance (s : Server) : (e : ServerEvent) → Decidable (OneQueryAtATime s e)
  | .spawn .readInfoFromDevice =>
      inferInstanceAs (Decidable (∀ c ∈ s.calls, c.job = .readInfoFromDevice → c.rest.Ended))
  | .spawn .readSerialPort => isTrue trivial
  | .spawn (.writeSerialPort _) => isTrue trivial
  | .outside _ => isTrue trivial
  | .act _ _ => isTrue trivial

/-- What call `i` fetches is `body i`. -/
def FetchesFrom (body : ℕ → Bytes) : ServerEvent → Prop
  | .act i (.fetched _ bs) => bs = body i
  | _ => True

instance (body : ℕ → Bytes) : (e : ServerEvent) → Decidable (FetchesFrom body e)
  | .act i (.fetched _ bs) => inferInstanceAs (Decidable (bs = body i))
  | .act _ .granted => isTrue trivial
  | .act _ (.moved _) => isTrue trivial
  | .act _ .eof => isTrue trivial
  | .act _ (.failed _) => isTrue trivial
  | .spawn _ => isTrue trivial
  | .outside _ => isTrue trivial

/-- What is shared, and the outcomes that calls have settled on: from its scan on, a
query answers what `buffer` holds. -/
def commitment : Commitment Action Action.Answer Abort Reply Operation World Shared Stage where
  typestate := stages
  view := World.shared
  promise w
    | .settled o => some o
    | .answered o => some o
    | .scanned _ => some ((textOutcome w.buffer.text?).map .text)
    | .closed => some ((textOutcome w.buffer.text?).map .text)
    | _ => none
  visible _ := True

/-- What the file is at each stage of a query whose response is `bs`. -/
def Stage.Holds (bs : Bytes) (w : World) : Stage → Prop
  | .truncated offset => offset = 0 ∧ w.file = []
  | .fetched => w.file = bs
  | .opened _ => w.file = bs
  | .scanned ptr => ptr ≠ none
  | _ => True

/-- At most one query has not ended, and it finds in the file what it has put there. -/
structure Server.Exclusive (body : ℕ → Bytes) (s : Server) : Prop where
  unique : ∀ i j g g', stages.stateAt s i = some g → stages.stateAt s j = some g' →
    g.Open → g'.Open → i = j
  holds : ∀ i g, stages.stateAt s i = some g → g.Holds (body i) s.world

theorem holds_of_not_open {bs : Bytes} {w : World} {g : Stage} (h : ¬ g.Open) : g.Holds bs w := by
  cases g <;> first | exact absurd trivial h | trivial

theorem holds_congr {bs : Bytes} {w w' : World} (hfile : w'.file = w.file) {g : Stage}
    (h : g.Holds bs w) : g.Holds bs w' := by
  cases g <;> first | exact hfile.trans h | exact ⟨h.1, hfile.trans h.2⟩ | exact h

theorem promise_of_not_open {w w' : World} {g : Stage} (h : ¬ g.Open) :
    commitment.promise w' g = commitment.promise w g := by
  cases g <;> first | exact absurd trivial h | rfl

theorem promise_congr {w w' : World} (hbuffer : w'.buffer = w.buffer) (g : Stage) :
    commitment.promise w' g = commitment.promise w g := by
  simp only [commitment, hbuffer]

/-- **A step of a query** whose response is `body i`. -/
theorem query_moves {body : ℕ → Bytes} {i : ℕ} {w w' : World} {c : Choice} {g : Stage}
    {a : Action} {r : a.Answer} (hof : Stage.Of .readInfoFromDevice g) (hcan : g.can a)
    (hbody : FetchesFrom body (.act i c)) (hholds : g.Holds (body i) w)
    (h : perform i w a c = some (r, w')) :
    commitment.Moves (atomicServer body) i .readInfoFromDevice w w' g (g.next a r) ∧
      (g.next a r).Holds (body i) w' := by
  have hlink := (query_act hof hcan h).1
  have hsame := perform_sameBut h
  have hview : w'.buffer = w.buffer → commitment.view w' = commitment.view w := by
    intro hb
    simp only [commitment, World.shared, hlink, hb]
  cases g <;> first | exact hof.elim | skip
  all_goals cases a <;> first | exact hcan.elim | skip
  case asked.redirect =>
    obtain ⟨-, rfl, rfl⟩ := perform_redirect.mp h
    exact ⟨.silent (hview rfl) rfl, rfl, rfl⟩
  case truncated.curl offset o =>
    obtain rfl : o = offset := hcan
    obtain ⟨rfl, hfile⟩ : o = 0 ∧ w.file = [] := hholds
    obtain ⟨bs, rfl, rfl⟩ := perform_curl.mp h
    obtain rfl : bs = body i := hbody
    refine ⟨.silent (hview rfl) rfl, ?_⟩
    show overwrite w.file 0 (body i) = body i
    rw [hfile, overwrite_nil]
  case fetched.fopen =>
    exact ⟨.silent (hview (hsame.buffer (by rintro ⟨⟩))) rfl, (hsame.file (by rintro ⟨⟩)).trans hholds⟩
  case opened.fscanf ptr p =>
    obtain rfl : p = ptr := hcan
    have hfile : w.file = body i := hholds
    rcases (perform_fscanf.mp h).2 with ⟨-, rfl, rfl⟩ | ⟨q, b, rfl, -, hb, rfl, rfl⟩ |
      ⟨q, rfl, -, hb, rfl, rfl⟩
    · exact ⟨.settles .refused _ rfl rfl rfl, trivial⟩
    · refine ⟨.settles .granted _ rfl ?_ rfl, (by rintro ⟨⟩)⟩
      simp [atomicServer, Shared.query, commitment, World.shared, ← hfile, hb, World.link]
    · refine ⟨.settles .granted _ rfl ?_ rfl, trivial⟩
      simp [atomicServer, Shared.query, commitment, World.shared, ← hfile, hb]
  case scanned.fclose ptr p =>
    obtain rfl : p = ptr := hcan
    rcases (perform_fclose.mp h).2 with ⟨hnone, -⟩ | ⟨q, -, -, rfl, rfl⟩
    · exact absurd hnone hholds
    · exact ⟨.silent (hview rfl) rfl, trivial⟩
  case closed.copyBuffer =>
    obtain ⟨-, rfl, rfl⟩ := perform_copyBuffer.mp h
    exact ⟨.silent rfl rfl, trivial⟩

/-- The atomic server serves a serial operation as the link does. -/
theorem serve_serial {body : ℕ → Bytes} {i : ℕ} {op : Operation} {x : Shared} {d : Decision}
    {r : Outcome Abort Reply × Shared} (hop : op ≠ .readInfoFromDevice)
    (h : (x.link.serve op d).map (fun r => (r.1, { x with link := r.2 })) = some r) :
    (atomicServer body).serve i x op d = some r := by
  cases op with
  | readInfoFromDevice => exact absurd rfl hop
  | readSerialPort => exact h
  | writeSerialPort message => exact h

/-- A serial call that has not settled has promised nothing. -/
theorem fresh_serial {op : Operation} {w : World} {g : Stage} (hof : Stage.Of op g)
    (hop : op ≠ .readInfoFromDevice) (hfresh : ∀ o, g ≠ .settled o) :
    commitment.promise w g = none := by
  have hopen := hof.not_open hop
  cases g <;> first | rfl | exact absurd rfl (hfresh _) | exact absurd trivial hopen | skip
  cases op <;> first | exact absurd rfl hop | exact hof.elim

/-- A query that has ended is not open. -/
theorem not_open_of_ended {s : Server} (hT : stages.Typed s) {i : ℕ}
    {c : Call Action Action.Answer Abort Reply Operation} {g : Stage} (hc : s.calls[i]? = some c)
    (hg : stages.stateAt s i = some g) (h : c.rest.Ended) : ¬ g.Open := by
  rcases Prog.ended_iff.mp h with hret | ⟨e, he⟩
  · obtain ⟨v, hv⟩ := Prog.returned_iff.mp hret
    rcases hT.final_of_ret hc hg hv with rfl | rfl <;> exact id
  · rcases hT.abort_of_stop hc hg he with rfl | rfl <;> exact id

/-- A new query is the only open one. -/
theorem exclusive_spawn {body : ℕ → Bytes} {s : Server} {op : Operation}
    (hT : stages.Typed s) (h : s.Exclusive body) (hC : OneQueryAtATime s (.spawn op)) :
    Server.Exclusive body { s with calls := s.calls ++ [⟨op, op.program⟩] } := by
  have hstart : (stages.start op).Open → op = .readInfoFromDevice := by
    cases op <;> first | exact False.elim | exact fun _ => rfl
  have hclosed : op = .readInfoFromDevice →
      ∀ j g, stages.stateAt s j = some g → ¬ g.Open := by
    rintro rfl j g hg hopen
    obtain ⟨c, hc, -⟩ := Option.map_eq_some_iff.mp hg
    refine not_open_of_ended hT hc hg (hC c (List.mem_of_getElem? hc) ?_) hopen
    by_contra hjob
    exact (stage_of hc hg).not_open hjob hopen
  have hat := Typestate.stateAt_spawn hT op op.program
  constructor
  · intro i j g g' hg hg' hopen hopen'
    rw [hat, Function.update_apply] at hg hg'
    by_cases hi : i = s.calls.length <;> by_cases hj : j = s.calls.length
    · rw [hi, hj]
    · rw [if_pos hi, Option.some.injEq] at hg
      rw [if_neg hj] at hg'
      rw [← hg] at hopen
      exact absurd hopen' (hclosed (hstart hopen) j g' hg')
    · rw [if_neg hi] at hg
      rw [if_pos hj, Option.some.injEq] at hg'
      rw [← hg'] at hopen'
      exact absurd hopen (hclosed (hstart hopen') i g hg)
    · rw [if_neg hi] at hg
      rw [if_neg hj] at hg'
      exact h.unique i j g g' hg hg' hopen hopen'
  · intro i g hg
    rw [hat, Function.update_apply] at hg
    split at hg
    · rw [← Option.some.inj hg]
      cases op <;> exact trivial
    · exact h.holds i g hg

/-- An action keeps the only open query the only one. -/
theorem exclusive_act {body : ℕ → Bytes} {s : Server} {i : ℕ} {op : Operation} {a : Action}
    {k : a.Answer → Code Reply} {r : a.Answer} {w : World} {g : Stage} (h : s.Exclusive body)
    (hc : s.calls[i]? = some ⟨op, .call a k⟩) (hg : stages.stateAt s i = some g)
    (hopen : (g.next a r).Open → g.Open) (hown : (g.next a r).Holds (body i) w)
    (hothers : ∀ m g', m ≠ i → stages.stateAt s m = some g' → g'.Holds (body m) w) :
    Server.Exclusive body ⟨w, s.calls.set i ⟨op, k r⟩, s.history ++ [(i, ⟨a, r⟩)]⟩ := by
  have hat := Typestate.stateAt_act (T := stages) hc hg r w
  have hback : ∀ m g', stages.stateAt ⟨w, s.calls.set i ⟨op, k r⟩, s.history ++ [(i, ⟨a, r⟩)]⟩ m =
      some g' → g'.Open → ∃ g'', stages.stateAt s m = some g'' ∧ g''.Open := by
    intro m g' hg' ho
    rw [hat, Function.update_apply] at hg'
    split at hg'
    · next hm =>
        rw [← Option.some.inj hg'] at ho
        exact ⟨g, hm ▸ hg, hopen ho⟩
    · exact ⟨g', hg', ho⟩
  constructor
  · intro m n g₁ g₂ hm hn ho₁ ho₂
    obtain ⟨g₁', hg₁', ho₁'⟩ := hback m g₁ hm ho₁
    obtain ⟨g₂', hg₂', ho₂'⟩ := hback n g₂ hn ho₂
    exact h.unique m n g₁' g₂' hg₁' hg₂' ho₁' ho₂'
  · intro m g' hg'
    rw [hat, Function.update_apply] at hg'
    split at hg'
    · next hm =>
        rw [← Option.some.inj hg', hm]
        exact hown
    · next hm => exact hothers m g' hm hg'

theorem server_linearizes (body : ℕ → Bytes) :
    commitment.Linearizes system (atomicServer body)
      (fun s e => OneQueryAtATime s e ∧ FetchesFrom body e) (Server.Exclusive body) where
  obeys := stages_obeys
  start w op := by cases op <;> rfl
  outside := by
    intro s bs w _ hI hw
    rw [system_outside, Option.some.injEq] at hw
    subst hw
    exact ⟨rfl, promise_congr rfl, hI.unique, fun i g hg => holds_congr rfl (hI.holds i g hg)⟩
  spawn s op hT hI hC := exclusive_spawn hT hI hC.1
  act := by
    intro s i c op a k r w g hT hI hC hc hg hcan hr
    have hof := stage_of hc hg
    have hsame := perform_sameBut hr
    by_cases hop : op = .readInfoFromDevice
    · subst hop
      obtain ⟨-, hopen, -⟩ := query_act hof hcan hr
      -- The others are not open, so that nothing of theirs depends on what changes.
      have hclosed : ∀ m g', m ≠ i → stages.stateAt s m = some g' → ¬ g'.Open :=
        fun m g' hm hg' ho => hm (hI.unique m i g' g hg' hg ho hopen)
      obtain ⟨hmoves, hholds⟩ := query_moves hof hcan hC.2 (hI.holds i g hg) hr
      exact ⟨hmoves, fun m g' hm hg' => promise_of_not_open (hclosed m g' hm hg'),
        exclusive_act hI hc hg (fun _ => hopen) hholds
          fun m g' hm hg' => holds_of_not_open (hclosed m g' hm hg')⟩
    · obtain ⟨hfile, hbuffer, hmove⟩ := serial_act hof hop hcan hr
      have hclosed : ¬ (g.next a r).Open := (hof.next a r).not_open hop
      refine ⟨?_, fun m g' _ _ => promise_congr hbuffer g', exclusive_act hI hc hg
        (fun ho => absurd ho hclosed) (holds_of_not_open hclosed)
        fun m g' _ hg' => holds_congr hfile (hI.holds m g' hg')⟩
      rcases hmove with ⟨d, o, hfresh, hserve, hnext⟩ | ⟨hlink, hnext⟩
      · refine .settles d o ?_ (serve_serial hop ?_) ?_
        · exact fresh_serial hof hop hfresh
        · show (s.world.link.serve op d).map (fun r => (r.1, (⟨r.2, s.world.buffer⟩ : Shared))) =
            some (o, ⟨w.link, w.buffer⟩)
          rw [hserve, hbuffer]
          rfl
        · show commitment.promise w (g.next a r) = some o
          rw [hnext]
          rfl
      · refine .silent ?_ ?_
        · simp only [commitment, World.shared, hlink, hbuffer]
        · show commitment.promise w (g.next a r) = _
          rw [hnext]
          exact promise_congr hbuffer g
  ends := by
    intro s i c g hT _ hc hg _
    constructor
    · intro v hv
      rcases hT.final_of_ret hc hg hv with rfl | rfl <;> rfl
    · intro e he
      rcases hT.abort_of_stop hc hg he with rfl | rfl <;> rfl

theorem exclusive_boot (body : ℕ → Bytes) (openAtStart : List Bool) (file : Bytes) :
    Server.Exclusive body (Server.boot openAtStart file) := by
  constructor
  · intro i j g g' hg
    rw [Server.boot, Typestate.stateAt_boot] at hg
    exact absurd hg (by simp)
  · intro i g hg
    rw [Server.boot, Typestate.stateAt_boot] at hg
    exact absurd hg (by simp)

/-- A write comes between the steps of a query. -/
def queryAndWrite : List ServerEvent :=
  [.spawn .readInfoFromDevice, .act 0 .granted, .spawn (.writeSerialPort [104, 105]),
    .act 1 .granted, .act 0 (.fetched 0 [111, 107]), .act 0 .granted, .act 1 (.moved 3),
    .act 0 .granted, .act 1 .granted, .act 0 .granted, .act 0 .granted]

end IceSerialPort
