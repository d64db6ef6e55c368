import IceSerialPort.World

/-!
# `SerialPortI`: reading and writing the serial port

The two operations of the servant, line by line as `main.cpp` has them, and what a
run of each on its own does. A failed `open` is printed and nothing else: the
operation goes on with descriptor -1. `readSerialPort` answers every failure and
every end of file with the text `No data`.

## Main definitions

* `readSerialPort`, `writeSerialPort`: the operations.
* `openSerialPort`: the lines that both begin with, with a rule of their own.
* `received`: the text a client gets from what one `read` delivered.
* `readSerialPort_cases`, `writeSerialPort_cases`: their runs, choice by choice.
-/

namespace IceSerialPort

open Effects CString Framing SlotTable

/-- `"No data"` -/
def noData : Bytes := ['N', 'o', ' ', 'd', 'a', 't', 'a'].map fun c => c.toNat.toUInt8

/-- `string(buf)`, for a character array. -/
def string {n : ℕ} (buf : Block n) : Code Bytes :=
  match buf.text? with
  | some s => pure s
  | none => .stop (.undefined .unterminated)

/-- `message.c_str()`: the array of a string, with the NUL that ends it. -/
def c_str (message : Bytes) : Bytes := message ++ [0]

/-- `SerialPortI::readSerialPort` -/
def readSerialPort : Code Bytes := do
  let (serial_port, errno) ← Sys.openPort .rdonly
  if serial_port < 0 then
    Sys.printf (.openError errno)
  let got ← Sys.read serial_port 2048
  let read_buf := (Block.zero 2048).fill got.bytes got.length_le
  Sys.close serial_port
  -- `int n` holds what this `read` can return, from -1 to 2048.
  if got.n > 0 then
    string read_buf
  else
    pure noData

/-- `SerialPortI::writeSerialPort` -/
def writeSerialPort (message : Bytes) : Code Unit := do
  let (serial_port, errno) ← Sys.openPort .wronly
  if serial_port < 0 then
    Sys.printf (.openError errno)
  let n ← Sys.write serial_port (c_str message) (message.length + 1)
  Sys.printf (.wrote (cInt n))
  Sys.close serial_port

/-! ## How both operations begin -/

/-- How both operations begin: a failed `open` is printed and nothing else. -/
def openSerialPort (mode : AccessMode) : Code Int := do
  let (serial_port, errno) ← Sys.openPort mode
  if serial_port < 0 then
    Sys.printf (.openError errno)
  pure serial_port

/-- `readSerialPort` once its `read` has returned `got`. -/
def readAnswer (fd : Int) (got : ReadAnswer 2048) : Code Bytes :=
  .call (.close fd) fun _ =>
    if got.n > 0 then string ((Block.zero 2048).fill got.bytes got.length_le) else .ret noData

/-- `readSerialPort` once it has its descriptor. -/
def readRest (fd : Int) : Code Bytes := .call (.read fd 2048) (readAnswer fd)

/-- `writeSerialPort` once it has its descriptor. -/
def writeRest (message : Bytes) (fd : Int) : Code Unit :=
  .call (.write fd (c_str message) (message.length + 1)) fun n =>
    .call (.printf (.wrote (cInt n))) fun _ => .call (.close fd) .ret

theorem readSerialPort_eq : readSerialPort = openSerialPort .rdonly >>= readRest := by
  simp only [readSerialPort, openSerialPort, Prog.perform_bind, Prog.call_bind]
  congr
  funext r
  split <;> rfl

theorem writeSerialPort_eq (message : Bytes) :
    writeSerialPort message = openSerialPort .wronly >>= writeRest message := by
  simp only [writeSerialPort, openSerialPort, Prog.perform_bind, Prog.call_bind]
  congr
  funext r
  split <;> rfl

theorem openSerialPort_bind_eq {β : Type} (mode : AccessMode) (k : Int → Code β) :
    (openSerialPort mode >>= k) = .call (.openPort mode) fun r =>
      if r.1 < 0 then .call (.printf (.openError r.2)) fun _ => k r.1 else k r.1 := by
  simp only [openSerialPort, Prog.perform_bind, Prog.call_bind]
  congr
  funext r
  split <;> rfl

/-- The rule for what begins with `open`. -/
theorem obeys_openSerialPort_bind {β Job G : Type}
    {T : Typestate Action Action.Answer Abort β Job G} {g : G} {mode : AccessMode}
    {k : Int → Code β} (hopen : T.can g (.openPort mode))
    (hopened : ∀ fd errno, ¬ fd < 0 → T.Obeys (T.next g (.openPort mode) (fd, errno)) (k fd))
    (hfailed : ∀ fd errno, fd < 0 → T.Obeys (T.next g (.openPort mode) (fd, errno))
      (.call (.printf (.openError errno)) fun _ => k fd)) :
    T.Obeys g (openSerialPort mode >>= k) := by
  rw [openSerialPort_bind_eq]
  refine ⟨hopen, fun r => ?_⟩
  by_cases hfd : r.1 < 0
  · simp only [hfd, if_true]
    exact hfailed r.1 r.2 hfd
  · simp only [hfd, if_false]
    exact hopened r.1 r.2 hfd

/-- The cases of what begins with `open`. -/
theorem execute_openSerialPort_bind {β : Type} {i : ℕ} {w : World} {mode : AccessMode}
    {k : Int → Code β} {cs : List Choice} {rep : Report Action.Answer Abort β World}
    (h : execute (perform i) (openSerialPort mode >>= k) w cs = some rep) :
    (∃ cs' rep', cs = .granted :: cs' ∧
      execute (perform i) (k w.table.lowestFree)
        { w with table := w.table.alloc (.port mode i) } cs' = some rep' ∧
      rep = { rep' with trace := ⟨.openPort mode, (w.table.lowestFree, 0)⟩ :: rep'.trace }) ∨
    ∃ errno cs' rep', cs = .failed errno :: .granted :: cs' ∧
      execute (perform i) (k (-1))
        { w with stdout := w.stdout ++ [.openError errno] } cs' = some rep' ∧
      rep = { rep' with trace := ⟨.openPort mode, (-1, errno)⟩ ::
        ⟨.printf (.openError errno), ()⟩ :: rep'.trace } := by
  rw [openSerialPort_bind_eq] at h
  obtain ⟨c₁, cs, ⟨fd, errno⟩, w₁, rep₁, rfl, ho, h₁, rfl⟩ := (execute_call_eq_some _).mp h
  rcases perform_openPort.mp ho with ⟨rfl, hr, rfl⟩ | ⟨errno', rfl, hr, rfl⟩
  · obtain ⟨rfl, rfl⟩ := Prod.mk.inj hr
    have hfd : ¬ ((w.table.lowestFree : Int) < 0) := by omega
    simp only [hfd, if_false] at h₁
    exact Or.inl ⟨cs, rep₁, rfl, h₁, rfl⟩
  · obtain ⟨rfl, rfl⟩ := Prod.mk.inj hr
    obtain ⟨c₂, cs, u, w₂, rep₂, rfl, hprint, h₂, rfl⟩ := (execute_call_eq_some _).mp h₁
    obtain ⟨rfl, rfl⟩ := perform_printf.mp hprint
    exact Or.inr ⟨errno, cs, rep₂, rfl, h₂, rfl⟩
/-! ## What a run of each operation does -/

/-- What `string(buf)` ends with, given the text of the array. -/
def textOutcome : Option Bytes → Outcome Abort Bytes
  | some s => .returned s
  | none => .aborted (.undefined .unterminated)

theorem execute_string {n : ℕ} (buf : Block n) (i : ℕ) (w : World) (cs : List Choice) :
    execute (perform i) (string buf) w cs = some ⟨textOutcome buf.text?, w, []⟩ := by
  cases h : buf.text? <;> simp [string, textOutcome, h]

/-- Only an array that holds a NUL is followed by anything. -/
theorem obeys_string_bind {n : ℕ} {buf : Block n} {β Job G : Type}
    {T : Typestate Action Action.Answer Abort β Job G} {g : G} {k : Bytes → Code β}
    (h : ∀ s, buf.text? = some s → T.Obeys g (k s))
    (habort : buf.text? = none → T.abort g (.undefined .unterminated)) :
    T.Obeys g (string buf >>= k) := by
  rw [string]
  split
  · next s hs => exact h s hs
  · next hnone => exact habort hnone

/-- What `readSerialPort` ends with when its `read` has delivered `chunk`: the text
before the first NUL, unless the chunk fills `read_buf` and holds none. -/
def received (chunk : Bytes) : Outcome Abort Bytes :=
  if chunk.length < 2048 ∨ (0 : UInt8) ∈ chunk then .returned (cut 0 chunk)
  else .aborted (.undefined .unterminated)

theorem textOutcome_fill {chunk : Bytes} (h : chunk.length ≤ 2048) :
    textOutcome ((Block.zero 2048).fill chunk h).text? = received chunk := by
  rw [Block.text?_fill_zero, received]
  split <;> rfl

/-- The world after `open` and `close` of a port. -/
def World.reopened (w : World) (mode : AccessMode) (i : ℕ) : World :=
  { w with table := (w.table.alloc (.port mode i)).release w.table.lowestFree }

/-- **A read that moves `k` bytes.** -/
theorem execute_readSerialPort {i k : ℕ} {w : World} (h1 : 1 ≤ k) (h2 : k ≤ 2048)
    (h3 : k ≤ w.line.length) :
    execute (perform i) readSerialPort w [.granted, .moved k, .granted] =
      some ⟨received (w.line.take k),
        { w.reopened .rdonly i with line := w.line.drop k },
        [⟨.openPort .rdonly, (w.table.lowestFree, 0)⟩,
          ⟨.read w.table.lowestFree 2048,
            ⟨k, w.line.take k, (List.length_take_le k w.line).trans h2⟩⟩,
          ⟨.close w.table.lowestFree, ()⟩]⟩ := by
  have hfd : ¬ ((w.table.lowestFree : Int) < 0) := by omega
  have hpos : 0 < k := h1
  have hlen : (w.line.take k).length ≤ 2048 := (List.length_take_le k w.line).trans h2
  rw [← textOutcome_fill hlen]
  simp [readSerialPort, execute, perform, hfd, h1, h2, h3, hpos, execute_string, World.reopened]

/-- **Every run of `readSerialPort` on its own.** Either `open` failed, or `read`
failed or met the end of the file, or it moved `k` bytes. -/
theorem readSerialPort_cases {i : ℕ} {w : World} {cs : List Choice}
    {rep : Report Action.Answer Abort Bytes World}
    (h : execute (perform i) readSerialPort w cs = some rep) :
    (∃ errno, rep.outcome = .returned noData ∧
      rep.world = { w with stdout := w.stdout ++ [.openError errno] } ∧
      ⟨.openPort .rdonly, (-1, errno)⟩ ∈ rep.trace) ∨
    (∃ r : ReadAnswer 2048, rep.outcome = .returned noData ∧ rep.world = w.reopened .rdonly i ∧
      r.n ≤ 0 ∧ ⟨.read w.table.lowestFree 2048, r⟩ ∈ rep.trace) ∨
    ∃ k, ∃ h2 : k ≤ 2048, 1 ≤ k ∧ k ≤ w.line.length ∧
      rep = ⟨received (w.line.take k), { w.reopened .rdonly i with line := w.line.drop k },
        [⟨.openPort .rdonly, (w.table.lowestFree, 0)⟩,
          ⟨.read w.table.lowestFree 2048,
            ⟨k, w.line.take k, (List.length_take_le k w.line).trans h2⟩⟩,
          ⟨.close w.table.lowestFree, ()⟩]⟩ := by
  rw [readSerialPort_eq] at h
  rcases execute_openSerialPort_bind h with ⟨cs₁, rep₁, rfl, h₁, rfl⟩ |
    ⟨errno, cs₁, rep₁, rfl, h₁, rfl⟩
  · -- `open` succeeds: the run goes straight to `read`.
    have hfd : ¬ ((w.table.lowestFree : Int) < 0) := by omega
    obtain ⟨c₂, cs, r, w₂, rep₂, rfl, hread, h₂, rfl⟩ := (execute_call_eq_some _).mp h₁
    obtain ⟨c₃, cs, u, w₃, rep₃, rfl, hclose, h₃, rfl⟩ := (execute_call_eq_some _).mp h₂
    rw [perform_close, if_neg hfd] at hclose
    obtain ⟨rfl, rfl⟩ := hclose
    rcases r with ⟨n, bytes, hle⟩
    rcases perform_read.mp hread with ⟨k, rfl, -, h1, h2, h3, rfl, rfl, rfl⟩ |
      ⟨rfl, -, rfl, rfl, rfl⟩ | ⟨errno', rfl, rfl, rfl, rfl⟩
    · have hpos : ((k : Int) > 0) := by omega
      simp only [hpos, if_true, execute_string, Option.some.injEq] at h₃
      subst h₃
      refine Or.inr (Or.inr ⟨k, h2, h1, h3, ?_⟩)
      rw [← textOutcome_fill hle]
      rfl
    · obtain rfl := Option.some.inj h₃
      exact Or.inr (Or.inl ⟨⟨0, [], hle⟩, rfl, rfl, by simp, by simp⟩)
    · obtain rfl := Option.some.inj h₃
      exact Or.inr (Or.inl ⟨⟨-1, [], hle⟩, rfl, rfl, by simp, by simp⟩)
  · -- `open` fails, and `read` on -1 can only fail.
    obtain ⟨c₃, cs, r, w₃, rep₃, rfl, hread, h₃, rfl⟩ := (execute_call_eq_some _).mp h₁
    obtain ⟨c₄, cs, u, w₄, rep₄, rfl, hclose, h₄, rfl⟩ := (execute_call_eq_some _).mp h₃
    obtain ⟨rfl, rfl⟩ := perform_close.mp hclose
    rcases perform_read.mp hread with ⟨k, -, hport, -⟩ | ⟨-, hport, -⟩ | ⟨errno', rfl, hn, -, rfl⟩
    · simp at hport
    · simp at hport
    · simp only [hn, show ¬ ((-1 : Int) > 0) by omega, if_false] at h₄
      obtain rfl := Option.some.inj h₄
      exact Or.inl ⟨errno, rfl, by simp, by simp⟩

/-- **Every run of `writeSerialPort` on its own.** Either `open` failed, or `write`
failed, or it moved `k` bytes of the frame; it returns in every case. -/
theorem writeSerialPort_cases {i : ℕ} {w : World} {message : Bytes} {cs : List Choice}
    {rep : Report Action.Answer Abort Unit World}
    (h : execute (perform i) (writeSerialPort message) w cs = some rep) :
    rep.outcome = .returned () ∧
    ((∃ errno, rep.world = { w with stdout := w.stdout ++ [.openError errno, .wrote (-1)] } ∧
        rep.trace = [⟨.openPort .wronly, (-1, errno)⟩, ⟨.printf (.openError errno), ()⟩,
          ⟨.write (-1) (c_str message) (message.length + 1), (-1 : Int)⟩,
          ⟨.printf (.wrote (-1)), ()⟩, ⟨.close (-1), ()⟩]) ∨
      (rep.world = { w.reopened .wronly i with stdout := w.stdout ++ [.wrote (-1)] } ∧
        rep.trace = [⟨.openPort .wronly, (w.table.lowestFree, 0)⟩,
          ⟨.write w.table.lowestFree (c_str message) (message.length + 1), (-1 : Int)⟩,
          ⟨.printf (.wrote (-1)), ()⟩, ⟨.close w.table.lowestFree, ()⟩]) ∨
      ∃ k : ℕ, 1 ≤ k ∧ k ≤ message.length + 1 ∧
        rep.world = { w.reopened .wronly i with
          stream := w.stream ++ (c_str message).take k
          stdout := w.stdout ++ [.wrote (cInt k)] } ∧
        rep.trace = [⟨.openPort .wronly, (w.table.lowestFree, 0)⟩,
          ⟨.write w.table.lowestFree (c_str message) (message.length + 1), (k : Int)⟩,
          ⟨.printf (.wrote (cInt k)), ()⟩, ⟨.close w.table.lowestFree, ()⟩]) := by
  have hint : cInt (-1) = -1 := by decide
  rw [writeSerialPort_eq] at h
  rcases execute_openSerialPort_bind h with ⟨cs₁, rep₁, rfl, h₁, rfl⟩ |
    ⟨errno, cs₁, rep₁, rfl, h₁, rfl⟩
  · have hfd : ¬ ((w.table.lowestFree : Int) < 0) := by omega
    obtain ⟨c₂, cs, n, w₂, rep₂, rfl, hwrite, h₂, rfl⟩ := (execute_call_eq_some _).mp h₁
    obtain ⟨c₃, cs, u, w₃, rep₃, rfl, hprint, h₃, rfl⟩ := (execute_call_eq_some _).mp h₂
    obtain ⟨rfl, rfl⟩ := perform_printf.mp hprint
    obtain ⟨c₄, cs, u, w₄, rep₄, rfl, hclose, h₄, rfl⟩ := (execute_call_eq_some _).mp h₃
    rw [perform_close, if_neg hfd] at hclose
    obtain ⟨rfl, rfl⟩ := hclose
    obtain rfl := Option.some.inj h₄
    rcases perform_write.mp hwrite with ⟨k, rfl, -, h1, h2, rfl, rfl⟩ | ⟨errno', rfl, rfl, rfl⟩
    · exact ⟨rfl, Or.inr (Or.inr ⟨k, h1, h2, rfl, rfl⟩)⟩
    · rw [hint]
      exact ⟨rfl, Or.inr (Or.inl ⟨rfl, rfl⟩)⟩
  · obtain ⟨c₃, cs, n, w₃, rep₃, rfl, hwrite, h₃, rfl⟩ := (execute_call_eq_some _).mp h₁
    obtain ⟨c₄, cs, u, w₄, rep₄, rfl, hprint, h₄, rfl⟩ := (execute_call_eq_some _).mp h₃
    obtain ⟨rfl, rfl⟩ := perform_printf.mp hprint
    obtain ⟨c₅, cs, u, w₅, rep₅, rfl, hclose, h₅, rfl⟩ := (execute_call_eq_some _).mp h₄
    obtain ⟨rfl, rfl⟩ := perform_close.mp hclose
    obtain rfl := Option.some.inj h₅
    rcases perform_write.mp hwrite with ⟨k, -, hport, -⟩ | ⟨errno', rfl, rfl, rfl⟩
    · simp at hport
    · rw [hint]
      exact ⟨rfl, Or.inl ⟨errno, by simp, rfl⟩⟩

end IceSerialPort
