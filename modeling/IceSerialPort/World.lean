import IceSerialPort.Lib.CString
import IceSerialPort.Lib.Pool
import IceSerialPort.Lib.Slots
import Mathlib.Algebra.Group.Nat.Defs
import Mathlib.Data.Int.Init

/-!
# What the server's code acts on

The operations of the server meet the outside world through the C library: the serial
port `/dev/pts/0`, the file `/tmp/device-info`, the process's descriptor table, the
static array `buffer` of `device.c` and the standard output. `Action` lists the
calls they make with their arguments, `Action.Answer` what each call gives back,
and `perform` what it does.

What the operating system decides is a `Choice`. A call on a descriptor that is not
open, or was opened for the other direction, can only fail; a read on an empty line
has no choice at all, which is how it blocks. The pty is in raw mode and has a peer,
so its two directions are two independent byte queues.

## Main definitions

* `World`, `World.boot`: the state, and the state in which the server starts.
* `Action`, `Action.Answer`, `Choice`, `perform`: the calls and their effects.
* `Fault`, `Abort`: how an operation can fail to return.
-/

namespace IceSerialPort

open CString SlotTable

/-- C and C++ strings, files and byte streams. -/
abbrev Bytes := List UInt8

/-- The access mode in the flags of `open`; both callers add `O_NOCTTY`. -/
inductive AccessMode where
  /-- `O_RDONLY` -/
  | rdonly
  /-- `O_WRONLY` -/
  | wronly
  deriving DecidableEq

/-- What an entry of the descriptor table stands for, and which call opened it. -/
inductive OpenFile where
  /-- Open before the server takes its first request. -/
  | inherited
  /-- `/dev/pts/0`, opened with this mode. -/
  | port (mode : AccessMode) (call : ℕ)
  /-- `/tmp/device-info`, under a `FILE *`. -/
  | stream (call : ℕ)
  deriving DecidableEq

/-- The call that opened an entry. -/
def OpenFile.opener : OpenFile → Option ℕ
  | .inherited => none
  | .port _ i => some i
  | .stream i => some i

/-- Undefined behaviour the operations can run into. -/
inductive Fault where
  /-- `fscanf` or `fclose` on a null `FILE *`. -/
  | nullStream
  /-- `fscanf` stores outside `buffer`. -/
  | bufferOverrun
  /-- A scan for the terminating NUL leaves its array. -/
  | unterminated
  deriving DecidableEq

/-- How an operation can end without returning. -/
inductive Abort where
  /-- A C++ exception, which Ice reports to the client. -/
  | raised
  | undefined (f : Fault)
  deriving DecidableEq

/-- The lines the operations print. -/
inductive LogLine where
  /-- `"Error %i from open: %s\n"` with `errno` and its `strerror`. -/
  | openError (errno : ℕ)
  /-- `"Wrote %i bytes to serial port\n"` -/
  | wrote (n : Int)
  deriving DecidableEq

/-- The calls of the operations, with their arguments. -/
inductive Action where
  /-- `open("/dev/pts/0", mode | O_NOCTTY)` -/
  | openPort (mode : AccessMode)
  /-- `read(fd, buf, count)` -/
  | read (fd : Int) (count : ℕ)
  /-- `write(fd, p, len)`, with the memory at `p` -/
  | write (fd : Int) (p : Bytes) (len : ℕ)
  /-- `close(fd)` -/
  | close (fd : Int)
  /-- `printf` -/
  | printf (line : LogLine)
  /-- The shell of `system` opens its redirection `>/tmp/device-info`, truncating it. -/
  | redirect
  /-- The `curl` of `system` writes the response it received, from this file offset. -/
  | curl (offset : ℕ)
  /-- `fopen("/tmp/device-info", "r")` -/
  | fopen
  /-- `fscanf(ptr, "%s", buffer)` -/
  | fscanf (ptr : Option ℕ)
  /-- `fclose(ptr)` -/
  | fclose (ptr : Option ℕ)
  /-- A `std::string` is built from `buffer`. -/
  | copyBuffer
  deriving DecidableEq

/-- What `read(fd, buf, count)` gives back: the count it returns, and the bytes it
has put at `buf`, never more than asked for. -/
structure ReadAnswer (count : ℕ) where
  n : Int
  bytes : Bytes
  length_le : bytes.length ≤ count
  deriving DecidableEq

/-- What each call gives back. -/
abbrev Action.Answer : Action → Type
  /- The descriptor or -1, and the value of `errno`. -/
  | .openPort _ => Int × ℕ
  | .read _ count => ReadAnswer count
  | .write _ _ _ => Int
  | .close _ => Unit
  | .printf _ => Unit
  /- The file offset of the descriptor just opened. -/
  | .redirect => ℕ
  /- The exit status of `curl`, which `system` returns. -/
  | .curl _ => Int
  /- The `FILE *`, `none` for `NULL`. -/
  | .fopen => Option ℕ
  /- The number of conversions made, or `EOF`. -/
  | .fscanf _ => Except Fault Int
  | .fclose _ => Except Fault Unit
  | .copyBuffer => Block 128

/-- What the operating system, the peer and the device decide about a call. -/
inductive Choice where
  /-- The call does what it is for. -/
  | granted
  /-- A `read` or `write` moves this many bytes. -/
  | moved (c : ℕ)
  /-- A `read` reports the end of the file. -/
  | eof
  /-- The call fails, with this `errno`. -/
  | failed (errno : ℕ)
  /-- `curl` exits with a status after writing this response. -/
  | fetched (status : Int) (body : Bytes)
  deriving DecidableEq

/-- The state the operations act on. -/
structure World where
  /-- The descriptor table of the process. -/
  table : Slots OpenFile
  /-- The bytes the peer has sent over the serial line that are not read yet. -/
  line : Bytes
  /-- All bytes sent to the peer over the serial line. -/
  stream : Bytes
  /-- The content of `/tmp/device-info`. -/
  file : Bytes
  /-- `char buffer[128]` of `device.c`. -/
  buffer : Block 128
  /-- The lines printed. -/
  stdout : List LogLine
  deriving DecidableEq

namespace World

/-- The world when the server starts: some descriptors are open, `buffer` is all NUL
and `/tmp/device-info` has whatever it had. -/
def boot (openAtStart : List Bool) (file : Bytes) : World where
  table := ⟨openAtStart.map fun isOpen => if isOpen then some .inherited else none⟩
  line := []
  stream := []
  file := file
  buffer := Block.zero 128
  stdout := []

/-- The mode in which the number `fd` is open on the serial port, if it is. -/
def portMode (w : World) (fd : Int) : Option AccessMode :=
  if fd < 0 then none
  else match w.table.get fd.toNat with
    | some (.port mode _) => some mode
    | _ => none

/-- The pointer is a stream opened by `fopen`. -/
def isStream (w : World) (ptr : ℕ) : Bool :=
  match w.table.get ptr with
  | some (.stream _) => true
  | _ => false

end World

/-- Write at an offset of a file, filling up with NUL where the file is too short. -/
def overwrite (file : Bytes) (offset : ℕ) (bs : Bytes) : Bytes :=
  file.take offset ++ List.replicate (offset - file.length) 0 ++ bs ++
    file.drop (offset + bs.length)

/-- What a call of call number `i` does, for one choice of the operating system. -/
def perform (i : ℕ) (w : World) : (a : Action) → Choice → Option (a.Answer × World)
  | .openPort mode, .granted =>
      some ((w.table.lowestFree, 0), { w with table := w.table.alloc (.port mode i) })
  | .openPort _, .failed errno => some ((-1, errno), w)
  | .read fd count, .moved c =>
      if h : w.portMode fd = some .rdonly ∧ 1 ≤ c ∧ c ≤ count ∧ c ≤ w.line.length then
        some (⟨c, w.line.take c, (List.length_take_le c w.line).trans h.2.2.1⟩,
          { w with line := w.line.drop c })
      else none
  | .read fd _, .eof =>
      if w.portMode fd = some .rdonly then some (⟨0, [], Nat.zero_le _⟩, w) else none
  | .read _ _, .failed _ => some (⟨-1, [], Nat.zero_le _⟩, w)
  | .write fd p len, .moved c =>
      if w.portMode fd = some .wronly ∧ 1 ≤ c ∧ c ≤ len then
        some (c, { w with stream := w.stream ++ p.take c })
      else none
  | .write _ _ _, .failed _ => some (-1, w)
  | .close fd, .granted =>
      some ((), if fd < 0 then w else { w with table := w.table.release fd.toNat })
  | .printf line, .granted => some ((), { w with stdout := w.stdout ++ [line] })
  | .redirect, .granted => some (0, { w with file := [] })
  | .curl offset, .fetched status body =>
      some (status, { w with file := overwrite w.file offset body })
  | .fopen, .granted =>
      some (some w.table.lowestFree, { w with table := w.table.alloc (.stream i) })
  | .fopen, .failed _ => some (none, w)
  | .fscanf none, .granted => some (.error .nullStream, w)
  | .fscanf (some ptr), .granted =>
      if w.isStream ptr then
        match w.buffer.storeAll (scanStores w.file) with
        | some buffer => some (.ok (if token w.file = [] then -1 else 1), { w with buffer })
        | none => some (.error .bufferOverrun, w)
      else none
  | .fclose none, .granted => some (.error .nullStream, w)
  | .fclose (some ptr), .granted =>
      if w.isStream ptr then some (.ok (), { w with table := w.table.release ptr }) else none
  | .copyBuffer, .granted => some (w.buffer, w)
  | _, _ => none

@[simp] theorem portMode_neg {w : World} {fd : Int} (h : fd < 0) : w.portMode fd = none := by
  simp [World.portMode, h]

/-- The number `open` returns is open on the port in the mode asked for. -/
@[simp] theorem portMode_alloc (w : World) (mode : AccessMode) (i : ℕ) :
    ({ w with table := w.table.alloc (.port mode i) } : World).portMode w.table.lowestFree =
      some mode := by
  simp [World.portMode, Slots.get_alloc, show ¬ ((w.table.lowestFree : Int) < 0) by omega]

/-- The number behind the `FILE *` that `fopen` returns is a stream. -/
@[simp] theorem isStream_alloc (w : World) (i : ℕ) :
    ({ w with table := w.table.alloc (.stream i) } : World).isStream w.table.lowestFree = true := by
  simp [World.isStream, Slots.get_alloc]

/-- The failures of calls: -1 from `open`, `read` or `write`, the end of the file
from `read`, a command that exits non-zero, no stream, nothing matched. -/
def Failed : Effects.Performed Action.Answer → Prop
  | ⟨.openPort _, r⟩ => r.1 < 0
  | ⟨.read _ _, r⟩ => r.n ≤ 0
  | ⟨.write _ _ _, r⟩ => r < 0
  | ⟨.curl _, status⟩ => status ≠ 0
  | ⟨.fopen, ptr⟩ => ptr = none
  | ⟨.fscanf _, r⟩ => r ≠ .ok 1
  | _ => False

instance : DecidablePred Failed
  | ⟨.openPort _, r⟩ => inferInstanceAs (Decidable (r.1 < 0))
  | ⟨.read _ _, r⟩ => inferInstanceAs (Decidable (r.n ≤ 0))
  | ⟨.write _ _ _, r⟩ => Int.decLt r 0
  | ⟨.curl _, status⟩ => inferInstanceAs (Decidable ((status : Int) ≠ 0))
  | ⟨.fopen, ptr⟩ => inferInstanceAs (Decidable ((ptr : Option ℕ) = none))
  | ⟨.fscanf _, r⟩ => inferInstanceAs (Decidable ((r : Except Fault Int) ≠ .ok 1))
  | ⟨.close _, _⟩ => isFalse id
  | ⟨.printf _, _⟩ => isFalse id
  | ⟨.redirect, _⟩ => isFalse id
  | ⟨.fclose _, _⟩ => isFalse id
  | ⟨.copyBuffer, _⟩ => isFalse id

/-- The bytes that a performed action took off the line. -/
def taken : Effects.Performed Action.Answer → Option Bytes
  | ⟨.read _ _, r⟩ => if 0 < r.n then some r.bytes else none
  | _ => none

/-! ## What each call can do -/

section Perform

variable {i : ℕ} {w w' : World} {c : Choice}

attribute [local simp] perform

theorem perform_openPort {mode : AccessMode} {r : Int × ℕ} :
    perform i w (.openPort mode) c = some (r, w') ↔
      (c = .granted ∧ r = ((w.table.lowestFree : Int), 0) ∧
        w' = { w with table := w.table.alloc (.port mode i) }) ∨
      ∃ errno, c = .failed errno ∧ r = (-1, errno) ∧ w' = w := by
  cases c <;> simp [eq_comm]

theorem perform_read {fd : Int} {count : ℕ} {r : ReadAnswer count} :
    perform i w (.read fd count) c = some (r, w') ↔
      (∃ k, c = .moved k ∧ w.portMode fd = some .rdonly ∧ 1 ≤ k ∧ k ≤ count ∧
        k ≤ w.line.length ∧ r.n = k ∧ r.bytes = w.line.take k ∧
        w' = { w with line := w.line.drop k }) ∨
      (c = .eof ∧ w.portMode fd = some .rdonly ∧ r.n = 0 ∧ r.bytes = [] ∧ w' = w) ∨
      ∃ errno, c = .failed errno ∧ r.n = -1 ∧ r.bytes = [] ∧ w' = w := by
  rcases r with ⟨n, bytes, hle⟩
  cases c with
  | moved k =>
      simp only [perform]
      split <;> rename_i h
      · simp only [Option.some.injEq, Prod.mk.injEq, ReadAnswer.mk.injEq, Choice.moved.injEq,
          reduceCtorEq, false_and, exists_false, or_false, and_assoc, exists_eq_left']
        simp [h, eq_comm]
      · simp only [reduceCtorEq, Choice.moved.injEq, false_and, exists_false, or_false, false_iff]
        rintro ⟨k', rfl, h1, h2, h3, h4, -⟩
        exact h ⟨h1, h2, h3, h4⟩
  | eof => by_cases h : w.portMode fd = some .rdonly <;> simp [h, eq_comm, and_assoc]
  | failed errno => simp [eq_comm, and_assoc]
  | granted => simp
  | fetched status body => simp

theorem perform_write {fd : Int} {p : Bytes} {len : ℕ} {r : Int} :
    perform i w (.write fd p len) c = some (r, w') ↔
      (∃ k : ℕ, c = .moved k ∧ w.portMode fd = some .wronly ∧ 1 ≤ k ∧ k ≤ len ∧ r = k ∧
        w' = { w with stream := w.stream ++ p.take k }) ∨
      ∃ errno, c = .failed errno ∧ r = -1 ∧ w' = w := by
  cases c with
  | moved k =>
      by_cases h : w.portMode fd = some .wronly ∧ 1 ≤ k ∧ k ≤ len
      · simp [h, eq_comm]
      · simp only [perform, if_neg h, reduceCtorEq, Choice.moved.injEq, false_and, exists_false,
          or_false, false_iff]
        rintro ⟨k', rfl, h1, h2, h3, -⟩
        exact h ⟨h1, h2, h3⟩
  | granted => simp
  | eof => simp
  | failed errno => simp [eq_comm]
  | fetched status body => simp

theorem perform_close {fd : Int} {r : Unit} :
    perform i w (.close fd) c = some (r, w') ↔ c = .granted ∧
      w' = if fd < 0 then w else { w with table := w.table.release fd.toNat } := by
  cases c <;> simp [eq_comm]

theorem perform_printf {line : LogLine} {r : Unit} :
    perform i w (.printf line) c = some (r, w') ↔ c = .granted ∧
      w' = { w with stdout := w.stdout ++ [line] } := by
  cases c <;> simp [eq_comm]

theorem perform_redirect {r : ℕ} :
    perform i w .redirect c = some (r, w') ↔ c = .granted ∧ r = 0 ∧ w' = { w with file := [] } := by
  cases c <;> simp [eq_comm]

theorem perform_curl {offset : ℕ} {r : Int} :
    perform i w (.curl offset) c = some (r, w') ↔
      ∃ body, c = .fetched r body ∧ w' = { w with file := overwrite w.file offset body } := by
  cases c <;> simp [eq_comm]

theorem perform_fopen {r : Option ℕ} :
    perform i w .fopen c = some (r, w') ↔
      (c = .granted ∧ r = some w.table.lowestFree ∧
        w' = { w with table := w.table.alloc (.stream i) }) ∨
      ∃ errno, c = .failed errno ∧ r = none ∧ w' = w := by
  cases c <;> simp [eq_comm]

theorem perform_fscanf {ptr : Option ℕ} {r : Except Fault Int} :
    perform i w (.fscanf ptr) c = some (r, w') ↔ c = .granted ∧
      ((ptr = none ∧ r = .error .nullStream ∧ w' = w) ∨
      (∃ p b, ptr = some p ∧ w.isStream p ∧ w.buffer.storeAll (scanStores w.file) = some b ∧
        r = .ok (if token w.file = [] then -1 else 1) ∧ w' = { w with buffer := b }) ∨
      ∃ p, ptr = some p ∧ w.isStream p ∧ w.buffer.storeAll (scanStores w.file) = none ∧
        r = .error .bufferOverrun ∧ w' = w) := by
  cases c with
  | granted =>
      cases ptr with
      | none => simp [eq_comm (a := r), eq_comm (a := w')]
      | some p =>
          by_cases hs : w.isStream p = true
          · cases hb : w.buffer.storeAll (scanStores w.file) <;>
              simp [hs, hb, eq_comm (a := r), eq_comm (a := w')]
          · simp [hs]
  | moved k => cases ptr <;> simp
  | eof => cases ptr <;> simp
  | failed errno => cases ptr <;> simp
  | fetched status body => cases ptr <;> simp

theorem perform_fclose {ptr : Option ℕ} {r : Except Fault Unit} :
    perform i w (.fclose ptr) c = some (r, w') ↔ c = .granted ∧
      ((ptr = none ∧ r = .error .nullStream ∧ w' = w) ∨
      ∃ p, ptr = some p ∧ w.isStream p ∧ r = .ok () ∧
        w' = { w with table := w.table.release p }) := by
  cases ptr with
  | none => cases c <;> simp [eq_comm (a := r), eq_comm (a := w')]
  | some p =>
      by_cases hs : w.isStream p = true <;> cases c <;>
        simp [hs, eq_comm (a := r), eq_comm (a := w')]

theorem perform_copyBuffer {r : Block 128} :
    perform i w .copyBuffer c = some (r, w') ↔ c = .granted ∧ r = w.buffer ∧ w' = w := by
  cases c <;> simp [eq_comm]

/-- The parts of the world. -/
inductive Part where
  | table
  | line
  | stream
  | file
  | buffer
  | stdout
  deriving DecidableEq

/-- The one part that a call can change. -/
def Action.part : Action → Part
  | .openPort _ => .table
  | .read _ _ => .line
  | .write _ _ _ => .stream
  | .close _ => .table
  | .printf _ => .stdout
  | .redirect => .file
  | .curl _ => .file
  | .fopen => .table
  | .fscanf _ => .buffer
  | .fclose _ => .table
  | .copyBuffer => .buffer

/-- Two worlds that agree except in one part. -/
structure World.SameBut (part : Part) (w w' : World) : Prop where
  table : part ≠ .table → w'.table = w.table
  line : part ≠ .line → w'.line = w.line
  stream : part ≠ .stream → w'.stream = w.stream
  file : part ≠ .file → w'.file = w.file
  buffer : part ≠ .buffer → w'.buffer = w.buffer
  stdout : part ≠ .stdout → w'.stdout = w.stdout

theorem World.SameBut.refl (part : Part) (w : World) : World.SameBut part w w := by
  constructor <;> intro _ <;> rfl

/-- **A call changes nothing but its own part of the world.** -/
theorem perform_sameBut {a : Action} {r : a.Answer} (h : perform i w a c = some (r, w')) :
    World.SameBut a.part w w' := by
  cases a with
  | openPort mode =>
      rcases perform_openPort.mp h with ⟨-, -, rfl⟩ | ⟨errno, -, -, rfl⟩
      · constructor <;> simp [Action.part]
      · exact .refl _ _
  | read fd count =>
      rcases perform_read.mp h with ⟨k, -, -, -, -, -, -, -, rfl⟩ | ⟨-, -, -, -, rfl⟩ |
        ⟨errno, -, -, -, rfl⟩
      · constructor <;> simp [Action.part]
      · exact .refl _ _
      · exact .refl _ _
  | write fd p len =>
      rcases perform_write.mp h with ⟨k, -, -, -, -, -, rfl⟩ | ⟨errno, -, -, rfl⟩
      · constructor <;> simp [Action.part]
      · exact .refl _ _
  | close fd =>
      rcases perform_close.mp h with ⟨-, rfl⟩
      split
      · exact .refl _ _
      · constructor <;> simp [Action.part]
  | printf line =>
      rcases perform_printf.mp h with ⟨-, rfl⟩
      constructor <;> simp [Action.part]
  | redirect =>
      rcases perform_redirect.mp h with ⟨-, -, rfl⟩
      constructor <;> simp [Action.part]
  | curl offset =>
      rcases perform_curl.mp h with ⟨body, -, rfl⟩
      constructor <;> simp [Action.part]
  | fopen =>
      rcases perform_fopen.mp h with ⟨-, -, rfl⟩ | ⟨errno, -, -, rfl⟩
      · constructor <;> simp [Action.part]
      · exact .refl _ _
  | fscanf ptr =>
      rcases (perform_fscanf.mp h).2 with ⟨-, -, rfl⟩ | ⟨p, b, -, -, -, -, rfl⟩ |
        ⟨p, -, -, -, -, rfl⟩
      · exact .refl _ _
      · constructor <;> simp [Action.part]
      · exact .refl _ _
  | fclose ptr =>
      rcases (perform_fclose.mp h).2 with ⟨-, -, rfl⟩ | ⟨p, -, -, -, rfl⟩
      · exact .refl _ _
      · constructor <;> simp [Action.part]
  | copyBuffer =>
      rcases perform_copyBuffer.mp h with ⟨-, -, rfl⟩
      exact .refl _ _

/-- **What a call takes off the line.** -/
theorem perform_line {a : Action} {r : a.Answer} (h : perform i w a c = some (r, w')) :
    w.line = (taken ⟨a, r⟩).toList.flatten ++ w'.line := by
  cases a with
  | read fd count =>
      rcases perform_read.mp h with ⟨k, -, -, hk, -, -, hn, hbytes, rfl⟩ | ⟨-, -, hn, -, rfl⟩ |
        ⟨errno, -, hn, -, rfl⟩
      · have hpos : 0 < k := hk
        simp [taken, hn, hpos, hbytes]
      · simp [taken, hn]
      · simp [taken, hn]
  | _ => simp [taken, (perform_sameBut h).line (by simp [Action.part])]

/-- What every answer of the operating system is like: a count is -1 or that of the bytes
moved, and a call on a negative number fails. -/
def Consistent : Effects.Performed Action.Answer → Prop
  | ⟨.openPort _, r⟩ => r.1 = -1 ∨ 0 ≤ r.1
  | ⟨.read fd _, r⟩ =>
      (fd < 0 → r.n = -1) ∧ ((r.n ≤ 0 ∧ r.bytes = []) ∨ (0 < r.n ∧ r.bytes ≠ []))
  | ⟨.write fd _ len, r⟩ => (fd < 0 → r = -1) ∧ (r = -1 ∨ (1 ≤ r ∧ r ≤ len))
  | _ => True

/-- **Every answer is consistent.** -/
theorem perform_consistent {a : Action} {r : a.Answer} (h : perform i w a c = some (r, w')) :
    Consistent ⟨a, r⟩ := by
  cases a with
  | openPort mode =>
      rcases perform_openPort.mp h with ⟨-, rfl, -⟩ | ⟨errno, -, rfl, -⟩
      · exact Or.inr (Int.natCast_nonneg _)
      · exact Or.inl rfl
  | read fd count =>
      rcases perform_read.mp h with ⟨k, -, hport, hk, -, hline, hn, hbytes, -⟩ |
        ⟨-, hport, hn, hbytes, -⟩ | ⟨errno, -, hn, hbytes, -⟩
      · refine ⟨fun hneg => ?_, Or.inr ⟨by omega, ?_⟩⟩
        · simp [portMode_neg hneg] at hport
        · intro hnil
          have hlen := congrArg List.length (hbytes.symm.trans hnil)
          rw [List.length_take_of_le hline, List.length_nil] at hlen
          omega
      · refine ⟨fun hneg => ?_, Or.inl ⟨by omega, hbytes⟩⟩
        simp [portMode_neg hneg] at hport
      · exact ⟨fun _ => hn, Or.inl ⟨by omega, hbytes⟩⟩
  | write fd p len =>
      rcases perform_write.mp h with ⟨k, -, hport, h1, h2, rfl, -⟩ | ⟨errno, -, rfl, -⟩
      · have h1' : (1 : Int) ≤ k := by omega
        have h2' : (k : Int) ≤ len := by omega
        refine ⟨fun hneg => ?_, Or.inr ⟨h1', h2'⟩⟩
        simp [portMode_neg hneg] at hport
      · exact ⟨fun _ => rfl, Or.inl rfl⟩
  | _ => trivial

end Perform

/-! ## The calls as code -/

/-- Code that makes these calls. -/
abbrev Code (α : Type) := Effects.Prog Action Action.Answer Abort α

namespace Sys

variable (mode : AccessMode) (fd : Int) (count offset : ℕ) (p : Bytes) (len : ℕ)
  (line : LogLine) (ptr : Option ℕ)

abbrev openPort : Code (Int × ℕ) := .perform (Action.openPort mode)
abbrev read : Code (ReadAnswer count) := .perform (Action.read fd count)
abbrev write : Code Int := .perform (Action.write fd p len)
abbrev close : Code Unit := .perform (Action.close fd)
abbrev printf : Code Unit := .perform (Action.printf line)
abbrev redirect : Code ℕ := .perform Action.redirect
abbrev curl : Code Int := .perform (Action.curl offset)
abbrev fopen : Code (Option ℕ) := .perform Action.fopen
abbrev copyBuffer : Code (Block 128) := .perform Action.copyBuffer

/-- A call that runs into undefined behaviour has no result to go on with. -/
def checked {α : Type} : Except Fault α → Code α
  | .ok a => .ret a
  | .error f => .stop (.undefined f)

abbrev fscanf : Code Int := .call (Action.fscanf ptr) checked
abbrev fclose : Code Unit := .call (Action.fclose ptr) checked

/-- Only a call that has a result is followed by anything. -/
theorem obeys_checked_bind {α β Job G : Type}
    {T : Effects.Typestate Action Action.Answer Abort β Job G} {g : G} {r : Except Fault α}
    {k : α → Code β} (h : ∀ a, r = .ok a → T.Obeys g (k a))
    (habort : ∀ f, r = .error f → T.abort g (.undefined f)) : T.Obeys g (checked r >>= k) := by
  cases r with
  | ok a => exact h a rfl
  | error f => exact habort f rfl

end Sys

/-- Neither a failure nor an end of file. -/
def Choice.succeeds : Choice → Bool
  | .failed _ => false
  | .eof => false
  | _ => true

/-- The conversion of a C `int` from a wider integer. -/
def cInt (x : Int) : Int := Int.bmod x (2 ^ 32)

@[simp] theorem overwrite_nil (bs : Bytes) : overwrite [] 0 bs = bs := by simp [overwrite]

/-- Writing from the start over a file that is no longer replaces it. -/
theorem overwrite_zero {file bs : Bytes} (h : file.length ≤ bs.length) :
    overwrite file 0 bs = bs := by
  simp [overwrite, List.drop_eq_nil_of_le h]

end IceSerialPort
