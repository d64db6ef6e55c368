import IceSerialPort.SerialPortI

/-!
# `deviceInfo` and `DriverI`: asking the device for its info

`device.c` fetches the info with a shell command into `/tmp/device-info`, opens that
file and scans one token of it into the static array `buffer`. Neither the exit status
of the command nor the result of `fscanf` is looked at.

## Main definitions

* `system_curl`: the command line that `deviceInfo` hands to `system`.
* `deviceInfo`, `readInfoFromDevice`: the function and the operation.
* `readInfoFromDevice_cases`: its runs, choice by choice.
-/

namespace IceSerialPort

open Effects CString Framing SlotTable

/-- `system("curl host.docker.internal:1080/device-info>/tmp/device-info")`: the shell
truncates the file, then `curl` writes to it what it fetches. -/
def system_curl : Code Int := do
  let offset ← Sys.redirect
  Sys.curl offset

/-- `deviceInfo`. What it returns is the address of `buffer`. -/
def deviceInfo : Code Unit := do
  let _ ← system_curl
  let ptr ← Sys.fopen
  let _ ← Sys.fscanf ptr
  Sys.fclose ptr

/-- `DriverI::readInfoFromDevice` -/
def readInfoFromDevice : Code Bytes := do
  deviceInfo
  let buffer ← Sys.copyBuffer
  string buffer

/-- The calls of the operation in order. -/
theorem readInfoFromDevice_eq :
    readInfoFromDevice =
      .call .redirect fun offset => .call (.curl offset) fun _ => .call .fopen fun ptr =>
        .call (.fscanf ptr) fun r => Sys.checked r >>= fun _ =>
          .call (.fclose ptr) fun r => Sys.checked r >>= fun _ =>
            .call .copyBuffer fun buffer => string buffer := by
  simp [readInfoFromDevice, deviceInfo, system_curl]

/-! ## What a run of the operation does -/

/-- The world after the file has been opened, scanned and closed. -/
def World.scanned (w : World) (i : ℕ) (body : Bytes) (buffer : Block 128) : World :=
  { w with
    table := (w.table.alloc (.stream i)).release w.table.lowestFree
    file := body
    buffer := buffer }

/-- **Every run of `readInfoFromDevice` on its own.** Either `fopen` failed and the
null stream was scanned, or the scan left `buffer`, or it ended with a new content of
`buffer` (the old one, when nothing matched) from which the answer was copied. -/
theorem readInfoFromDevice_cases {i : ℕ} {w : World} {cs : List Choice}
    {rep : Report Action.Answer Abort Bytes World}
    (h : execute (perform i) readInfoFromDevice w cs = some rep) :
    ∃ status body rest, cs = .granted :: .fetched status body :: rest ∧
      ((rep.outcome = .aborted (.undefined .nullStream) ∧ rep.world = { w with file := body } ∧
          rep.trace = [⟨.redirect, (0 : ℕ)⟩, ⟨.curl 0, status⟩, ⟨.fopen, none⟩,
            ⟨.fscanf none, .error .nullStream⟩]) ∨
        (rep.outcome = .aborted (.undefined .bufferOverrun) ∧
          w.buffer.storeAll (scanStores body) = none ∧
          rep.trace = [⟨.redirect, (0 : ℕ)⟩, ⟨.curl 0, status⟩,
            ⟨.fopen, some w.table.lowestFree⟩,
            ⟨.fscanf (some w.table.lowestFree), .error .bufferOverrun⟩]) ∨
        ∃ b, w.buffer.storeAll (scanStores body) = some b ∧
          rep = ⟨textOutcome b.text?, w.scanned i body b,
            [⟨.redirect, (0 : ℕ)⟩, ⟨.curl 0, status⟩, ⟨.fopen, some w.table.lowestFree⟩,
              ⟨.fscanf (some w.table.lowestFree), .ok (if token body = [] then -1 else 1)⟩,
              ⟨.fclose (some w.table.lowestFree), .ok ()⟩,
              ⟨.copyBuffer, (b : Block 128)⟩]⟩) := by
  rw [readInfoFromDevice_eq] at h
  obtain ⟨c₁, cs, offset, w₁, rep₁, rfl, hr, h₁, rfl⟩ := (execute_call_eq_some _).mp h
  obtain ⟨rfl, rfl, rfl⟩ := perform_redirect.mp hr
  obtain ⟨c₂, cs, status, w₂, rep₂, rfl, hc, h₂, rfl⟩ := (execute_call_eq_some _).mp h₁
  obtain ⟨body, rfl, rfl⟩ := perform_curl.mp hc
  refine ⟨status, body, cs, rfl, ?_⟩
  obtain ⟨c₃, cs, ptr, w₃, rep₃, rfl, ho, h₃, rfl⟩ := (execute_call_eq_some _).mp h₂
  obtain ⟨c₄, cs, matched, w₄, rep₄, rfl, hs, h₄, rfl⟩ := (execute_call_eq_some _).mp h₃
  simp only [overwrite_nil] at ho
  rcases perform_fopen.mp ho with ⟨rfl, rfl, rfl⟩ | ⟨errno, rfl, rfl, rfl⟩
  · rcases (perform_fscanf.mp hs).2 with ⟨hp, -⟩ | ⟨p, b, hp, -, hb, rfl, rfl⟩ |
      ⟨p, hp, -, hb, rfl, rfl⟩
    · simp at hp
    · obtain rfl := Option.some.inj hp
      obtain ⟨c₅, cs, closed, w₅, rep₅, rfl, hf, h₅, rfl⟩ := (execute_call_eq_some _).mp h₄
      rcases (perform_fclose.mp hf).2 with ⟨hp, -⟩ | ⟨p, hp, -, rfl, rfl⟩
      · simp at hp
      · obtain rfl := Option.some.inj hp
        obtain ⟨c₆, cs, b', w₆, rep₆, rfl, hl, h₆, rfl⟩ := (execute_call_eq_some _).mp h₅
        obtain ⟨rfl, rfl, rfl⟩ := perform_copyBuffer.mp hl
        rw [execute_string] at h₆
        obtain rfl := Option.some.inj h₆
        exact Or.inr (Or.inr ⟨_, hb, rfl⟩)
    · obtain rfl := Option.some.inj h₄
      obtain rfl := Option.some.inj hp
      exact Or.inr (Or.inl ⟨rfl, hb, rfl⟩)
  · rcases (perform_fscanf.mp hs).2 with ⟨-, rfl, rfl⟩ | ⟨p, b, hp, -⟩ | ⟨p, hp, -⟩
    · obtain rfl := Option.some.inj h₄
      exact Or.inl ⟨rfl, rfl, rfl⟩
    · simp at hp
    · simp at hp

/-- The choices of a call whose fetch ends with this exit status and leaves this
`body` in the file, and whose `fopen` succeeds. -/
def fetchChoices (status : Int) (body : Bytes) : List Choice :=
  [.granted, .fetched status body, .granted, .granted, .granted, .granted]

variable (i : ℕ) {w : World} (status : Int) {body : Bytes}

/-- A scan that stays inside `buffer`: the answer is what `buffer` then holds. -/
theorem execute_readInfoFromDevice_of_some {b : Block 128}
    (hb : w.buffer.storeAll (scanStores body) = some b) :
    ∃ trace, execute (perform i) readInfoFromDevice w (fetchChoices status body) =
      some ⟨textOutcome b.text?, w.scanned i body b, trace⟩ := by
  have hptr : ({ w with table := w.table.alloc (.stream i), file := body } : World).isStream
      w.table.lowestFree = true := isStream_alloc { w with file := body } i
  have hptr' : ({ w with table := w.table.alloc (.stream i), file := body, buffer := b } :
      World).isStream w.table.lowestFree = true :=
    isStream_alloc { w with file := body, buffer := b } i
  apply Exists.intro
  rw [readInfoFromDevice_eq]
  simp only [fetchChoices, execute, perform, overwrite_nil, hptr, hptr', hb, Sys.checked,
    if_true, Prog.ret_bind, execute_string, Option.bind_eq_bind, Option.bind_some,
    Option.pure_def]
  rfl

/-- A scan that leaves `buffer`. -/
theorem execute_readInfoFromDevice_of_none
    (hb : w.buffer.storeAll (scanStores body) = none) :
    ∃ world trace, execute (perform i) readInfoFromDevice w (fetchChoices status body) =
      some ⟨.aborted (.undefined .bufferOverrun), world, trace⟩ := by
  have hptr : ({ w with table := w.table.alloc (.stream i), file := body } : World).isStream
      w.table.lowestFree = true := isStream_alloc { w with file := body } i
  apply Exists.intro
  apply Exists.intro
  rw [readInfoFromDevice_eq]
  simp only [fetchChoices, execute, perform, overwrite_nil, hptr, hb, Sys.checked, if_true,
    Prog.stop_bind, Option.bind_eq_bind, Option.bind_some, Option.pure_def]
  rfl

end IceSerialPort
