import IceSerialPort.Server

/-!
# What one call of `readSerialPort` returns

`read_buf` is as long as the most that `read` may deliver, so the zeros it starts with
end the string only if fewer bytes arrive. A read that fills the array with bytes other
than NUL leaves no terminator in it, and the scan of `string(read_buf)` leaves it.

## Main results

* `scansInside_iff`: when the scan stays inside and the answer is the text received.
* `read_undoes_write`: which messages come back when the reader is given the frame
  that the writer hands to `write`.
-/

namespace IceSerialPort

open Effects CString Framing

/-- `read_buf` after a `read` that moved the first `n` bytes of the line. -/
def World.readBuf (w : World) (n : ℕ) (h : n ≤ 2048) : Block 2048 :=
  (Block.zero 2048).fill (w.line.take n) ((List.length_take_le n w.line).trans h)

/-- A call whose `read` moves `n` bytes scans `read_buf` inside its bounds and returns
exactly the text received: the longest NUL-free prefix of the `n` bytes. -/
structure ScansInside (call : ℕ) (w : World) (n : ℕ) (h : n ≤ 2048) : Prop where
  stops : ∃ stop, (w.readBuf n h).terminator? = some stop ∧ stop < 2048
  returns : ∃ rep s, execute (perform call) readSerialPort w [.granted, .moved n, .granted] =
      some rep ∧ rep.outcome = .returned s ∧ LongestFreePrefix 0 s (w.line.take n)

theorem received_eq_returned {chunk s : Bytes} :
    received chunk = .returned s ↔
      (chunk.length < 2048 ∨ (0 : UInt8) ∈ chunk) ∧ s = cut 0 chunk := by
  rw [received]
  split
  · next h => simp [h, eq_comm]
  · next h => simp [h]

/-- **The scan of `string(read_buf)` is safe, and the answer is the text received,
exactly when the bytes do not fill `read_buf` or one of them is a NUL.** -/
theorem scansInside_iff (call : ℕ) (w : World) (n : ℕ) (h1 : 0 < n) (h2 : n ≤ 2048)
    (h3 : n ≤ w.line.length) :
    ScansInside call w n h2 ↔ n < 2048 ∨ (0 : UInt8) ∈ w.line.take n := by
  have hlen : (w.line.take n).length = n := List.length_take_of_le h3
  have hrun := execute_readSerialPort (i := call) h1 h2 h3
  constructor
  · rintro ⟨-, rep, s, hrep, hs, -⟩
    rw [hrun] at hrep
    obtain rfl := Option.some.inj hrep
    simpa [hlen] using (received_eq_returned.mp hs).1
  · intro h
    have hnul : (0 : UInt8) ∈ (w.readBuf n h2).bytes := by
      rw [World.readBuf, Block.mem_fill_zero, hlen]
      exact h
    refine ⟨⟨_, Block.terminator?_eq_cut hnul, ?_⟩, _, _, hrun, ?_, longestFreePrefix_iff.mpr rfl⟩
    · exact Block.terminator?_lt (Block.terminator?_eq_cut hnul)
    · exact received_eq_returned.mpr ⟨by rwa [hlen], rfl⟩

/-- Three bytes of a line are read: the text before the NUL comes back. -/
theorem scansInside_hi :
    ScansInside 0 { World.boot [] [] with line := [72, 105, 0, 72] } 3 (by decide) :=
  (scansInside_iff 0 _ 3 (by decide) (by decide) (by decide)).mpr (Or.inl (by decide))

/-- 2048 bytes other than NUL: the scan finds no terminator in `read_buf`. -/
theorem not_forall_scansInside :
    ¬ ∀ (call : ℕ) (w : World) (n : ℕ) (_ : 0 < n) (h : n ≤ 2048), n ≤ w.line.length →
      ScansInside call w n h := by
  intro hall
  let w : World := { World.boot [] [] with line := List.replicate 2048 65 }
  have hw : w.line.length = 2048 := List.length_replicate
  obtain ⟨⟨stop, hstop, -⟩, -⟩ := hall 0 w 2048 (by omega) (le_refl _) hw.ge
  have hnone : (w.readBuf 2048 (le_refl _)).terminator? = none := by
    rw [Block.terminator?_eq_none, World.readBuf, Block.mem_fill_zero,
      List.take_of_length_le hw.le, hw]
    rintro (hlt | h0)
    · omega
    · have h65 : (0 : UInt8) = 65 := List.eq_of_mem_replicate h0
      exact absurd h65 (by decide)
  simp [hnone] at hstop

/-! ## Reading what was written -/

/-- What a reader gets that takes as much of a frame as it can. -/
theorem received_take_frame (message : Bytes) :
    received ((frame 0 message).take (min 2048 (message.length + 1))) =
      if (cut 0 message).length ≤ 2047 then .returned (cut 0 message)
      else .aborted (.undefined .unterminated) := by
  have hlen : (frame 0 message).length = message.length + 1 := by simp [frame]
  have hcut : (cut 0 message).length ≤ message.length := (cut_isPrefix message).length_le
  split
  · next hle =>
    have hshort : (cut 0 (frame 0 message)).length < min 2048 (message.length + 1) := by
      rw [cut_frame_eq]; omega
    have hchunk := cut_take hshort
    rw [received_eq_returned, hchunk, cut_frame_eq]
    refine ⟨Or.inr ?_, rfl⟩
    by_contra hno
    have hself := congrArg List.length (cut_eq_self.mpr hno)
    rw [hchunk, cut_frame_eq, List.length_take, hlen] at hself
    omega
  · next hgt =>
    have hmin : min 2048 (message.length + 1) = 2048 := by omega
    have hpre : (frame 0 message).take 2048 <+: cut 0 message := by
      have hp : cut 0 message <+: frame 0 message := by
        simpa using cut_isPrefix (d := 0) (frame 0 message)
      exact List.prefix_of_prefix_length_le (List.take_prefix _ _) hp
        (by rw [List.length_take, hlen]; omega)
    have hno : (0 : UInt8) ∉ (frame 0 message).take 2048 := fun h0 =>
      not_mem_cut message (hpre.subset h0)
    have hfull : ¬ ((frame 0 message).take 2048).length < 2048 := by
      rw [List.length_take, hlen]; omega
    rw [hmin, received, if_neg (not_or.mpr ⟨hfull, hno⟩)]

/-- The memory at `c_str()` is the frame of the message. -/
theorem c_str_eq_frame (message : Bytes) : c_str message = frame 0 message := rfl

/-- What `writeSerialPort` hands to `write`, whatever its calls come to. -/
theorem write_of_mem_trace {call : ℕ} {w : World} {message : Bytes} {cs : List Choice}
    {rep : Report Action.Answer Abort Unit World}
    (h : execute (perform call) (writeSerialPort message) w cs = some rep)
    {fd : Int} {p : Bytes} {len : ℕ} {r : Int} (hmem : ⟨.write fd p len, r⟩ ∈ rep.trace) :
    p = frame 0 message ∧ len = message.length + 1 := by
  rw [← c_str_eq_frame]
  rcases (writeSerialPort_cases h).2 with ⟨errno, -, ht⟩ | ⟨-, ht⟩ | ⟨k, -, -, -, ht⟩ <;>
  · rw [ht] at hmem
    simp at hmem
    exact ⟨hmem.1.2.1, hmem.1.2.2⟩

/-- **Reading undoes writing exactly for the NUL-free messages of at most 2047 bytes.**
The line holds the whole frame that `writeSerialPort` handed to `write`, and `read`
takes as much of it as it can; a message with its first NUL at an index up to 2047
comes back cut there. -/
theorem read_undoes_write (message : Bytes) {call₀ : ℕ} {w₀ : World} {cs : List Choice}
    {rep₀ : Report Action.Answer Abort Unit World}
    (hwrite : execute (perform call₀) (writeSerialPort message) w₀ cs = some rep₀)
    {fd : Int} {p : Bytes} {len : ℕ} {r : Int} (hf : ⟨.write fd p len, r⟩ ∈ rep₀.trace)
    (call : ℕ) (w : World) (hline : w.line = p.take len) :
    len = message.length + 1 ∧ w.line.length = len ∧
      ((execute (perform call) readSerialPort w
          [.granted, .moved (min 2048 w.line.length), .granted]).map Report.outcome =
          some (.returned message) ↔ (0 : UInt8) ∉ message ∧ message.length ≤ 2047) ∧
      ∀ i ≤ 2047, message.findIdx? (fun b => b = 0) = some i →
        (execute (perform call) readSerialPort w
          [.granted, .moved (min 2048 w.line.length), .granted]).map Report.outcome =
          some (.returned (message.take i)) := by
  obtain ⟨rfl, rfl⟩ := write_of_mem_trace hwrite hf
  have hw : w.line = frame 0 message := by
    rw [hline, List.take_of_length_le (by simp [frame])]
  have hlen : w.line.length = message.length + 1 := by simp [hw, frame]
  have hrun := execute_readSerialPort (i := call) (w := w) (k := min 2048 w.line.length)
    (by omega) (by omega) (by omega)
  have hout : received (w.line.take (min 2048 w.line.length)) =
      if (cut 0 message).length ≤ 2047 then .returned (cut 0 message)
      else .aborted (.undefined .unterminated) := by
    rw [hlen, hw, received_take_frame]
  simp only [hrun, Option.map_some, hout]
  refine ⟨trivial, hlen, ?_, ?_⟩
  · constructor
    · intro h
      split at h
      · next hle =>
        have hself : cut 0 message = message := Outcome.returned.inj (Option.some.inj h)
        rw [hself] at hle
        exact ⟨cut_eq_self.mp hself, hle⟩
      · simp at h
    · rintro ⟨hno, hle⟩
      rw [cut_eq_self.mpr hno, if_pos hle]
  · intro i hi hfirst
    obtain ⟨-, rfl, htake⟩ := take_findIdx?_delim hfirst
    rw [if_pos hi, htake]

/-- The frame of a written `hi`, read back whole. -/
theorem read_undoes_write_hi :
    (execute (perform 1) readSerialPort { World.boot [] [] with line := [104, 105, 0] }
      [.granted, .moved 3, .granted]).map Report.outcome = some (.returned [104, 105]) := by
  have hwrite : execute (perform 0) (writeSerialPort [104, 105]) (World.boot [] [])
      [.granted, .moved 3, .granted, .granted] =
        some ⟨.returned (),
          { (World.boot [] []).reopened .wronly 0 with
            stream := [104, 105, 0], stdout := [.wrote 3] },
          [⟨.openPort .wronly, (0, 0)⟩, ⟨.write 0 [104, 105, 0] 3, (3 : Int)⟩,
            ⟨.printf (.wrote 3), ()⟩, ⟨.close 0, ()⟩]⟩ := by rfl
  have h := read_undoes_write [104, 105] hwrite
    (List.mem_cons_of_mem _ List.mem_cons_self) 1
    { World.boot [] [] with line := [104, 105, 0] } rfl
  exact h.2.2.1.mpr ⟨by decide, by decide⟩

end IceSerialPort
