import Mathlib.Data.List.Basic
import Mathlib.Data.List.Infix
import Mathlib.Data.List.TakeWhile

/-!
# Messages ended by a delimiter

A message `m` is sent as the frame `m ++ [d]`. The stream of several messages is
the concatenation of their frames, and `split` reads the messages back off it. A
receiver that takes the stream in chunks and keeps, of each chunk, the part before
the first delimiter (`cut`) recovers the messages exactly when every chunk is one
whole frame: `cut_eq_of_whole` is one direction, `whole_of_cuts` the other.

## Main definitions

* `cut d bs`: the part of `bs` before its first delimiter, which is the longest
  delimiter-free prefix of `bs` (`longestFreePrefix_iff`).
* `frame d m`, `frames d ms`: one message on the wire, and a list of them.
* `split d bs`: the messages of the complete frames of `bs`.
* `Whole d c`: the chunk `c` is one frame.
-/

namespace Framing

variable {α : Type*} [DecidableEq α] {d : α}

/-- The part of `bs` before the first delimiter. -/
def cut (d : α) (bs : List α) : List α := bs.takeWhile fun b => b ≠ d

/-- A message on the wire. -/
def frame (d : α) (m : List α) : List α := m ++ [d]

/-- Several messages on the wire, in order. -/
def frames (d : α) (ms : List (List α)) : List α := ms.flatMap (frame d)

/-- The messages of the complete frames of a stream; an unfinished last one is left out. -/
def split (d : α) (bs : List α) : List (List α) := (bs.splitOn d).dropLast

/-- The chunk is exactly one frame: it ends at its first delimiter. -/
def Whole (d : α) (c : List α) : Prop := c = frame d (cut d c)

instance (c : List α) : Decidable (Whole d c) := inferInstanceAs (Decidable (c = _))

/-! ## Cutting at the first delimiter -/

theorem cut_isPrefix (bs : List α) : cut d bs <+: bs := List.takeWhile_prefix _

theorem not_mem_cut (bs : List α) : d ∉ cut d bs := by
  intro h
  simpa using List.mem_takeWhile_imp h

theorem cut_eq_self {bs : List α} : cut d bs = bs ↔ d ∉ bs := by
  rw [cut, List.takeWhile_eq_self_iff]
  constructor
  · intro h hd
    simpa using h d hd
  · intro h b hb
    simpa using fun hbd : b = d => h (hbd ▸ hb)

@[simp] theorem cut_delim_cons (bs : List α) : cut d (d :: bs) = [] := by simp [cut]

theorem cut_append {m : List α} (hm : d ∉ m) (bs : List α) : cut d (m ++ bs) = m ++ cut d bs := by
  rw [cut, List.takeWhile_append_of_pos]
  · rfl
  · intro b hb
    simpa using fun hbd : b = d => hm (hbd ▸ hb)

@[simp] theorem cut_append_delim_cons {m : List α} (hm : d ∉ m) (bs : List α) :
    cut d (m ++ d :: bs) = m := by
  rw [cut_append hm, cut_delim_cons, List.append_nil]

/-- A list with a delimiter is its cut, the delimiter, and the rest. -/
theorem exists_eq_cut_append {bs : List α} (h : d ∈ bs) : ∃ rest, bs = cut d bs ++ d :: rest := by
  induction bs with
  | nil => simp at h
  | cons b bs ih =>
      by_cases hb : b = d
      · subst hb
        exact ⟨bs, by simp⟩
      · have hmem : d ∈ bs := (List.mem_cons.mp h).resolve_left (Ne.symm hb)
        obtain ⟨rest, hrest⟩ := ih hmem
        refine ⟨rest, ?_⟩
        rw [show cut d (b :: bs) = b :: cut d bs by simp [cut, hb], List.cons_append, ← hrest]

/-- No delimiter-free prefix is longer than the cut. -/
theorem prefix_cut {p bs : List α} (hp : p <+: bs) (hd : d ∉ p) : p <+: cut d bs := by
  obtain ⟨rest, rfl⟩ := hp
  rw [cut_append hd]
  exact List.prefix_append _ _

/-- The first delimiter stands right after the cut. -/
theorem findIdx?_delim {bs : List α} (h : d ∈ bs) :
    bs.findIdx? (fun b => b = d) = some (cut d bs).length := by
  obtain ⟨rest, hrest⟩ := exists_eq_cut_append h
  have hno : List.findIdx? (fun b => decide (b = d)) (cut d bs) = none := by
    rw [List.findIdx?_eq_none_iff]
    intro b hb
    simpa using fun hbd : b = d => not_mem_cut bs (hbd ▸ hb)
  conv_lhs => rw [hrest]
  simp [List.findIdx?_append, hno, List.findIdx?_cons]

/-- Taking what stands before the first delimiter is cutting. -/
theorem take_findIdx?_delim {bs : List α} {i : ℕ} (h : bs.findIdx? (fun b => b = d) = some i) :
    d ∈ bs ∧ i = (cut d bs).length ∧ bs.take i = cut d bs := by
  have hmem : d ∈ bs := by
    obtain ⟨hi, hd, -⟩ := List.findIdx?_eq_some_iff_getElem.mp h
    have hbd : bs[i] = d := by simpa using hd
    exact hbd ▸ List.getElem_mem hi
  have hi : i = (cut d bs).length := by
    rw [findIdx?_delim hmem] at h
    exact (Option.some.inj h).symm
  refine ⟨hmem, hi, ?_⟩
  obtain ⟨rest, hrest⟩ := exists_eq_cut_append hmem
  conv_lhs => rw [hrest, hi, List.take_left]

/-- Nothing behind a delimiter changes what stands before the first one. -/
theorem cut_append_delim (bs rest : List α) : cut d (bs ++ d :: rest) = cut d bs := by
  by_cases h : d ∈ bs
  · obtain ⟨tail, htail⟩ := exists_eq_cut_append h
    conv_lhs => rw [htail, List.append_assoc, List.cons_append]
    exact cut_append_delim_cons (not_mem_cut bs) _
  · rw [cut_eq_self.mpr h]
    exact cut_append_delim_cons h rest

@[simp] theorem cut_frame_eq (bs : List α) : cut d (frame d bs) = cut d bs :=
  cut_append_delim bs []

/-- `s` is a delimiter-free prefix of `bs`, and every other one is a prefix of `s`. -/
structure LongestFreePrefix (d : α) (s bs : List α) : Prop where
  isPrefix : s <+: bs
  free : d ∉ s
  longest : ∀ p, p <+: bs → d ∉ p → p <+: s

theorem longestFreePrefix_iff {s bs : List α} : LongestFreePrefix d s bs ↔ s = cut d bs := by
  constructor
  · intro h
    have hle : s <+: cut d bs := prefix_cut h.isPrefix h.free
    exact hle.eq_of_length_le (h.longest _ (cut_isPrefix bs) (not_mem_cut bs)).length_le
  · rintro rfl
    exact ⟨cut_isPrefix bs, not_mem_cut bs, fun p hp hd => prefix_cut hp hd⟩

/-- A prefix long enough to hold the first delimiter has the same cut. -/
theorem cut_take {bs : List α} {n : ℕ} (h : (cut d bs).length < n) :
    cut d (bs.take n) = cut d bs := by
  by_cases hd : d ∈ bs
  · obtain ⟨rest, hrest⟩ := exists_eq_cut_append hd
    obtain ⟨k, hk⟩ : ∃ k, n = (cut d bs).length + (k + 1) := ⟨n - (cut d bs).length - 1, by omega⟩
    have htake : bs.take n = cut d bs ++ d :: rest.take k := by
      conv_lhs => rw [hrest, hk, List.take_length_add_append, List.take_succ_cons]
    rw [htake, cut_append_delim_cons (not_mem_cut bs)]
  · rw [cut_eq_self.mpr hd] at h
    rw [List.take_of_length_le h.le]

/-! ## Frames -/

omit [DecidableEq α] in
@[simp] theorem frames_nil : frames d ([] : List (List α)) = [] := rfl

omit [DecidableEq α] in
@[simp] theorem frames_cons (m : List α) (ms : List (List α)) :
    frames d (m :: ms) = m ++ d :: frames d ms := by
  simp [frames, frame]

omit [DecidableEq α] in
/-- A stream of frames ends with a delimiter. -/
theorem mem_of_suffix_frames {c : List α} {ms : List (List α)} (hne : c ≠ [])
    (h : c <:+ frames d ms) : d ∈ c := by
  rcases List.eq_nil_or_concat ms with rfl | ⟨init, m, rfl⟩
  · exact absurd (List.suffix_nil.mp h) hne
  · have hend : frames d (init.concat m) = (frames d init ++ m) ++ [d] := by
      simp [frames, frame]
    rw [hend, List.suffix_concat_iff] at h
    rcases h with hnil | ⟨t, rfl, -⟩
    · exact absurd hnil hne
    · simp

/-- **Splitting a stream of frames gives the messages back.** -/
theorem split_frames {ms : List (List α)} (hms : ∀ m ∈ ms, d ∉ m) : split d (frames d ms) = ms := by
  induction ms with
  | nil => simp [split]
  | cons m ms ih =>
      have hm : d ∉ m := hms m List.mem_cons_self
      have hrest : ∀ m' ∈ ms, d ∉ m' := fun m' h => hms m' (List.mem_cons_of_mem m h)
      have hfirst : (frames d (m :: ms)).splitOn d = m :: (frames d ms).splitOn d := by
        rw [frames_cons, List.splitOn_eq_splitOnP, List.splitOn_eq_splitOnP,
          List.splitOnP_append_cons_of_forall_mem _ d (by simp)]
        intro b hb
        simpa using fun hbd : b = d => hm (hbd ▸ hb)
      rw [split, hfirst, List.dropLast_cons_of_ne_nil (by simp), ← split, ih hrest]

/-- If the frames of `xs` begin the frames of `ms`, then `xs` begins `ms`. -/
theorem isPrefix_of_frames {xs ms : List (List α)} (hxs : ∀ x ∈ xs, d ∉ x)
    (hms : ∀ m ∈ ms, d ∉ m) (h : frames d xs <+: frames d ms) : xs <+: ms := by
  induction xs generalizing ms with
  | nil => exact List.nil_prefix
  | cons x xs ih =>
      cases ms with
      | nil =>
          obtain ⟨t, ht⟩ := h
          simp at ht
      | cons m ms =>
          obtain ⟨t, ht⟩ := h
          simp only [frames_cons, List.append_assoc, List.cons_append] at ht
          have hx : d ∉ x := hxs x List.mem_cons_self
          have hm : d ∉ m := hms m List.mem_cons_self
          have hxm : x = m := by
            have hcut := congrArg (cut d) ht
            rwa [cut_append_delim_cons hx, cut_append_delim_cons hm] at hcut
          subst hxm
          have htail : frames d xs <+: frames d ms :=
            ⟨t, (List.cons.inj (List.append_cancel_left ht)).2⟩
          rw [List.cons_prefix_cons]
          exact ⟨rfl, ih (fun y hy => hxs y (List.mem_cons_of_mem x hy))
            (fun y hy => hms y (List.mem_cons_of_mem x hy)) htail⟩

/-! ## Blocks cut short -/

omit [DecidableEq α] in
private theorem length_flatMap_take_le {β : Type*} (block : β → List α) (count : β → ℕ)
    (xs : List β) :
    (xs.flatMap fun x => (block x).take (count x)).length ≤ (xs.flatMap block).length := by
  induction xs with
  | nil => simp
  | cons x xs ih =>
      simp only [List.flatMap_cons, List.length_append]
      have hx := List.length_take_le' (count x) (block x)
      omega

omit [DecidableEq α] in
/-- **A stream of blocks that may be cut short is the stream of the blocks exactly when
none of them is.** -/
theorem flatMap_take_eq_iff {β : Type*} {block : β → List α} {count : β → ℕ} {xs : List β}
    (hle : ∀ x ∈ xs, count x ≤ (block x).length) :
    (xs.flatMap fun x => (block x).take (count x)) = xs.flatMap block ↔
      ∀ x ∈ xs, count x = (block x).length := by
  induction xs with
  | nil => simp
  | cons x xs ih =>
      rw [List.forall_mem_cons] at hle ⊢
      rw [List.flatMap_cons, List.flatMap_cons, ← ih hle.2]
      constructor
      · intro h
        have hrest := length_flatMap_take_le block count xs
        have hlen := congrArg List.length h
        simp only [List.length_append, List.length_take, Nat.min_eq_left hle.1] at hlen
        have hx : count x = (block x).length := by omega
        refine ⟨hx, ?_⟩
        rw [List.take_of_length_le hx.ge] at h
        exact List.append_cancel_left h
      · intro ⟨hx, hrest⟩
        rw [List.take_of_length_le hx.ge, hrest]

/-! ## Whole frames -/

theorem whole_frame {m : List α} (hm : d ∉ m) : Whole d (frame d m) := by
  simp [Whole, frame, hm]

theorem Whole.mem {c : List α} (h : Whole d c) : d ∈ c := by
  rw [h]
  simp [frame]

/-- Chunks that are whole frames concatenate to the frames of their cuts. -/
theorem flatten_of_whole {cs : List (List α)} (h : ∀ c ∈ cs, Whole d c) :
    cs.flatten = frames d (cs.map (cut d)) := by
  induction cs with
  | nil => rfl
  | cons c cs ih =>
      have hc : c = cut d c ++ [d] := h c List.mem_cons_self
      rw [List.flatten_cons, ih fun c' h' => h c' (List.mem_cons_of_mem c h'), List.map_cons,
        frames_cons]
      conv_lhs => rw [hc]
      simp

/-- **Cutting whole frames off a stream delivers a prefix of its messages.** -/
theorem cut_eq_of_whole {cs ms : List (List α)} (hms : ∀ m ∈ ms, d ∉ m)
    (hcs : ∀ c ∈ cs, Whole d c) (h : cs.flatten <+: frames d ms) : cs.map (cut d) <+: ms := by
  refine isPrefix_of_frames ?_ hms (by rwa [← flatten_of_whole hcs])
  intro x hx
  obtain ⟨c, -, rfl⟩ := List.mem_map.mp hx
  exact not_mem_cut c

/-- A chunk that starts at or before a frame and whose cut is the frame's message,
with the frame's end inside it or at its end, is the frame. -/
private theorem eq_frame_of_append {v c m : List α} (hne : m ≠ [])
    (hcut : cut d c = m) (h : v ++ c = frame d m) : v = [] ∧ c = frame d m := by
  have hcne : c ≠ [] := by
    rintro rfl
    exact hne (by simpa [cut] using hcut.symm)
  have hlast : c.getLast hcne = d := by
    have hl : (v ++ c).getLast? = some d := by simp [h, frame]
    rw [List.getLast?_append_of_ne_nil v hcne, List.getLast?_eq_some_getLast hcne] at hl
    exact Option.some.inj hl
  obtain ⟨rest, hrest⟩ := exists_eq_cut_append (hlast ▸ List.getLast_mem hcne : d ∈ c)
  have hlen := congrArg List.length h
  have hclen := congrArg List.length hrest
  simp only [hcut, frame, List.length_append, List.length_cons, List.length_nil] at hlen hclen
  have hv : v = [] := List.eq_nil_of_length_eq_zero (by omega)
  exact ⟨hv, by simpa [hv] using h⟩

/-- The induction behind `whole_of_cuts`: nothing of the stream was skipped before
the chunks, and each of them is a frame. -/
private theorem skipped_nil_and_whole {ms : List (List α)} (hne : ∀ m ∈ ms, m ≠ [])
    (hms : ∀ m ∈ ms, d ∉ m) (v : List α) (cs : List (List α)) (hcuts : cs.map (cut d) = ms)
    (h : v ++ cs.flatten = frames d ms) : v = [] ∧ ∀ c ∈ cs, Whole d c := by
  induction ms generalizing v cs with
  | nil =>
      obtain rfl : cs = [] := by simpa using hcuts
      exact ⟨by simpa using h, by simp⟩
  | cons m ms ih =>
      obtain ⟨c, cs, rfl⟩ : ∃ c cs', cs = c :: cs' := by
        cases cs with
        | nil => simp at hcuts
        | cons c cs => exact ⟨c, cs, rfl⟩
      obtain ⟨hc, hcs⟩ := List.cons.inj hcuts
      have hm : d ∉ m := hms m List.mem_cons_self
      have hmne : m ≠ [] := hne m List.mem_cons_self
      have hne' : ∀ m' ∈ ms, m' ≠ [] := fun m' h' => hne m' (List.mem_cons_of_mem m h')
      have hms' : ∀ m' ∈ ms, d ∉ m' := fun m' h' => hms m' (List.mem_cons_of_mem m h')
      have heq : (v ++ c) ++ cs.flatten = frame d m ++ frames d ms := by
        simpa [frame] using h
      rcases List.append_eq_append_iff.mp heq with ⟨u, hu, hrest⟩ | ⟨u, hu, hrest⟩
      · -- The chunk ends inside the first frame: only its delimiter can be left over,
        -- and then the next chunk would have an empty cut.
        by_cases hu0 : u = []
        · subst hu0
          rw [List.append_nil] at hu
          obtain ⟨hv, hcm⟩ := eq_frame_of_append hmne hc hu.symm
          obtain ⟨-, hwhole⟩ := ih hne' hms' [] cs hcs (by simpa using hrest)
          refine ⟨hv, ?_⟩
          rw [List.forall_mem_cons]
          exact ⟨hcm ▸ whole_frame hm, hwhole⟩
        · exfalso
          have hclen : m.length ≤ c.length := hc ▸ (cut_isPrefix c).length_le
          have hlen := congrArg List.length hu
          have hupos : 0 < u.length := List.length_pos_iff.mpr hu0
          simp only [frame, List.length_append, List.length_singleton] at hlen
          obtain ⟨x, rfl⟩ : ∃ x, u = [x] := List.length_eq_one_iff.mp (by omega)
          have hx : x = d := by
            have := congrArg List.getLast? hu
            simpa [frame] using this.symm
          subst hx
          cases cs with
          | nil => simp at hrest
          | cons c₂ cs₂ =>
              obtain ⟨m₂, ms₂, rfl⟩ : ∃ m₂ ms₂, ms = m₂ :: ms₂ :=
                ⟨_, _, hcs.symm⟩
              obtain ⟨hc₂, -⟩ := List.cons.inj hcs
              have hm₂ : m₂ ≠ [] := hne' m₂ List.mem_cons_self
              cases c₂ with
              | nil => exact hm₂ (by simpa [cut] using hc₂.symm)
              | cons b bs =>
                  have hb : b = x := (List.cons.inj (by simpa using hrest)).1
                  subst hb
                  exact hm₂ (by simpa using hc₂.symm)
      · -- The chunk reaches past the first frame by `u`, which the rest then skips.
        obtain ⟨rfl, hwhole⟩ := ih hne' hms' u cs hcs hrest.symm
        rw [List.append_nil] at hu
        obtain ⟨hv, hcm⟩ := eq_frame_of_append hmne hc hu
        refine ⟨hv, ?_⟩
        rw [List.forall_mem_cons]
        exact ⟨hcm ▸ whole_frame hm, hwhole⟩

/-- **Only whole frames deliver a whole stream.** If a stream is consumed in chunks
whose cuts are its messages, none of them empty, every chunk was one frame. -/
theorem whole_of_cuts {cs ms : List (List α)} (hne : ∀ m ∈ ms, m ≠ []) (hms : ∀ m ∈ ms, d ∉ m)
    (hcuts : cs.map (cut d) = ms) (h : cs.flatten = frames d ms) : ∀ c ∈ cs, Whole d c :=
  (skipped_nil_and_whole hne hms [] cs hcuts h).2

end Framing
