import IceSerialPort.Lib.Framing

/-!
# C character arrays and the strings in them

A `Block n` is a C array `char a[n]`: exactly `n` bytes, as a field of the
structure. A store or a scan that would leave the array has no result here, so
memory safety is part of what a function returns and not a side condition of it.

`text?` is what building a `std::string` from the array does: it scans for a NUL
and copies what stands before it, and it is `none` when the array holds no NUL,
where the scan would run past the end.

`scanStores` is the conversion `%s` of `scanf` in the C locale: skip white space,
then store bytes up to the next white space or the end of the input, then a NUL.

## Main definitions

* `Block n`, `Block.zero`, `Block.fill`, `Block.store`, `Block.storeAll`.
* `Block.terminator?`, `Block.text?`: the scan for the NUL, and the string.
* `isspace`, `token`, `scanStores`: the conversion `%s`.
-/

namespace CString

open Framing

/-- A C array of `n` bytes. -/
structure Block (n : ℕ) where
  bytes : List UInt8
  length_eq : bytes.length = n
  deriving DecidableEq

namespace Block

variable {n : ℕ}

/-- The array that `= {}` initialises: all NUL. -/
def zero (n : ℕ) : Block n := ⟨List.replicate n 0, List.length_replicate⟩

/-- Copy bytes to the start of an array that has room for them. -/
def fill (b : Block n) (bs : List UInt8) (h : bs.length ≤ n) : Block n :=
  ⟨bs ++ b.bytes.drop bs.length, by simp [b.length_eq, h]⟩

/-- Store one byte; there is no result when the index is outside the array. -/
def store (b : Block n) (i : ℕ) (v : UInt8) : Option (Block n) :=
  if i < n then some ⟨b.bytes.set i v, by simp [b.length_eq]⟩ else none

/-- Store bytes one after another, until one falls outside the array. -/
def storeAll (b : Block n) : List (ℕ × UInt8) → Option (Block n)
  | [] => some b
  | st :: sts => (b.store st.1 st.2).bind fun b' => b'.storeAll sts

/-- The index at which a scan for a NUL stops; `none` if it would leave the array. -/
def terminator? (b : Block n) : Option ℕ := b.bytes.findIdx? fun v => v = 0

/-- The string a scan of the array yields. -/
def text? (b : Block n) : Option (List UInt8) := b.terminator?.map fun i => b.bytes.take i

theorem terminator?_eq_none {b : Block n} : b.terminator? = none ↔ (0 : UInt8) ∉ b.bytes := by
  rw [terminator?, List.findIdx?_eq_none_iff]
  constructor
  · intro h h0
    simpa using h 0 h0
  · intro h v hv
    simpa using fun hv0 : v = 0 => h (hv0 ▸ hv)

/-- A scan that stops, stops inside the array. -/
theorem terminator?_lt {b : Block n} {i : ℕ} (h : b.terminator? = some i) : i < n := by
  obtain ⟨hi, -⟩ := List.findIdx?_eq_some_iff_getElem.mp h
  rwa [b.length_eq] at hi

/-- The scan stops right after the bytes before the first NUL. -/
theorem terminator?_eq_cut {b : Block n} (h : (0 : UInt8) ∈ b.bytes) :
    b.terminator? = some (cut 0 b.bytes).length := findIdx?_delim h

/-- **The string of an array with a NUL is what stands before the first one.** -/
theorem text?_eq_cut {b : Block n} (h : (0 : UInt8) ∈ b.bytes) :
    b.text? = some (cut 0 b.bytes) := by
  rw [text?, terminator?_eq_cut h, Option.map_some]
  exact congrArg some (take_findIdx?_delim (findIdx?_delim h)).2.2

theorem text?_eq_none {b : Block n} : b.text? = none ↔ (0 : UInt8) ∉ b.bytes := by
  rw [text?, Option.map_eq_none_iff, terminator?_eq_none]

/-- The string of an array that is all NUL is empty. -/
theorem text?_zero (h : 0 < n) : (zero n).text? = some [] := by
  have hmem : (0 : UInt8) ∈ (zero n).bytes := by simp [zero, Nat.ne_of_gt h]
  rw [text?_eq_cut hmem, cut, zero]
  cases n with
  | zero => exact absurd h (by omega)
  | succ m => simp [List.replicate_succ]

/-! ### Filling a zeroed array -/

@[simp] theorem bytes_fill_zero {bs : List UInt8} (h : bs.length ≤ n) :
    ((zero n).fill bs h).bytes = bs ++ List.replicate (n - bs.length) 0 := by
  simp [fill, zero]

theorem mem_fill_zero {bs : List UInt8} (h : bs.length ≤ n) :
    (0 : UInt8) ∈ ((zero n).fill bs h).bytes ↔ bs.length < n ∨ (0 : UInt8) ∈ bs := by
  rw [bytes_fill_zero, List.mem_append, List.mem_replicate]
  constructor
  · rintro (h0 | ⟨hne, -⟩)
    · exact Or.inr h0
    · exact Or.inl (by omega)
  · rintro (hlt | h0)
    · exact Or.inr ⟨by omega, rfl⟩
    · exact Or.inl h0

/-- The zeros behind the bytes end the string at the latest. -/
theorem cut_fill_zero {bs : List UInt8} (h : bs.length ≤ n) :
    cut 0 ((zero n).fill bs h).bytes = cut 0 bs := by
  rw [bytes_fill_zero]
  by_cases h0 : (0 : UInt8) ∈ bs
  · obtain ⟨rest, hrest⟩ := exists_eq_cut_append h0
    conv_lhs => rw [hrest, List.append_assoc, List.cons_append]
    exact cut_append_delim_cons (not_mem_cut bs) _
  · rw [cut_append h0, cut_eq_self.mpr h0]
    cases hn : n - bs.length with
    | zero => simp [cut]
    | succ k => simp [List.replicate_succ]

/-- **The string of a zeroed array filled with `bs`**: the NUL-free prefix of `bs`,
unless `bs` fills the array and holds no NUL. -/
theorem text?_fill_zero {bs : List UInt8} (h : bs.length ≤ n) :
    ((zero n).fill bs h).text? =
      if bs.length < n ∨ (0 : UInt8) ∈ bs then some (cut 0 bs) else none := by
  split
  · next hc => rw [text?_eq_cut ((mem_fill_zero h).mpr hc), cut_fill_zero]
  · next hc => rw [text?_eq_none, mem_fill_zero]; exact hc

/-! ### Storing at consecutive indices -/

/-- The stores that write `vs` from index `k` on. -/
def storesFrom : ℕ → List UInt8 → List (ℕ × UInt8)
  | _, [] => []
  | k, v :: vs => (k, v) :: storesFrom (k + 1) vs

theorem mem_storesFrom {k : ℕ} {vs : List UInt8} {st : ℕ × UInt8}
    (h : st ∈ storesFrom k vs) : k ≤ st.1 ∧ st.1 < k + vs.length := by
  induction vs generalizing k with
  | nil => simp [storesFrom] at h
  | cons v vs ih =>
      simp only [storesFrom, List.mem_cons] at h
      rcases h with rfl | h
      · simp
      · have := ih h
        simp only [List.length_cons]
        omega

/-- The last of the stores is at the last index. -/
theorem last_mem_storesFrom {k : ℕ} {vs : List UInt8} (hvs : vs ≠ []) :
    ∃ v, (k + vs.length - 1, v) ∈ storesFrom k vs := by
  induction vs generalizing k with
  | nil => exact absurd rfl hvs
  | cons v vs ih =>
      cases vs with
      | nil => exact ⟨v, by simp [storesFrom]⟩
      | cons v' vs =>
          obtain ⟨u, hu⟩ := ih (k := k + 1) (by simp)
          refine ⟨u, List.mem_cons_of_mem _ ?_⟩
          have heq : k + (v :: v' :: vs).length - 1 = k + 1 + (v' :: vs).length - 1 := by
            simp only [List.length_cons]; omega
          rwa [heq]

/-- Stores that fit overwrite their stretch of the array and leave the rest. -/
theorem storeAll_storesFrom (b : Block n) (k : ℕ) (vs : List UInt8) (h : k + vs.length ≤ n) :
    ∃ b', b.storeAll (storesFrom k vs) = some b' ∧
      b'.bytes = b.bytes.take k ++ vs ++ b.bytes.drop (k + vs.length) := by
  induction vs generalizing k b with
  | nil => exact ⟨b, rfl, by simp⟩
  | cons v vs ih =>
      simp only [List.length_cons] at h
      have hk : k < n := by omega
      have hkb : k < b.bytes.length := by rw [b.length_eq]; exact hk
      obtain ⟨b', hb', hbytes⟩ :=
        ih ⟨b.bytes.set k v, by simp [b.length_eq]⟩ (k + 1) (by omega)
      refine ⟨b', by simp [storesFrom, storeAll, store, hk, hb'], ?_⟩
      have htake : (b.bytes.set k v).take (k + 1) = b.bytes.take k ++ [v] := by
        rw [List.take_add_one, List.getElem?_set_self hkb, List.take_set_of_le (le_refl k)]
        rfl
      have hdrop : (b.bytes.set k v).drop (k + 1 + vs.length) = b.bytes.drop (k + 1 + vs.length) :=
        List.drop_set_of_lt (by omega)
      rw [hbytes, htake, hdrop, List.length_cons,
        show k + (vs.length + 1) = k + 1 + vs.length by omega]
      simp

/-- A store outside the array leaves no result. -/
theorem storeAll_eq_none {b : Block n} {sts : List (ℕ × UInt8)}
    (h : ∃ st ∈ sts, n ≤ st.1) : b.storeAll sts = none := by
  induction sts generalizing b with
  | nil => simp at h
  | cons st sts ih =>
      simp only [storeAll, store]
      split
      · next hlt =>
          obtain ⟨st', hmem, hge⟩ := h
          rcases List.mem_cons.mp hmem with rfl | hmem
          · omega
          · rw [Option.bind_some]
            exact ih ⟨st', hmem, hge⟩
      · rfl

end Block

/-! ## The conversion `%s` -/

/-- White space in the C locale: space, and the controls from `\t` to `\r`. -/
def isspace (c : UInt8) : Bool := c = 32 || (9 ≤ c && c ≤ 13)

/-- The first white-space-delimited token of the input; empty when there is none. -/
def token (bs : List UInt8) : List UInt8 :=
  (bs.dropWhile fun c => isspace c).takeWhile fun c => !isspace c

/-- The stores of the conversion `%s` into an array: the token and a NUL after it,
and none at all when the input ends before a token begins. -/
def scanStores (bs : List UInt8) : List (ℕ × UInt8) :=
  if token bs = [] then [] else Block.storesFrom 0 (token bs ++ [0])

/-- A text without white space is its own token. -/
theorem token_eq_self {bs : List UInt8} (h : ∀ c ∈ bs, isspace c = false) : token bs = bs := by
  have hdrop : bs.dropWhile (fun c => isspace c) = bs := by
    cases bs with
    | nil => rfl
    | cons c bs => simp [h c List.mem_cons_self]
  rw [token, hdrop, List.takeWhile_eq_self_iff]
  intro c hc
  simp [h c hc]

/-- **Every store of `%s` is inside an array of `n` bytes exactly when the token is
shorter than the array.** -/
theorem scanStores_lt_iff {n : ℕ} {bs : List UInt8} (hne : token bs ≠ []) :
    (∀ st ∈ scanStores bs, st.1 < n) ↔ (token bs).length < n := by
  rw [scanStores, if_neg hne]
  constructor
  · intro h
    have hstored : token bs ++ [0] ≠ [] := by simp
    obtain ⟨v, hv⟩ := Block.last_mem_storesFrom (k := 0) hstored
    simpa using h _ hv
  · intro h st hst
    have := Block.mem_storesFrom hst
    simp only [List.length_append, List.length_singleton] at this
    omega

/-- A token that fits is stored with its NUL, and the rest of the array stays. -/
theorem storeAll_scanStores {n : ℕ} (b : Block n) {bs : List UInt8} (hne : token bs ≠ [])
    (h : (token bs).length < n) :
    ∃ b', b.storeAll (scanStores bs) = some b' ∧
      b'.bytes = token bs ++ 0 :: b.bytes.drop ((token bs).length + 1) := by
  obtain ⟨b', hb', hbytes⟩ := b.storeAll_storesFrom 0 (token bs ++ [0])
    (by simp only [List.length_append, List.length_singleton]; omega)
  refine ⟨b', by rwa [scanStores, if_neg hne], ?_⟩
  simpa using hbytes

theorem storeAll_scanStores_eq_none {n : ℕ} (b : Block n) {bs : List UInt8}
    (hne : token bs ≠ []) (h : n ≤ (token bs).length) : b.storeAll (scanStores bs) = none := by
  have hout : ¬ ∀ st ∈ scanStores bs, st.1 < n := by
    rw [scanStores_lt_iff hne]
    omega
  apply Block.storeAll_eq_none
  push Not at hout
  exact hout

end CString
