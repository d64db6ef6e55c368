import IceSerialPort.Server

/-!
# Device queries one after another

The answer to a query is copied from the static array `buffer`, which outlives the call,
and `fscanf` leaves it alone when the response has no token. Over a history of queries
the array is therefore a cell that holds the last token seen (`latest`), and the server
answers with what the cell holds (`answerAfter_eq_latest`).

## Main results

* `answerAfter_eq_latest`: the server answers like the cell.
* `independentOfHistory_iff`: when an answer does not depend on the earlier queries.
* `everyQueryWhole_iff`: when every scan stays inside `buffer` and every token comes back.
-/

namespace IceSerialPort

open Effects CString Framing

/-- What a call's own fetch comes to: the exit status of `curl`, and what it has left
in `/tmp/device-info`. -/
structure Fetch where
  status : Int
  body : Bytes
  deriving DecidableEq

/-- The token of the response fits `buffer` with its NUL. -/
def Fetch.Fits (f : Fetch) : Prop := (token f.body).length < 128

instance (f : Fetch) : Decidable f.Fits := inferInstanceAs (Decidable (_ < _))

/-- A query served from its start to its end; its `fopen` succeeds. -/
def Server.query (s : Server) (f : Fetch) : Option (ServerReport × Server) :=
  system.serve s .readInfoFromDevice (fetchChoices f.status f.body)

/-- The server after a history of queries, one after another. -/
def Server.afterQueries (s : Server) (h : List Fetch) : Option Server :=
  Transition.run (fun s f => (Server.query s f).map Prod.snd) s h

/-- Queries one after another are a run of the server. -/
theorem reachable_afterQueries {s s' : Server} {h : List Fetch} (hs : s.Reachable)
    (hr : s.afterQueries h = some s') : s'.Reachable := by
  refine Transition.run_invariant_of_step (I := Server.Reachable) ?_ hs hr
  intro s₁ f s₂ hs₁ hstep
  rcases Option.map_eq_some_iff.mp hstep with ⟨⟨rep, s₃⟩, hq, rfl⟩
  rcases System.serve_run hq with ⟨es, hes⟩
  exact hs₁.run hes

/-- What the query with the fetch `f` ends with after the history `h`. -/
def answerAfter (s : Server) (h : List Fetch) (f : Fetch) : Option (Outcome Abort Reply) :=
  (s.afterQueries h).bind fun s' => (s'.query f).map fun p => p.1.outcome

/-! ## One query -/

/-- The text in `buffer` after a query, from the text before it. -/
def retain (text : Bytes) (f : Fetch) : Bytes :=
  if token f.body = [] then text else cut 0 (token f.body)

/-- What the scan of a fitting token leaves in an array that holds a string. -/
theorem text?_scan {b : Block 128} {text : Bytes} (f : Fetch) (hf : f.Fits)
    (ht : b.text? = some text) :
    ∃ b', b.storeAll (scanStores f.body) = some b' ∧ b'.text? = some (retain text f) := by
  by_cases htoken : token f.body = []
  · refine ⟨b, ?_, ?_⟩
    · rw [scanStores, if_pos htoken, Block.storeAll]
    · rw [retain, if_pos htoken, ht]
  · obtain ⟨b', hb', hbytes⟩ := storeAll_scanStores b htoken hf
    refine ⟨b', hb', ?_⟩
    rw [Block.text?_eq_cut (by simp [hbytes]), hbytes, cut_append_delim, retain, if_neg htoken]

/-- A query whose scan stays inside `buffer`. -/
theorem query_of_some {s : Server} {f : Fetch} {b : Block 128}
    (hb : s.world.buffer.storeAll (scanStores f.body) = some b) :
    ∃ rep s', s.query f = some (rep, s') ∧
      rep.outcome = (textOutcome b.text?).map Reply.text ∧
      s'.world.buffer = b ∧ s'.world.file = f.body := by
  obtain ⟨trace, hrun⟩ := execute_readInfoFromDevice_of_some s.calls.length f.status hb
  simp only [Server.query, System.serve, system_program, system_env, Operation.program,
    execute_map, hrun]
  exact ⟨_, _, rfl, rfl, rfl, rfl⟩

/-- A query whose scan leaves `buffer`. -/
theorem query_of_none {s : Server} {f : Fetch}
    (hb : s.world.buffer.storeAll (scanStores f.body) = none) :
    ∃ rep s', s.query f = some (rep, s') ∧
      rep.outcome = .aborted (.undefined .bufferOverrun) := by
  obtain ⟨world, trace, hrun⟩ :=
    execute_readInfoFromDevice_of_none s.calls.length f.status hb
  simp only [Server.query, System.serve, system_program, system_env, Operation.program,
    execute_map, hrun]
  exact ⟨_, _, rfl, rfl⟩

/-- **One query whose token fits**: the answer is what `buffer` then holds. -/
theorem query_of_fits {s : Server} {f : Fetch} {text : Bytes}
    (ht : s.world.buffer.text? = some text) (hf : f.Fits) :
    ∃ rep s', s.query f = some (rep, s') ∧
      rep.outcome = .returned (.text (retain text f)) ∧
      s'.world.buffer.text? = some (retain text f) ∧ s'.world.file = f.body := by
  obtain ⟨b, hb, htext⟩ := text?_scan f hf ht
  obtain ⟨rep, s', hq, hout, hbuf, hfile⟩ := query_of_some hb
  rw [htext] at hout
  exact ⟨rep, s', hq, hout, by rw [hbuf, htext], hfile⟩

/-! ## A history of queries -/

/-- The cell that `buffer` is: it holds the last token seen, up to its first NUL. -/
def latest (h : List Fetch) : Bytes := h.foldl retain []

/-- Queries whose tokens fit leave the cell's text in `buffer`. -/
theorem afterQueries_of_fits {s : Server} {text : Bytes} {h : List Fetch}
    (ht : s.world.buffer.text? = some text) (hh : ∀ f ∈ h, f.Fits) :
    ∃ s', s.afterQueries h = some s' ∧ s'.world.buffer.text? = some (h.foldl retain text) := by
  induction h generalizing s text with
  | nil => exact ⟨s, rfl, ht⟩
  | cons f h ih =>
      obtain ⟨rep, s₁, hq, -, ht₁, -⟩ := query_of_fits ht (hh f List.mem_cons_self)
      obtain ⟨s', hs', ht'⟩ := ih ht₁ fun e he => hh e (List.mem_cons_of_mem f he)
      refine ⟨s', ?_, ht'⟩
      simp only [Server.afterQueries, Transition.run_cons, hq, Option.map_some, Option.bind_some]
      exact hs'

/-- `buffer` is all NUL when the server starts. -/
theorem text?_boot (openAtStart : List Bool) (file : Bytes) :
    (Server.boot openAtStart file).world.buffer.text? = some [] :=
  Block.text?_zero (by omega)

section Answers

variable (openAtStart : List Bool) (file : Bytes)

/-- **The server answers like a cell that holds the last token seen.** -/
theorem answerAfter_eq_latest {h : List Fetch} {f : Fetch} (hh : ∀ e ∈ h, e.Fits)
    (hf : f.Fits) :
    answerAfter (Server.boot openAtStart file) h f =
      some (.returned (.text (latest (h ++ [f])))) := by
  obtain ⟨s, hs, ht⟩ := afterQueries_of_fits (text?_boot openAtStart file) hh
  obtain ⟨rep, s', hq, hout, -⟩ := query_of_fits ht hf
  rw [answerAfter, hs, Option.bind_some, hq, Option.map_some, hout, latest, List.foldl_append]
  rfl

/-- After any two histories of fitting queries the client gets the same answer. -/
def IndependentOfHistory (s : Server) (f : Fetch) : Prop :=
  ∀ h₁ h₂ : List Fetch, (∀ e ∈ h₁, e.Fits) → (∀ e ∈ h₂, e.Fits) →
    ∃ text, answerAfter s h₁ f = some (.returned (.text text)) ∧
      answerAfter s h₂ f = some (.returned (.text text))

/-- A fitting token takes the place of whatever the cell held. -/
theorem latest_append_token {h : List Fetch} {f : Fetch} (htoken : token f.body ≠ []) :
    latest (h ++ [f]) = cut 0 (token f.body) := by
  rw [latest, List.foldl_append, List.foldl_cons, List.foldl_nil, retain, if_neg htoken]

/-- A response without a token leaves the cell as it was. -/
theorem latest_append_no_token {h : List Fetch} {f : Fetch} (htoken : token f.body = []) :
    latest (h ++ [f]) = latest h := by
  rw [latest, List.foldl_append, List.foldl_cons, List.foldl_nil, retain, if_pos htoken]
  rfl

/-- With no token in its response, a first query is answered with nothing, and a query
after one that got `a` is answered with `a`. -/
theorem not_independentOfHistory {f : Fetch} (htoken : token f.body = []) :
    ¬ IndependentOfHistory (Server.boot openAtStart file) f := by
  intro hind
  have hf : f.Fits := by rw [Fetch.Fits, htoken]; decide
  have hh : ∀ e ∈ [(⟨0, [97]⟩ : Fetch)], e.Fits := by decide
  obtain ⟨text, h₁, h₂⟩ := hind [] [⟨0, [97]⟩] (by simp) hh
  rw [answerAfter_eq_latest openAtStart file (by simp) hf, latest_append_no_token htoken] at h₁
  rw [answerAfter_eq_latest openAtStart file hh hf, latest_append_no_token htoken] at h₂
  have heq : latest [] = latest [⟨0, [97]⟩] := by
    have h := h₁.trans h₂.symm
    simpa using h
  exact absurd heq (by decide)

/-- With a token that is too long a query does not return. -/
theorem fits_of_answerAfter {f : Fetch} {text : Bytes}
    (h : answerAfter (Server.boot openAtStart file) [] f = some (.returned (.text text))) :
    f.Fits := by
  by_contra hlong
  have hge : 128 ≤ (token f.body).length := by
    rw [Fetch.Fits] at hlong
    omega
  have hne : token f.body ≠ [] := by
    intro hnil
    simp [hnil] at hge
  have hb := storeAll_scanStores_eq_none (Server.boot openAtStart file).world.buffer hne hge
  obtain ⟨rep, s', hq, hout⟩ := query_of_none hb
  simp [answerAfter, Server.afterQueries, hq, hout] at h

/-- **An answer is independent of the queries before it exactly when its own response
has a token, and the token fits `buffer`.** -/
theorem independentOfHistory_iff (f : Fetch) :
    IndependentOfHistory (Server.boot openAtStart file) f ↔
      token f.body ≠ [] ∧ (token f.body).length < 128 := by
  constructor
  · intro hind
    refine ⟨fun htoken => not_independentOfHistory openAtStart file htoken hind, ?_⟩
    obtain ⟨text, h, -⟩ := hind [] [] (by simp) (by simp)
    exact fits_of_answerAfter openAtStart file h
  · intro ⟨htoken, hfits⟩ h₁ h₂ hh₁ hh₂
    refine ⟨cut 0 (token f.body), ?_, ?_⟩
    · rw [answerAfter_eq_latest openAtStart file hh₁ hfits, latest_append_token htoken]
    · rw [answerAfter_eq_latest openAtStart file hh₂ hfits, latest_append_token htoken]

end Answers

/-- The fetch fails and leaves nothing. -/
theorem not_forall_independentOfHistory :
    ¬ ∀ (openAtStart : List Bool) (file : Bytes) (f : Fetch),
      IndependentOfHistory (Server.boot openAtStart file) f := by
  intro hall
  exact not_independentOfHistory [] [] rfl (hall [] [] ⟨7, []⟩)

/-! ## Scans inside the array -/

/-- A successful query for `body` scans inside `buffer`, leaves a NUL in it, and returns
the first token of `body`. The stores are those of the file as the scan finds it. -/
structure ScannedWhole (body : Bytes) (rep : ServerReport) : Prop where
  stores : ∀ st ∈ scanStores rep.world.file, st.1 < 128
  terminated : ∃ i < 128, rep.world.buffer.bytes[i]? = some 0
  whole : rep.outcome = .returned (.text (token body))

/-- Each query of the sequence, made after those before it. -/
def EveryQueryWhole (s : Server) (bodies : List Bytes) : Prop :=
  ∀ before body after, bodies = before ++ body :: after →
    ∃ s₁ rep s₂, s.afterQueries (before.map (Fetch.mk 0)) = some s₁ ∧
      s₁.query ⟨0, body⟩ = some (rep, s₂) ∧ ScannedWhole body rep

theorem query_world {s s' : Server} {f : Fetch} {rep : ServerReport}
    (h : s.query f = some (rep, s')) : s'.world = rep.world := by
  simp only [Server.query, System.serve, Option.map_eq_some_iff, Prod.mk.injEq] at h
  obtain ⟨_, _, rfl, rfl⟩ := h
  rfl

/-- A text in an array ends at a NUL inside it. -/
theorem exists_nul_of_text? {b : Block 128} {text : Bytes} (h : b.text? = some text) :
    ∃ i < 128, b.bytes[i]? = some 0 := by
  have hmem : (0 : UInt8) ∈ b.bytes := by
    by_contra hno
    rw [Block.text?_eq_none.mpr hno] at h
    exact absurd h (by simp)
  obtain ⟨i, hi, hget⟩ := List.mem_iff_getElem.mp hmem
  refine ⟨i, by rwa [b.length_eq] at hi, ?_⟩
  rw [List.getElem?_eq_getElem hi, hget]

/-- A query for a token that fits and holds no NUL. -/
theorem query_scannedWhole {s : Server} {text body : Bytes} (status : Int)
    (ht : s.world.buffer.text? = some text) (hne : token body ≠ [])
    (hlen : (token body).length < 128) (hno : (0 : UInt8) ∉ token body) :
    ∃ rep s', s.query ⟨status, body⟩ = some (rep, s') ∧ ScannedWhole body rep := by
  obtain ⟨rep, s', hq, hout, htext, hfile⟩ := query_of_fits (f := ⟨status, body⟩) ht hlen
  rw [query_world hq] at htext hfile
  refine ⟨rep, s', hq, ?_, exists_nul_of_text? htext, ?_⟩
  · rw [hfile]
    exact (scanStores_lt_iff hne).mpr hlen
  · rw [hout, retain, if_neg hne, cut_eq_self.mpr hno]

/-- Only a token that fits and holds no NUL comes back whole. -/
theorem token_of_scannedWhole {s s' : Server} {body : Bytes} {status : Int}
    {rep : ServerReport} (hne : token body ≠ []) (hq : s.query ⟨status, body⟩ = some (rep, s'))
    (hw : ScannedWhole body rep) : (token body).length < 128 ∧ (0 : UInt8) ∉ token body := by
  have hlen : (token body).length < 128 := by
    by_contra hlong
    have hb := storeAll_scanStores_eq_none s.world.buffer hne (by omega)
    obtain ⟨rep', s'', hq', hout⟩ := query_of_none (f := ⟨status, body⟩) hb
    rw [hq, Option.some.injEq, Prod.mk.injEq] at hq'
    rw [← hq'.1, hw.whole] at hout
    exact absurd hout (by simp)
  refine ⟨hlen, ?_⟩
  obtain ⟨b, hb, hbytes⟩ := storeAll_scanStores s.world.buffer hne hlen
  obtain ⟨rep', s'', hq', hout, -⟩ := query_of_some (f := ⟨status, body⟩) hb
  rw [hq, Option.some.injEq, Prod.mk.injEq] at hq'
  rw [← hq'.1, hw.whole, Block.text?_eq_cut (by simp [hbytes]), hbytes, cut_append_delim] at hout
  have hself : token body = cut 0 (token body) := by
    simpa [textOutcome, Outcome.map] using hout
  exact cut_eq_self.mp hself.symm

section Scans

variable (openAtStart : List Bool) (file : Bytes)

/-- **In a sequence of successful queries every scan stays inside `buffer` and every
token comes back whole exactly when every token has at most 127 bytes and no NUL.** -/
theorem everyQueryWhole_iff (bodies : List Bytes) (hne : ∀ body ∈ bodies, token body ≠ []) :
    EveryQueryWhole (Server.boot openAtStart file) bodies ↔
      ∀ body ∈ bodies, (token body).length ≤ 127 ∧ (0 : UInt8) ∉ token body := by
  constructor
  · intro h body hbody
    obtain ⟨before, after, hsplit⟩ := List.append_of_mem hbody
    obtain ⟨s₁, rep, s₂, -, hq, hw⟩ := h before body after hsplit
    have htoken := token_of_scannedWhole (hne body hbody) hq hw
    exact ⟨by omega, htoken.2⟩
  · intro h before body after hsplit
    have hbody : body ∈ bodies := by simp [hsplit]
    have hbefore : ∀ f ∈ before.map (Fetch.mk 0), f.Fits := by
      intro f hf
      obtain ⟨body', hbody', rfl⟩ := List.mem_map.mp hf
      have hlen := (h body' (by simp [hsplit, hbody'])).1
      exact Nat.lt_succ_of_le hlen
    obtain ⟨s₁, hs₁, ht⟩ := afterQueries_of_fits (text?_boot openAtStart file) hbefore
    obtain ⟨hlen, hno⟩ := h body hbody
    obtain ⟨rep, s₂, hq, hw⟩ := query_scannedWhole 0 ht (hne body hbody) (by omega) hno
    exact ⟨s₁, rep, s₂, hs₁, hq, hw⟩

end Scans

/-- A long answer, then a short one after white space. -/
theorem everyQueryWhole_two :
    EveryQueryWhole (Server.boot [] []) [[97, 98, 99, 10], [32, 100, 10, 101]] :=
  (everyQueryWhole_iff [] [] _ (by decide)).mpr (by decide)

/-- A token of 128 bytes: its NUL is stored behind the end of `buffer`. -/
theorem not_forall_everyQueryWhole :
    ¬ ∀ (openAtStart : List Bool) (file : Bytes) (bodies : List Bytes),
      (∀ body ∈ bodies, token body ≠ []) →
        EveryQueryWhole (Server.boot openAtStart file) bodies := by
  intro hall
  have htoken : token (List.replicate 128 97) = List.replicate 128 97 := by
    apply token_eq_self
    intro c hc
    rw [List.eq_of_mem_replicate hc]
    decide
  have hne : token (List.replicate 128 97) ≠ [] := by
    rw [htoken]
    simp
  have hbodies : ∀ body ∈ [List.replicate 128 97], token body ≠ [] := by
    intro body hbody
    rw [List.mem_singleton.mp hbody]
    exact hne
  obtain ⟨s₁, rep, s₂, -, hq, hw⟩ :=
    hall [] [] [List.replicate 128 97] hbodies [] (List.replicate 128 97) [] rfl
  have hlen := (token_of_scannedWhole hne hq hw).1
  rw [htoken, List.length_replicate] at hlen
  omega

end IceSerialPort
