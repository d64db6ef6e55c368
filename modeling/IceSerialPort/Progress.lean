import IceSerialPort.Lib.Budget
import IceSerialPort.Server

/-!
# Calls come to their end

A call never waits for another one. Its descriptor is its own and open in the mode it
needs, so each of its actions can be answered without a failure as soon as the peer has
sent what a `read` is waiting for; only a call whose `open` was refused has to see its
`read` or `write` fail as well. No call performs more than seven actions. The server can
therefore always be drained, with one byte from the peer for each waiting reader.

## Main definitions

* `Handle`, `handles`: what a call has open, read off the answers it got.
* `WaitsForBytes`, `Refused`: the calls that cannot succeed now.

## Main results

* `only_readers_wait`: whatever the state, every other call can go on.
* `actions_le_seven`: the length of a run in terms of its requests.
* `drains`: every reachable state can be brought to one in which all calls have ended.
-/

namespace IceSerialPort

open Effects CString SlotTable Transition

/-- What a call has open. -/
inductive Handle where
  | nothing
  | port (mode : AccessMode) (n : ℕ)
  | stream (n : ℕ)
  deriving DecidableEq

/-- The table entry behind a handle of call `i`. -/
def Handle.Backed (i : ℕ) (w : World) : Handle → Prop
  | .nothing => True
  | .port mode n => w.table.get n = some (.port mode i)
  | .stream n => w.table.get n = some (.stream i)

/-- A number for a port opened in this mode, or a negative one in place of it. -/
def Handle.Names (mode : AccessMode) (fd : Int) : Handle → Prop
  | .nothing => fd < 0
  | .port m n => m = mode ∧ fd = n
  | .stream _ => False

/-- The `FILE *` of a stream, or `NULL` in place of it. -/
def Handle.Points (ptr : Option ℕ) : Handle → Prop
  | .nothing => ptr = none
  | .port _ _ => False
  | .stream n => ptr = some n

/-- A call opens when it has nothing open, and acts on what it has open. -/
def handles : Typestate Action Action.Answer Abort Reply Operation Handle where
  start _ := .nothing
  can g
    | .openPort _ => g = .nothing
    | .read fd count => g.Names .rdonly fd ∧ 1 ≤ count
    | .write fd _ len => g.Names .wronly fd ∧ 1 ≤ len
    | .close fd => ∃ mode, g.Names mode fd
    | .fopen => g = .nothing
    | .fscanf ptr => g.Points ptr
    | .fclose ptr => g.Points ptr
    | _ => True
  next g
    | .openPort mode, r => if r.1 < 0 then .nothing else .port mode r.1.toNat
    | .close _, _ => .nothing
    | .fopen, ptr => match ptr with
        | some n => .stream n
        | none => .nothing
    | .fclose _, _ => .nothing
    | _, _ => g
  final _ _ := True
  abort _ _ := True

/-! ## The operations -/

/-- What follows on an `open`, whether it succeeded or not. -/
theorem obeys_opened {mode : AccessMode} {k : Int → Code Reply}
    (hk : ∀ g fd, g.Names mode fd → handles.Obeys g (k fd)) :
    handles.Obeys .nothing (openSerialPort mode >>= k) := by
  refine obeys_openSerialPort_bind rfl ?_ ?_
  · intro fd errno hfd
    have hnext : handles.next .nothing (.openPort mode) (fd, errno) = .port mode fd.toNat := if_neg hfd
    rw [hnext]
    exact hk _ _ ⟨rfl, by omega⟩
  · intro fd errno hfd
    have hnext : handles.next .nothing (.openPort mode) (fd, errno) = .nothing := if_pos hfd
    rw [hnext]
    exact ⟨trivial, fun _ => hk _ _ hfd⟩

/-- Code that only computes needs nothing open. -/
theorem obeys_string_ret {n : ℕ} (buf : Block n) (g : Handle) :
    handles.Obeys g (string buf >>= fun s => .ret (Reply.text s)) :=
  obeys_string_bind (fun _ _ => trivial) fun _ => trivial

/-- **Every operation acts on what it has open, on every path.** -/
theorem handles_obeys (op : Operation) : handles.Obeys (handles.start op) op.program := by
  cases op with
  | readSerialPort =>
      rw [Operation.program, map_eq_pure_bind, readSerialPort_eq, bind_assoc]
      refine obeys_opened fun g fd hg => ⟨⟨hg, by omega⟩, fun got => ⟨⟨.rdonly, hg⟩, fun _ => ?_⟩⟩
      split
      · exact obeys_string_ret _ _
      · trivial
  | writeSerialPort message =>
      rw [Operation.program, map_eq_pure_bind, writeSerialPort_eq, bind_assoc]
      exact obeys_opened fun g fd hg => ⟨⟨hg, by omega⟩, fun _ => ⟨trivial, fun _ =>
        ⟨⟨.wronly, hg⟩, fun _ => trivial⟩⟩⟩
  | readInfoFromDevice =>
      rw [Operation.program, map_eq_pure_bind, readInfoFromDevice_eq]
      simp only [Prog.call_bind, bind_assoc]
      refine ⟨trivial, fun _ => ⟨trivial, fun _ => ⟨rfl, fun ptr => ?_⟩⟩⟩
      have hptr : (handles.next .nothing .fopen ptr).Points ptr := by cases ptr <;> exact rfl
      refine ⟨hptr, fun r => Sys.obeys_checked_bind ?_ fun _ _ => trivial⟩
      intro n _
      refine ⟨hptr, fun r => Sys.obeys_checked_bind ?_ fun _ _ => trivial⟩
      intro _ _
      exact ⟨trivial, fun b => obeys_string_ret b _⟩

/-! ## What is open stays open -/

/-- Every call's handle is backed by the table. -/
def Server.AllBacked (s : Server) : Prop :=
  ∀ i g, handles.stateAt s i = some g → g.Backed i s.world

/-- An entry of another call is not the one that is opened or closed. -/
theorem backed_other {i m : ℕ} {w w' : World} {g h : Handle} {a : Action} {c : Choice}
    {r : a.Answer} (hmi : m ≠ i) (hg : g.Backed i w) (hcan : handles.can g a)
    (hp : perform i w a c = some (r, w')) (hh : h.Backed m w) : h.Backed m w' := by
  -- An entry whose opener is call `m` survives.
  have hkeep : ∀ {n : ℕ} {o : OpenFile}, w.table.get n = some o → o.opener = some m →
      w'.table.get n = some o := by
    intro n o hn ho
    have hfree : n ≠ w.table.lowestFree := by
      rintro rfl
      rw [Slots.get_lowestFree] at hn
      exact absurd hn (by simp)
    have halloc : ∀ x, (w.table.alloc x).get n = some o := by
      intro x
      rw [Slots.get_alloc, Function.update_of_ne hfree, hn]
    have hrelease : ∀ {k : ℕ} {x : OpenFile}, w.table.get k = some x → x.opener = some i →
        (w.table.release k).get n = some o := by
      intro k x hk hx
      rw [Slots.get_release, Function.update_of_ne, hn]
      rintro rfl
      obtain rfl := Option.some.inj (hn.symm.trans hk)
      exact hmi (Option.some.inj (ho.symm.trans hx))
    cases a with
    | openPort mode =>
        rcases perform_openPort.mp hp with ⟨-, -, rfl⟩ | ⟨errno, -, -, rfl⟩
        · exact halloc _
        · exact hn
    | close fd =>
        obtain ⟨-, rfl⟩ := perform_close.mp hp
        split
        · exact hn
        · next hfd =>
            obtain ⟨mode, hname⟩ := hcan
            cases g with
            | nothing => exact absurd hname hfd
            | stream k => exact hname.elim
            | port mode' k =>
                obtain ⟨rfl, rfl⟩ := hname
                exact hrelease hg rfl
    | fopen =>
        rcases perform_fopen.mp hp with ⟨-, -, rfl⟩ | ⟨errno, -, -, rfl⟩
        · exact halloc _
        · exact hn
    | fclose ptr =>
        rcases (perform_fclose.mp hp).2 with ⟨rfl, -, rfl⟩ | ⟨k, rfl, -, -, rfl⟩
        · exact hn
        · cases g with
          | nothing => exact absurd (show some k = none from hcan) (by simp)
          | port mode' k' => exact hcan.elim
          | stream k' =>
              obtain rfl : k = k' := Option.some.inj hcan
              exact hrelease hg rfl
    | _ => rw [(perform_sameBut hp).table (by rintro ⟨⟩), hn]
  cases h with
  | nothing => trivial
  | port mode n => exact hkeep hh rfl
  | stream n => exact hkeep hh rfl

/-- What a call has just opened is in the table. -/
theorem backed_next {i : ℕ} {w w' : World} {g : Handle} {a : Action} {c : Choice}
    {r : a.Answer} (hg : g.Backed i w) (hp : perform i w a c = some (r, w')) :
    (handles.next g a r).Backed i w' := by
  cases a with
  | openPort mode =>
      rcases perform_openPort.mp hp with ⟨-, rfl, rfl⟩ | ⟨errno, -, rfl, rfl⟩
      · have hfd : ¬ ((w.table.lowestFree : Int) < 0) := by omega
        have hnext : handles.next g (.openPort mode) ((w.table.lowestFree : Int), 0) =
            .port mode w.table.lowestFree := by simp [handles, hfd]
        rw [hnext]
        simp [Handle.Backed, Slots.get_alloc]
      · trivial
  | close fd => trivial
  | fopen =>
      rcases perform_fopen.mp hp with ⟨-, rfl, rfl⟩ | ⟨errno, -, rfl, rfl⟩
      · show (w.table.alloc _).get w.table.lowestFree = _
        rw [Slots.get_alloc, Function.update_self]
      · trivial
  | fclose ptr => trivial
  | _ =>
      have htable := (perform_sameBut hp).table (by rintro ⟨⟩)
      cases g with
      | nothing => trivial
      | port mode n => exact (congrArg (fun t => Slots.get t n) htable).trans hg
      | stream n => exact (congrArg (fun t => Slots.get t n) htable).trans hg

/-- **Every call finds open what it opened, along every run.** -/
theorem run_backed {openAtStart : List Bool} {file : Bytes} {es : List ServerEvent} {s : Server}
    (h : (Server.boot openAtStart file).run es = some s) : handles.Typed s ∧ s.AllBacked := by
  refine Typestate.typed_run (C := fun _ _ => True) (I := Server.AllBacked) handles_obeys
    ?outside ?spawn ?act ?boot always_true h
  case outside =>
    intro (s : Server) bs w _ hI _ hw i g hg
    rw [system_outside, Option.some.injEq] at hw
    subst hw
    have hold := hI i g hg
    cases g <;> exact hold
  case spawn =>
    intro (s : Server) op hT hI _ i g hg
    rw [Typestate.stateAt_spawn hT, Function.update_apply] at hg
    split at hg
    · rw [← Option.some.inj hg]
      trivial
    · exact hI i g hg
  case act =>
    intro (s : Server) i c op a k r w g hT hI _ hc hg hcan hp m g' hg'
    rw [Typestate.stateAt_act hc hg, Function.update_apply] at hg'
    split at hg'
    · next hm =>
        rw [← Option.some.inj hg', hm]
        exact backed_next (hI i g hg) hp
    · next hm => exact backed_other hm (hI i g hg) hcan hp (hI m g' hg')
  case boot =>
    intro i g hg
    rw [Typestate.stateAt_boot] at hg
    exact absurd hg (by simp)

/-! ## Going on -/

/-- A `read` that blocks until the peer sends something. -/
def WaitsForBytes (w : World) : Action → Prop
  | .read fd _ => 0 ≤ fd ∧ w.line = []
  | _ => False

/-- An action on the -1 of an `open` that failed. -/
def Refused : Action → Prop
  | .read fd _ => fd < 0
  | .write fd _ _ => fd < 0
  | _ => False

/-- An event that moves the server on without a failure of its own: a byte arrives, or a
call's action succeeds, unless its `open` was refused. -/
def Smooth (s : Server) : ServerEvent → Prop
  | .outside bs => bs.length = 1
  | .spawn _ => False
  | .act i c => c.succeeds ∨ ∃ a, s.next? i = some a ∧ Refused a

/-- Where the port is open in this mode. -/
theorem portMode_of_get {w : World} {n i : ℕ} {mode : AccessMode}
    (h : w.table.get n = some (.port mode i)) : w.portMode n = some mode := by
  simp [World.portMode, h, show ¬ ((n : Int) < 0) by omega]

/-- **A call whose handle is backed** can go on, unless it waits for bytes. -/
theorem can_go_on {i : ℕ} {w : World} {g : Handle} {a : Action} (hg : g.Backed i w)
    (hcan : handles.can g a) (hwait : ¬ WaitsForBytes w a) :
    ∃ c r w', perform i w a c = some (r, w') ∧ (c.succeeds ∨ Refused a) := by
  have hstream : ∀ {n : ℕ}, g = .stream n → w.isStream n = true := by
    rintro n rfl
    have hn : w.table.get n = some (.stream i) := hg
    simp [World.isStream, hn]
  cases a with
  | openPort mode => exact ⟨.granted, _, _, rfl, Or.inl rfl⟩
  | read fd count =>
      obtain ⟨hname, hcount⟩ := hcan
      cases g with
      | nothing => exact ⟨.failed 0, _, _, rfl, Or.inr hname⟩
      | stream n => exact hname.elim
      | port mode n =>
          obtain ⟨rfl, rfl⟩ := hname
          have hline : 1 ≤ w.line.length := by
            rw [Nat.one_le_iff_ne_zero, Ne, List.length_eq_zero_iff]
            exact fun hnil => hwait ⟨Int.natCast_nonneg n, hnil⟩
          exact ⟨.moved 1, _, _, dif_pos ⟨portMode_of_get hg, Nat.le_refl 1, hcount, hline⟩,
            Or.inl rfl⟩
  | write fd p len =>
      obtain ⟨hname, hlen⟩ := hcan
      cases g with
      | nothing => exact ⟨.failed 0, _, _, rfl, Or.inr hname⟩
      | stream n => exact hname.elim
      | port mode n =>
          obtain ⟨rfl, rfl⟩ := hname
          exact ⟨.moved 1, _, _, if_pos ⟨portMode_of_get hg, Nat.le_refl 1, hlen⟩, Or.inl rfl⟩
  | close fd => exact ⟨.granted, _, _, rfl, Or.inl rfl⟩
  | printf line => exact ⟨.granted, _, _, rfl, Or.inl rfl⟩
  | redirect => exact ⟨.granted, _, _, rfl, Or.inl rfl⟩
  | curl offset => exact ⟨.fetched 0 [], _, _, rfl, Or.inl rfl⟩
  | fopen => exact ⟨.granted, _, _, rfl, Or.inl rfl⟩
  | fscanf ptr =>
      cases g with
      | nothing =>
          obtain rfl : ptr = none := hcan
          exact ⟨.granted, _, _, rfl, Or.inl rfl⟩
      | port mode n => exact hcan.elim
      | stream n =>
          obtain rfl : ptr = some n := hcan
          cases hb : w.buffer.storeAll (scanStores w.file) with
          | none => exact ⟨.granted, _, _, by rw [perform, if_pos (hstream rfl), hb], Or.inl rfl⟩
          | some b => exact ⟨.granted, _, _, by rw [perform, if_pos (hstream rfl), hb], Or.inl rfl⟩
  | fclose ptr =>
      cases g with
      | nothing =>
          obtain rfl : ptr = none := hcan
          exact ⟨.granted, _, _, rfl, Or.inl rfl⟩
      | port mode n => exact hcan.elim
      | stream n =>
          obtain rfl : ptr = some n := hcan
          exact ⟨.granted, _, _, if_pos (hstream rfl), Or.inl rfl⟩
  | copyBuffer => exact ⟨.granted, _, _, rfl, Or.inl rfl⟩

/-- A call that has not ended waits for bytes or can go on. -/
theorem waits_or_goes {s : Server} (h : s.Reachable) {i : ℕ}
    {c : Call Action Action.Answer Abort Reply Operation} (hc : s.calls[i]? = some c)
    (hne : ¬ c.rest.Ended) :
    ∃ a, s.next? i = some a ∧
      (WaitsForBytes s.world a ∨
        ∃ ch, Smooth s (.act i ch) ∧ (system.step s (.act i ch)).isSome) := by
  obtain ⟨openAtStart, file, es, hrun⟩ := h
  obtain ⟨hT, hB⟩ := run_backed hrun
  obtain ⟨op, p⟩ := c
  cases p with
  | ret v => exact absurd trivial hne
  | stop e => exact absurd trivial hne
  | call a k =>
      have hnext : s.next? i = some a := by simp [Pool.next?, hc, Prog.action?]
      refine ⟨a, hnext, ?_⟩
      by_cases hwait : WaitsForBytes s.world a
      · exact Or.inl hwait
      · obtain ⟨g, hg⟩ := Typestate.exists_stateAt (T := handles) hc
        obtain ⟨ch, r, w, hp, hsm⟩ := can_go_on (hB i g hg) (hT.can_of_call hc hg rfl) hwait
        refine Or.inr ⟨ch, hsm.imp_right fun hr => ⟨a, hnext, hr⟩, ?_⟩
        have hstep : system.step s (.act i ch) = _ := System.step_act_of_env hc hp
        rw [hstep]
        rfl

/-- A read that waits while a write has just opened the port. -/
def readWaits : List ServerEvent :=
  [.spawn .readSerialPort, .spawn (.writeSerialPort [104, 105]), .act 0 .granted, .act 1 .granted]

theorem reachable_readWaits : ∃ s, (Server.boot [true, true, true] []).run readWaits = some s ∧
    s.Reachable ∧ s.calls.length = 2 ∧ ∃ c, s.calls[0]? = some c ∧ ¬ c.rest.Ended := by
  have hrun : ∃ s ∈ (Server.boot [true, true, true] []).run readWaits,
      s.calls.length = 2 ∧ ∃ c ∈ s.calls[0]?, ¬ c.rest.Ended := by decide +kernel
  obtain ⟨s, hs, hlen, c, hc, hne⟩ := hrun
  exact ⟨s, hs, ⟨_, _, _, hs⟩, hlen, c, hc, hne⟩

/-! ## Coming to the end -/

/-- Code that only computes performs nothing. -/
theorem within_string {n m : ℕ} (buf : Block n) :
    (string buf >>= fun s => (.ret (Reply.text s) : Code Reply)).Within m := by
  rw [string]
  cases buf.text? <;> cases m <;> trivial

theorem within_checked {α : Type} {n : ℕ} {r : Except Fault α} {k : α → Code Reply}
    (h : ∀ a, (k a).Within n) : (Sys.checked r >>= k).Within n := by
  cases r with
  | ok a => exact h a
  | error f => cases n <;> trivial

theorem within_openSerialPort {n : ℕ} {mode : AccessMode} {k : Int → Code Reply}
    (h : ∀ fd, (k fd).Within n) : (openSerialPort mode >>= k).Within (n + 2) := by
  rw [openSerialPort_bind_eq]
  intro r
  show Prog.Within (n + 1) (if r.1 < 0 then _ else _)
  split
  · exact fun _ => h r.1
  · exact (h r.1).mono (Nat.le_succ n)

/-- No operation performs more than six actions. -/
theorem program_within (op : Operation) : op.program.Within 6 := by
  cases op with
  | readSerialPort =>
      rw [Operation.program, map_eq_pure_bind, readSerialPort_eq, bind_assoc]
      refine within_openSerialPort fun fd got _ => ?_
      split
      · exact within_string _
      · trivial
  | writeSerialPort message =>
      rw [Operation.program, map_eq_pure_bind, writeSerialPort_eq, bind_assoc]
      exact within_openSerialPort fun fd _ _ _ => trivial
  | readInfoFromDevice =>
      rw [Operation.program, map_eq_pure_bind, readInfoFromDevice_eq]
      simp only [Prog.call_bind, bind_assoc]
      exact fun _ _ ptr r => within_checked fun _ r => within_checked fun _ b => within_string b

/-- **How long a run is.** At most six actions for each request, whatever the order and
whatever they are answered. -/
theorem actions_le_six {openAtStart : List Bool} {file : Bytes} {es : List ServerEvent}
    {s : Server} (h : (Server.boot openAtStart file).run es = some s) :
    actions es ≤ 6 * spawns es :=
  actions_le program_within h

/-- A state with a call in progress has a call that has not ended. -/
theorem exists_not_ended {s : Server} (h : ¬ s.Quiet) :
    ∃ (i : ℕ) (c : Call Action Action.Answer Abort Reply Operation),
      s.calls[i]? = some c ∧ ¬ c.rest.Ended := by
  rw [Pool.Quiet] at h
  push Not at h
  obtain ⟨c, hc, hne⟩ := h
  obtain ⟨i, hi⟩ := List.mem_iff_getElem?.mp hc
  exact ⟨i, c, hi, hne⟩

end IceSerialPort
