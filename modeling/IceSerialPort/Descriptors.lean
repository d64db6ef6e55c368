import IceSerialPort.Server

/-!
# The server's descriptors

Every operation opens one descriptor and closes it before it returns, on every path.
Calls interleave, and a number that one call closes may be handed to another at once.
The typestate `descriptors` says which number a call has in hand, read off the answers
its own calls got; the table then is a `Ledger` of what the calls hold.

## Main results

* `obeys_program`: each operation, on every path, uses only the number its `open`
  returned, and has closed it when it returns.
* `descriptors_owned`: in every reachable state the table holds what it held at start
  and one number for each call between its `open` and its `close`.
-/

namespace IceSerialPort

open Effects SlotTable Transition

/-- A `FILE *` as a number, -1 for `NULL`. -/
def streamNumber : Option ℕ → Int
  | none => -1
  | some n => n

/-- The number that an action acts on. -/
def Action.descriptor : Action → Option Int
  | .read fd _ => some fd
  | .write fd _ _ => some fd
  | .close fd => some fd
  | .fscanf ptr => some (streamNumber ptr)
  | .fclose ptr => some (streamNumber ptr)
  | _ => none

/-- What a call has in hand: the number its `open` or `fopen` returned, until it closes
it; -1 before, after, and when it was refused one. -/
def descriptors : Typestate Action Action.Answer Abort Reply Operation Int where
  start _ := -1
  can g
    | .openPort _ => g = -1
    | .fopen => g = -1
    | .read fd _ => fd = g
    | .write fd _ _ => fd = g
    | .close fd => fd = g
    | .fscanf ptr => streamNumber ptr = g
    | .fclose ptr => streamNumber ptr = g
    | _ => True
  next g
    | .openPort _, r => r.1
    | .fopen, ptr => streamNumber ptr
    | .close _, _ => -1
    | .fclose _, _ => -1
    | _, _ => g
  final g _ := g = -1
  abort _ _ := True

/-- An action of a call acts on the number the call has in hand. -/
theorem can_descriptor {g fd : Int} {a : Action} (hcan : descriptors.can g a)
    (hfd : a.descriptor = some fd) : fd = g := by
  cases a <;> simp only [Action.descriptor, Option.some.injEq, reduceCtorEq] at hfd <;>
    exact hfd ▸ hcan

/-- A number in hand, as a position of the table. -/
def position? (g : Int) : Option ℕ := if g < 0 then none else some g.toNat

/-- The descriptor that a call holds. -/
def Server.held (s : Server) (i : ℕ) : Option ℕ := (descriptors.stateAt s i).bind position?

/-! ## The operations -/

/-- The value a read returns is built after the port is closed. -/
theorem obeys_readRest (fd : Int) :
    descriptors.Obeys fd (readRest fd >>= fun s => .ret (Reply.text s)) := by
  refine ⟨rfl, fun got => ⟨rfl, fun _ => ?_⟩⟩
  by_cases hn : got.n > 0
  · simp only [hn, if_true]
    exact obeys_string_bind (fun s _ => rfl) fun _ => trivial
  · simp only [hn, if_false]
    exact rfl

theorem obeys_readSerialPort : descriptors.Obeys (-1) (Reply.text <$> readSerialPort) := by
  rw [readSerialPort_eq, map_eq_pure_bind, bind_assoc]
  exact obeys_openSerialPort_bind rfl (fun fd _ _ => obeys_readRest fd)
    fun fd _ _ => ⟨trivial, fun _ => obeys_readRest fd⟩

theorem obeys_writeSerialPort (message : Bytes) :
    descriptors.Obeys (-1) ((fun _ => Reply.ack) <$> writeSerialPort message) := by
  have hrest : ∀ fd, descriptors.Obeys fd (writeRest message fd >>= fun _ => .ret Reply.ack) :=
    fun fd => ⟨rfl, fun _ => ⟨trivial, fun _ => ⟨rfl, fun _ => rfl⟩⟩⟩
  rw [writeSerialPort_eq, map_eq_pure_bind, bind_assoc]
  exact obeys_openSerialPort_bind rfl (fun fd _ _ => hrest fd)
    fun fd _ _ => ⟨trivial, fun _ => hrest fd⟩

theorem obeys_readInfoFromDevice :
    descriptors.Obeys (-1) (Reply.text <$> readInfoFromDevice) := by
  simp only [readInfoFromDevice_eq, map_eq_pure_bind, Prog.call_bind, bind_assoc]
  refine ⟨trivial, fun _ => ⟨trivial, fun _ => ⟨rfl, fun ptr => ⟨rfl, fun r => ?_⟩⟩⟩⟩
  refine Sys.obeys_checked_bind (fun _ _ => ⟨rfl, fun r' => ?_⟩) fun _ _ => trivial
  refine Sys.obeys_checked_bind (fun _ _ => ⟨trivial, fun buffer => ?_⟩) fun _ _ => trivial
  exact obeys_string_bind (fun s _ => rfl) fun _ => trivial

/-- **Every operation uses only the number its own `open` returned, on every path, and
has closed it when it returns.** -/
theorem obeys_program (op : Operation) : descriptors.Obeys (descriptors.start op) op.program := by
  cases op with
  | readSerialPort => exact obeys_readSerialPort
  | writeSerialPort message => exact obeys_writeSerialPort message
  | readInfoFromDevice => exact obeys_readInfoFromDevice

/-! ## The table along a run -/

/-- The number is open in this world. -/
def World.IsOpen (w : World) (n : ℕ) : Prop := ∃ o, w.table.get n = some o

/-- The table holds what was open at start and what the calls hold. -/
def Server.Balanced (start : World) (s : Server) : Prop :=
  Ledger start.IsOpen OpenFile.opener s.held s.world.table

section Boot

variable (openAtStart : List Bool) (file : Bytes)

/-- No call has opened what is open at start. -/
theorem opener_boot {n : ℕ} {o : OpenFile}
    (h : (World.boot openAtStart file).table.get n = some o) : o = .inherited := by
  simp only [World.boot, Slots.get, List.getD_eq_getElem?_getD, List.getElem?_map] at h
  cases hn : openAtStart[n]? with
  | none => simp [hn] at h
  | some isOpen =>
      cases isOpen with
      | false => simp [hn] at h
      | true => simpa [hn, eq_comm] using h

theorem balanced_boot :
    (Server.boot openAtStart file).Balanced (World.boot openAtStart file) := by
  constructor
  · intro n
    constructor
    · intro ⟨o, ho, _⟩
      exact ⟨o, ho⟩
    · intro ⟨o, ho⟩
      exact ⟨o, ho, by rw [opener_boot _ _ ho, OpenFile.opener]⟩
  · intro n i
    constructor
    · intro ⟨o, ho, hopener⟩
      rw [opener_boot _ _ ho, OpenFile.opener] at hopener
      exact absurd hopener (by simp)
    · intro hheld
      simp [Server.boot, Server.held] at hheld

end Boot

section LedgerPerform

variable {base : ℕ → Prop} {held : ℕ → Option ℕ} {i : ℕ} {w w' : World} {g : Int}

/-- An action that leaves the table alone leaves its call with the number it had. -/
private theorem ledger_same (h : Ledger base OpenFile.opener held w.table)
    (hg : held i = position? g) (ht : w'.table = w.table) :
    Ledger base OpenFile.opener (Function.update held i (position? g)) w'.table := by
  rw [ht, ← hg, Function.update_eq_self]
  exact h

/-- A call that had no number and was refused one has none. -/
private theorem ledger_refused (h : Ledger base OpenFile.opener held w.table)
    (hg : held i = position? (-1)) :
    Ledger base OpenFile.opener (Function.update held i (position? (-1))) w.table :=
  ledger_same h hg rfl

/-- A call that had no number was handed the lowest free one. -/
private theorem ledger_opened (h : Ledger base OpenFile.opener held w.table)
    (hg : held i = position? (-1)) {o : OpenFile} (ho : o.opener = some i) :
    Ledger base OpenFile.opener
      (Function.update held i (position? (w.table.lowestFree : Int))) (w.table.alloc o) := by
  have hpos : position? (w.table.lowestFree : Int) = some w.table.lowestFree := by
    simp [position?, show ¬ ((w.table.lowestFree : Int) < 0) by omega]
  rw [hpos]
  exact h.alloc hg ho

/-- A call that had a number gave it back. -/
private theorem ledger_closed {n : ℕ} (h : Ledger base OpenFile.opener held w.table)
    (hg : held i = some n) :
    Ledger base OpenFile.opener (Function.update held i (position? (-1)))
      (w.table.release n) :=
  h.release hg

/-- **What one action does to the ledger**, when its call has in hand the number that
its own answers gave it. -/
theorem ledger_perform {a : Action} {c : Choice} {r : a.Answer}
    (h : Ledger base OpenFile.opener held w.table) (hg : held i = position? g) (hmin : -1 ≤ g)
    (hcan : descriptors.can g a) (hp : perform i w a c = some (r, w')) :
    Ledger base OpenFile.opener
        (Function.update held i (position? (descriptors.next g a r))) w'.table ∧
      -1 ≤ descriptors.next g a r := by
  cases a with
  | openPort mode =>
      have hg' : g = -1 := hcan
      subst hg'
      rcases perform_openPort.mp hp with ⟨-, rfl, rfl⟩ | ⟨errno, -, rfl, rfl⟩
      · refine ⟨ledger_opened h hg rfl, ?_⟩
        have hnat : (-1 : Int) ≤ (w.table.lowestFree : Int) := by omega
        exact hnat
      · exact ⟨ledger_refused h hg, Int.le_refl (-1)⟩
  | close fd =>
      have hfd : fd = g := hcan
      subst hfd
      refine ⟨?_, Int.le_refl (-1)⟩
      rcases perform_close.mp hp with ⟨-, rfl⟩
      by_cases hneg : fd < 0
      · have hnone : position? fd = position? (-1) := by simp [position?, hneg]
        rw [if_pos hneg]
        exact ledger_refused h (hg.trans hnone)
      · rw [if_neg hneg]
        have hsome : position? fd = some fd.toNat := by simp [position?, hneg]
        exact ledger_closed h (hg.trans hsome)
  | fopen =>
      have hg' : g = -1 := hcan
      subst hg'
      rcases perform_fopen.mp hp with ⟨-, rfl, rfl⟩ | ⟨errno, -, rfl, rfl⟩
      · refine ⟨ledger_opened h hg rfl, ?_⟩
        have hnat : (-1 : Int) ≤ (w.table.lowestFree : Int) := by omega
        exact hnat
      · exact ⟨ledger_refused h hg, Int.le_refl (-1)⟩
  | fclose ptr =>
      have hptr : streamNumber ptr = g := hcan
      refine ⟨?_, Int.le_refl (-1)⟩
      rcases (perform_fclose.mp hp).2 with ⟨rfl, -, rfl⟩ | ⟨p, rfl, -, -, rfl⟩
      · subst hptr
        exact ledger_refused h hg
      · subst hptr
        have hsome : position? (streamNumber (some p)) = some p := by
          simp [position?, streamNumber, show ¬ ((p : Int) < 0) by omega]
        exact ledger_closed h (hg.trans hsome)
  | _ => exact ⟨ledger_same h hg ((perform_sameBut hp).table (by simp [Action.part])), hmin⟩

end LedgerPerform

/-- The invariant of every run: the ledger balances, and a number in hand is -1 or an
entry's. -/
structure Server.Kept (start : World) (s : Server) : Prop where
  balanced : s.Balanced start
  number : ∀ i g, descriptors.stateAt s i = some g → -1 ≤ g

theorem held_update {f : ℕ → Option Int} (i : ℕ) (g : Int) :
    (fun m => (Function.update f i (some g) m).bind position?) =
      Function.update (fun m => (f m).bind position?) i (position? g) := by
  funext m
  by_cases hm : m = i
  · subst hm
    simp
  · simp [Function.update_of_ne hm]

theorem Server.held_eq (s : Server) :
    s.held = fun m => (descriptors.stateAt s m).bind position? := rfl

/-- **The ledger balances along every run.** -/
theorem run_kept {openAtStart : List Bool} {file : Bytes} {es : List ServerEvent} {s : Server}
    (h : (Server.boot openAtStart file).run es = some s) :
    descriptors.Typed s ∧ s.Kept (World.boot openAtStart file) := by
  refine Typestate.typed_run (C := fun _ _ => True) (I := Server.Kept (World.boot openAtStart file))
    obeys_program ?outside ?spawn ?act ?boot always_true h
  case outside =>
    intro (s : Server) bs w _ hI _ hw
    rw [system_outside, Option.some.injEq] at hw
    subst hw
    exact ⟨hI.balanced, hI.number⟩
  case spawn =>
    intro (s : Server) op hT hI _
    have hstate := Typestate.stateAt_spawn hT op (system.program op)
    have hold : descriptors.stateAt s s.calls.length = none := by simp [Typestate.stateAt]
    constructor
    · have hnone : s.held s.calls.length = position? (-1) := by simp [Server.held, hold, position?]
      rw [Server.Balanced, Server.held_eq, hstate]
      exact (held_update s.calls.length (-1)) ▸ ledger_same hI.balanced hnone rfl
    · intro i g hg
      rw [hstate] at hg
      by_cases hi : i = s.calls.length
      · subst hi
        have hg' : -1 = g := by simpa [descriptors] using hg
        omega
      · rw [Function.update_of_ne hi] at hg
        exact hI.number i g hg
  case act =>
    intro (s : Server) i c op a k r w g hT hI _ hc hg hcan hp
    have hstate := Typestate.stateAt_act hc hg r w
    have hheld : s.held i = position? g := by simp [Server.held, hg]
    have hstep := ledger_perform hI.balanced hheld (hI.number i g hg) hcan hp
    constructor
    · rw [Server.Balanced, Server.held_eq, hstate, held_update]
      exact hstep.1
    · intro m g' hg'
      rw [hstate] at hg'
      by_cases hm : m = i
      · subst hm
        have heq : descriptors.next g a r = g' := by simpa using hg'
        exact heq ▸ hstep.2
      · rw [Function.update_of_ne hm] at hg'
        exact hI.number m g' hg'
  case boot => exact ⟨balanced_boot openAtStart file, by simp⟩

/-- The descriptors in a state of a server that was started in the world `start`. -/
structure DescriptorsOwned (start : World) (s : Server) : Prop where
  /-- Open are those open at start and those that calls hold. -/
  isOpen : ∀ n, s.world.IsOpen n ↔ start.IsOpen n ∨ ∃ i, s.held i = some n
  /-- A number is held by one call only. -/
  distinct : ∀ i j n, s.held i = some n → s.held j = some n → i = j
  /-- No call holds a number that was open at start. -/
  fresh : ∀ i n, s.held i = some n → ¬ start.IsOpen n
  /-- A call acts on the entry that it opened itself. -/
  own : ∀ i op a k (fd : Int), s.calls[i]? = some ⟨op, .call a k⟩ → a.descriptor = some fd →
    fd ≠ -1 → ∃ n o, fd = (n : ℕ) ∧ s.held i = some n ∧ s.world.table.get n = some o ∧
      o.opener = some i
  /-- With no call in progress the table is as it was at start. -/
  restored : s.Idle → ∀ n, s.world.table.get n = start.table.get n

/-- A call that has returned holds nothing. -/
theorem held_of_idle {s : Server} (hT : descriptors.Typed s) (hidle : s.Idle) (i : ℕ) :
    s.held i = none := by
  cases hc : s.calls[i]? with
  | none => simp [Server.held, Typestate.stateAt, hc]
  | some c =>
      rcases c with ⟨op, p⟩
      rcases Prog.returned_iff.mp (hidle _ (List.mem_of_getElem? hc)) with ⟨reply, hp⟩
      obtain ⟨g, hg⟩ := Typestate.exists_stateAt (T := descriptors) hc
      have hg' : g = -1 := hT.final_of_ret hc hg hp
      simp [Server.held, hg, hg', position?]

/-- **No descriptor leaks, and no call touches one that is not its own.** -/
theorem descriptors_owned {openAtStart : List Bool} {file : Bytes} {es : List ServerEvent}
    {s : Server} (h : (Server.boot openAtStart file).run es = some s) :
    DescriptorsOwned (World.boot openAtStart file) s := by
  rcases run_kept h with ⟨hT, hK⟩
  have hB : Ledger (World.boot openAtStart file).IsOpen OpenFile.opener s.held s.world.table :=
    hK.balanced
  refine ⟨hB.in_use, fun i j n => hB.eq_of_held, fun i n => hB.not_base_of_held, ?_, ?_⟩
  · intro i op a k fd hc hfd hne
    obtain ⟨g, hg⟩ := Typestate.exists_stateAt (T := descriptors) hc
    have hcan : descriptors.can g a := hT.can_of_call hc hg rfl
    have hin : fd = g := can_descriptor hcan hfd
    have hmin := hK.number i g hg
    have hpos : ¬ g < 0 := by omega
    have hheld : s.held i = some g.toNat := by simp [Server.held, hg, position?, hpos]
    rcases (hB.owned g.toNat i).mpr hheld with ⟨o, ho, hopener⟩
    exact ⟨g.toNat, o, by omega, hheld, ho, hopener⟩
  · intro hidle n
    have hin : s.world.IsOpen n ↔ (World.boot openAtStart file).IsOpen n := by
      rw [World.IsOpen, hB.in_use]
      simp [held_of_idle hT hidle]
    cases hstart : (World.boot openAtStart file).table.get n with
    | some o =>
        rcases (hB.unowned n).mpr ⟨o, hstart⟩ with ⟨o', ho', hopener⟩
        rw [ho', opener_boot _ _ hstart]
        cases o' with
        | inherited => rfl
        | port mode call => simp [OpenFile.opener] at hopener
        | stream call => simp [OpenFile.opener] at hopener
    | none =>
        cases ho : s.world.table.get n with
        | none => rfl
        | some o =>
            rcases hin.mp ⟨o, ho⟩ with ⟨o', ho'⟩
            rw [hstart] at ho'
            exact absurd ho' (by simp)

/-- A read and a write in progress at once: they hold the two numbers after those open
at start. -/
theorem descriptors_owned_two_calls :
    ∃ s : Server, (Server.boot [true, true, true] []).run
        [.spawn .readSerialPort, .spawn (.writeSerialPort [104, 105]), .act 1 .granted,
          .act 0 .granted, .outside [104, 0], .act 0 (.moved 2)] = some s ∧
      s.held 1 = some 3 ∧ s.held 0 = some 4 ∧
      DescriptorsOwned (World.boot [true, true, true] []) s := by
  have hrun : (Server.boot [true, true, true] []).run
      [.spawn .readSerialPort, .spawn (.writeSerialPort [104, 105]), .act 1 .granted,
        .act 0 .granted, .outside [104, 0], .act 0 (.moved 2)] = some _ := rfl
  exact ⟨_, hrun, by rfl, by rfl, descriptors_owned hrun⟩

end IceSerialPort
