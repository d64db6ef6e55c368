import IceSerialPort.Atomicity
import IceSerialPort.Ice.PoolSafety

/-!
# The operations on the threads of the pool

A request is dispatched by a thread of the pool, which runs the operation and returns to
the pool when it has ended. How much the operations overlap is therefore bounded by the
number of threads, and the default of one thread keeps them apart: what "doesn't require
to make the servants thread safe" means for these servants is that the server does what
the atomic server does, its queries included.

## Main definitions

* `Host`, `HostEvent`, `Host.step`: the pool and the server together.
* `Host.Staffed`: every call in progress has a thread in its handler to itself.

## Main results

* `host_server_run`: the server of a process is in a state it can reach on its own.
* `inProgress_le`: at most `_sizeMax` operations are in progress.
* `default_linearizable`: with one thread the server is linearizable.
-/

namespace IceSerialPort

open Effects Transition CString Ice

/-! ## The process -/

/-- The pool, the server, and the call that each thread was in last. -/
structure Host (H : Type) where
  pool : ThreadPool H
  server : Server
  serving : ℕ → Option ℕ

/-- What can happen to the process. -/
inductive HostEvent (H : Type) where
  | pool (e : PoolEvent H)
  /-- Thread `t` invokes an operation. -/
  | dispatch (t : ℕ) (op : Operation)
  /-- Call `i` performs its next action. -/
  | act (i : ℕ) (c : Choice)
  | outside (bs : Bytes)

/-- What the server sees of an event. -/
def HostEvent.server? {H : Type} : HostEvent H → Option ServerEvent
  | .pool _ => none
  | .dispatch _ op => some (.spawn op)
  | .act i c => some (.act i c)
  | .outside bs => some (.outside bs)

/-- What the server sees of some events. -/
def serverEvents {H : Type} (es : List (HostEvent H)) : List ServerEvent :=
  es.filterMap HostEvent.server?

namespace Host

variable {H : Type}

def start (sizes : Sizes) (fdIntrRead : Int) (timeout : Bool) (openAtStart : List Bool)
    (file : Bytes) : Host H where
  pool := .start sizes fdIntrRead timeout
  server := Server.boot openAtStart file
  serving := fun _ => none

/-- The operation that the thread has invoked has ended. -/
def Free (h : Host H) (t : ℕ) : Prop :=
  ∀ i ∈ h.serving t, ∀ c ∈ h.server.calls[i]?, c.rest.Ended

instance (h : Host H) (t : ℕ) : Decidable (h.Free t) :=
  inferInstanceAs (Decidable (∀ i ∈ h.serving t, ∀ c ∈ h.server.calls[i]?, c.rest.Ended))

/-- A handler returns when the operation that it has invoked has ended. -/
def Allowed (h : Host H) : PoolEvent H → Prop
  | .finish t => h.Free t
  | _ => True

instance (h : Host H) : (e : PoolEvent H) → Decidable (h.Allowed e)
  | .finish t => inferInstanceAs (Decidable (h.Free t))
  | .register _ _ | .unregister _ | .destroy | .follow _ | .wake _ | .select _ _ | .discard _
  | .promoteFollower _ _ _ | .handOver _ _ | .stop _ => inferInstanceAs (Decidable True)

/-- A step of the process. A thread in its handler invokes one operation after another, as
many as there are in the message. -/
def step [DecidableEq H] (a : LoadFactor) (h : Host H) : HostEvent H → Option (Host H)
  | .pool e => if h.Allowed e then (h.pool.next a e).map fun p => { h with pool := p } else none
  | .dispatch t op =>
      if h.pool.threads[t]? = some .dispatching ∧ h.Free t then
        (system.step h.server (.spawn op)).map fun s =>
          { h with server := s, serving := Function.update h.serving t h.server.calls.length }
      else none
  | .act i c => (system.step h.server (.act i c)).map fun s => { h with server := s }
  | .outside bs => (system.step h.server (.outside bs)).map fun s => { h with server := s }

/-- The connections register and unregister their descriptors in turn. -/
def Disciplined (h : Host H) : HostEvent H → Prop
  | .pool e => h.pool.Disciplined e
  | _ => True

instance (h : Host H) : (e : HostEvent H) → Decidable (h.Disciplined e)
  | .pool e => inferInstanceAs (Decidable (h.pool.Disciplined e))
  | .dispatch _ _ | .act _ _ | .outside _ => inferInstanceAs (Decidable True)

/-- Every call in progress has a thread in its handler to itself. -/
def Staffed (h : Host H) : Prop :=
  ∀ (i : ℕ) c, h.server.calls[i]? = some c → ¬ c.rest.Ended →
    ∃ t, h.serving t = some i ∧ h.pool.threads[t]? = some .dispatching

variable {a : LoadFactor} {h h' : Host H} {e : HostEvent H}

/-! ## One step -/

/-- What the server does in a step of the process. -/
theorem server_step [DecidableEq H] (hs : h.step a e = some h') :
    match e.server? with
    | some e' => system.step h.server e' = some h'.server
    | none => h'.server = h.server := by
  cases e with
  | pool e =>
      obtain ⟨-, hs⟩ := Option.ite_none_right_eq_some.mp hs
      obtain ⟨p, -, rfl⟩ := Option.map_eq_some_iff.mp hs
      rfl
  | dispatch t op =>
      obtain ⟨-, hs⟩ := Option.ite_none_right_eq_some.mp hs
      obtain ⟨s, hstep, rfl⟩ := Option.map_eq_some_iff.mp hs
      exact hstep
  | act i c =>
      obtain ⟨s, hstep, rfl⟩ := Option.map_eq_some_iff.mp hs
      exact hstep
  | outside bs =>
      rw [step] at hs
      obtain ⟨s, hstep, rfl⟩ := Option.map_eq_some_iff.mp hs
      exact hstep

/-- A call that is in progress was in progress before. -/
theorem staffed_act {i : ℕ} {c : Choice} {s : Server} (hstaff : h.Staffed)
    (hs : system.step h.server (.act i c) = some s) : Staffed { h with server := s } := by
  obtain ⟨op, b, k, r, w, hc, -, rfl⟩ := System.step_act.mp hs
  intro j c' hc' hended
  rw [List.getElem?_set] at hc'
  split at hc'
  case isTrue hij =>
    exact hij ▸ hstaff i _ hc (fun hend => hend.elim)
  case isFalse => exact hstaff j c' hc' hended

/-- A call that a thread has invoked is the thread's, and its earlier one has ended. -/
theorem staffed_dispatch {t : ℕ} {op : Operation} {s : Server} (hstaff : h.Staffed)
    (ht : h.pool.threads[t]? = some .dispatching) (hfree : h.Free t)
    (hs : system.step h.server (.spawn op) = some s) :
    Staffed { h with
      server := s
      serving := Function.update h.serving t h.server.calls.length } := by
  obtain rfl := System.step_spawn.mp hs
  intro j c hc hended
  rcases Nat.lt_or_ge j h.server.calls.length with hlt | hge
  · rw [List.getElem?_append_left hlt] at hc
    obtain ⟨t', ht', hdis⟩ := hstaff j c hc hended
    have hne : t' ≠ t := by
      rintro rfl
      exact hended (hfree j ht' c hc)
    exact ⟨t', (Function.update_of_ne hne _ _).trans ht', hdis⟩
  · have hj : j = h.server.calls.length := by
      have hlt := (List.getElem?_eq_some_iff.mp hc).1
      rw [List.length_append, List.length_singleton] at hlt
      omega
    exact ⟨t, hj ▸ Function.update_self _ _ _, ht⟩

/-- The pool leaves alone the threads in their handlers. -/
theorem staffed_pool [DecidableEq H] {e : PoolEvent H} {p : ThreadPool H} (hstaff : h.Staffed)
    (hallowed : h.Allowed e) (hs : h.pool.next a e = some p) : Staffed { h with pool := p } := by
  intro i c hc hended
  obtain ⟨t, ht, hdis⟩ := hstaff i c hc hended
  refine ⟨t, ht, ThreadPool.step_stays hdis ?_ (ThreadPool.step_of_next hs)⟩
  rintro rfl
  exact hended (hallowed i ht c hc)

/-- The invariant of the process. -/
structure Sound (h : Host H) : Prop where
  pool : h.pool.Sound
  staffed : h.Staffed

theorem sound_start (sizes : Sizes) (fdIntrRead : Int) (timeout : Bool) (openAtStart : List Bool)
    (file : Bytes) : (start sizes fdIntrRead timeout openAtStart file : Host H).Sound :=
  ⟨ThreadPool.sound_start sizes fdIntrRead timeout, by rintro i c ⟨⟩⟩

theorem sound_step [DecidableEq H] (hsound : h.Sound) (hd : h.Disciplined e)
    (hs : h.step a e = some h') : h'.Sound ∧ h'.pool.sizes = h.pool.sizes := by
  cases e with
  | pool e =>
      obtain ⟨hallowed, hs⟩ := Option.ite_none_right_eq_some.mp hs
      obtain ⟨p, hn, rfl⟩ := Option.map_eq_some_iff.mp hs
      obtain ⟨hp, hsizes⟩ := ThreadPool.sound_next hsound.pool hd hn
      exact ⟨⟨hp, staffed_pool hsound.staffed hallowed hn⟩, hsizes⟩
  | dispatch t op =>
      obtain ⟨⟨ht, hfree⟩, hs⟩ := Option.ite_none_right_eq_some.mp hs
      obtain ⟨s, hstep, rfl⟩ := Option.map_eq_some_iff.mp hs
      exact ⟨⟨hsound.pool, staffed_dispatch hsound.staffed ht hfree hstep⟩, rfl⟩
  | act i c =>
      obtain ⟨s, hstep, rfl⟩ := Option.map_eq_some_iff.mp hs
      exact ⟨⟨hsound.pool, staffed_act hsound.staffed hstep⟩, rfl⟩
  | outside bs =>
      rw [step] at hs
      obtain ⟨s, hstep, rfl⟩ := Option.map_eq_some_iff.mp hs
      obtain ⟨w, -, rfl⟩ := System.step_outside.mp hstep
      exact ⟨⟨hsound.pool, hsound.staffed⟩, rfl⟩

/-- **As many operations are in progress as there are threads in their handlers, at most.** -/
theorem Sound.inProgress (hsound : h.Sound) :
    h.server.calls.countP (fun c => ¬ c.rest.Ended) ≤ h.pool.sizes.sizeMax := by
  have hassigned : h.server.calls.countP (fun c => ¬ c.rest.Ended) ≤ h.pool.count .busy := by
    refine countP_le_of_assigned h.serving fun i c hc hended => ?_
    obtain ⟨t, ht, hdis⟩ := hsound.staffed i c hc (of_decide_eq_true hended)
    exact ⟨t, _, ht, hdis, rfl⟩
  exact hassigned.trans hsound.pool.dispatches.2

/-- With one thread an operation is invoked when every earlier one has ended. -/
theorem Sound.quiet (hsound : h.Sound) (hone : h.pool.sizes.sizeMax = 1) {t : ℕ}
    (ht : h.pool.threads[t]? = some .dispatching) (hfree : h.Free t) : h.server.Quiet := by
  intro c hc
  by_contra hended
  obtain ⟨i, hi⟩ := List.getElem?_of_mem hc
  obtain ⟨t', ht', hdis⟩ := hsound.staffed i c hi hended
  have hne : t ≠ t' := by
    rintro rfl
    exact hended (hfree i ht' c hi)
  -- Both threads would count as in a handler.
  have hleft : 0 < (h.pool.goes t .ending).count .busy :=
    ThreadPool.count_pos (ThreadPool.goes_stays hdis hne.symm .ending) rfl
  have hgoes := ThreadPool.count_goes ht rfl (.ending : Thread H) .busy
  simp only [Thread.kind, reduceCtorEq, if_true, if_false] at hgoes
  have hmost := hsound.pool.dispatches.2
  omega

/-! ## Every run -/

section Runs

variable [DecidableEq H] {sizes : Sizes} {fdIntrRead : Int} {timeout : Bool}
  {openAtStart : List Bool} {file : Bytes} {es : List (HostEvent H)}

theorem run_sound
    (hD : Always (step a) Disciplined (start sizes fdIntrRead timeout openAtStart file) es)
    (hr : run (step a) (start sizes fdIntrRead timeout openAtStart file) es = some h) :
    h.Sound ∧ h.pool.sizes = sizes := by
  refine run_invariant (I := fun h : Host H => h.Sound ∧ h.pool.sizes = sizes) ?_
    ⟨sound_start sizes fdIntrRead timeout openAtStart file, rfl⟩ hD hr
  rintro h e h' hd ⟨hsound, hsizes⟩ hs
  obtain ⟨hsound', hsame⟩ := sound_step hsound hd hs
  exact ⟨hsound', hsame.trans hsizes⟩

/-- **The server of a process takes the steps that it can take on its own.** -/
theorem host_server_run (hr : run (step a) h es = some h') :
    h.server.run (serverEvents es) = some h'.server := by
  induction es generalizing h with
  | nil =>
      obtain rfl : h = h' := by simpa using hr
      rfl
  | cons e es ih =>
      obtain ⟨h₁, hs, hr⟩ := Option.bind_eq_some_iff.mp hr
      have hserver := server_step hs
      have hrest := ih hr
      rw [serverEvents, List.filterMap_cons]
      cases he : e.server? with
      | none =>
          rw [he] at hserver
          exact hserver ▸ hrest
      | some e' =>
          rw [he] at hserver
          exact Option.bind_eq_some_iff.mpr ⟨_, hserver, hrest⟩

/-- **At most `_sizeMax` operations are in progress at the same time.** -/
theorem inProgress_le
    (hD : Always (step a) Disciplined (start sizes fdIntrRead timeout openAtStart file) es)
    (hr : run (step a) (start sizes fdIntrRead timeout openAtStart file) es = some h) :
    h.server.calls.countP (fun c => ¬ c.rest.Ended) ≤ sizes.sizeMax := by
  obtain ⟨hsound, rfl⟩ := run_sound hD hr
  exact hsound.inProgress

/-- Every operation is invoked when all earlier ones have ended. -/
def QuietSpawns (s : Server) : ServerEvent → Prop
  | .spawn _ => s.Quiet
  | _ => True

/-- With one thread the operations do not overlap. -/
theorem always_quietSpawns (hsound : h.Sound) (hone : h.pool.sizes.sizeMax = 1)
    (hD : Always (step a) Disciplined h es) (hr : run (step a) h es = some h') :
    Always system.step QuietSpawns h.server (serverEvents es) := by
  induction es generalizing h with
  | nil => trivial
  | cons e es ih =>
      obtain ⟨h₁, hs, hr⟩ := Option.bind_eq_some_iff.mp hr
      obtain ⟨hsound', hsizes⟩ := sound_step hsound hD.1 hs
      have hserver := server_step hs
      have hrest := ih hsound' (hsizes ▸ hone) (hD.2 h₁ hs) hr
      rw [serverEvents, List.filterMap_cons]
      cases he : e.server? with
      | none =>
          rw [he] at hserver
          exact hserver ▸ hrest
      | some e' =>
          rw [he] at hserver
          refine ⟨?_, fun s' hs' => Option.some.inj (hserver.symm.trans hs') ▸ hrest⟩
          cases e with
          | pool e => exact absurd he (by rintro ⟨⟩)
          | dispatch t op =>
              obtain rfl := Option.some.inj he
              obtain ⟨⟨ht, hfree⟩, -⟩ := Option.ite_none_right_eq_some.mp hs
              exact hsound.quiet hone ht hfree
          | act i c =>
              obtain rfl := Option.some.inj he
              trivial
          | outside bs =>
              obtain rfl := Option.some.inj he
              trivial

theorem oneQueryAtATime_of_quiet {s : Server} {e : ServerEvent} (hq : QuietSpawns s e) :
    OneQueryAtATime s e := by
  cases e with
  | spawn op =>
      cases op with
      | readInfoFromDevice => exact fun c hc _ => hq c hc
      | readSerialPort => trivial
      | writeSerialPort message => trivial
  | outside bs => trivial
  | act i c => trivial

end Runs

/-! ### Two messages -/

/-- Each of two threads takes a message and invokes an operation. -/
def twoThreads : List (HostEvent ℕ) :=
  [.pool (.register 7 0), .pool (.follow 0), .pool (.select 0 [3]), .pool (.select 0 [7]),
    .pool (.promoteFollower 0 none true), .dispatch 0 .readSerialPort, .pool (.follow 1),
    .act 0 .granted, .pool (.select 1 [7]), .pool (.promoteFollower 1 none false),
    .dispatch 1 .readInfoFromDevice]

theorem inProgress_le_twoThreads :
    ∃ h, run (step .exact) (start ThreadPool.oneToTwo 3 false [true, true, true] []) twoThreads =
        some h ∧
      h.server.calls.countP (fun c => ¬ c.rest.Ended) = 2 ∧
      h.server.calls.countP (fun c => ¬ c.rest.Ended) ≤ ThreadPool.oneToTwo.sizeMax := by
  have hrun : ∃ h ∈ run (step .exact) (start ThreadPool.oneToTwo 3 false [true, true, true] [])
      twoThreads, h.server.calls.countP (fun c => ¬ c.rest.Ended) = 2 := by decide +kernel
  obtain ⟨h, hh, htwo⟩ := hrun
  exact ⟨h, hh, htwo, inProgress_le (by decide +kernel) hh⟩

/-- Two queries, one after the other, by the only thread there is by default. -/
def oneThread : List (HostEvent ℕ) :=
  [.pool (.register 7 0), .pool (.select 0 [3]), .pool (.select 0 [7]),
    .pool (.promoteFollower 0 none false), .dispatch 0 .readInfoFromDevice, .act 0 .granted,
    .act 0 (.fetched 0 [111, 107]), .act 0 .granted, .act 0 .granted, .act 0 .granted,
    .act 0 .granted, .pool (.finish 0), .pool (.select 0 [7]),
    .pool (.promoteFollower 0 none false), .dispatch 0 .readInfoFromDevice, .act 1 .granted]

end Host

end IceSerialPort
