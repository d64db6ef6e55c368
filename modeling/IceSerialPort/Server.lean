import IceSerialPort.Device

/-!
# The server

`main` registers two servants under one adapter and serves the clients' requests until
it is shut down. Every request runs one operation of a servant; the thread pool decides
how many run at once, so in general the operations' calls interleave. The server is
therefore a pool of programs over the `World`, and what happens to it from outside is
that the peer's bytes arrive on the serial line.

## Main definitions

* `Operation`, `Reply`, `Operation.program`: the remote operations of `Server.ice`.
* `system`, `Server`, `Server.boot`: the pool of operations over the `World`.
* `Server.Reachable`: the states of all its runs, however the calls interleave.
* `NoFailure`, `OnlyDispatches`: assumptions about the events of a run.
-/

namespace IceSerialPort

open Effects Transition

/-- The operations of the interfaces `SerialPort` and `Driver`. -/
inductive Operation where
  | readSerialPort
  | writeSerialPort (message : Bytes)
  | readInfoFromDevice
  deriving DecidableEq

/-- What a client receives when its operation returns. -/
inductive Reply where
  | text (s : Bytes)
  /-- The return of a `void` operation. -/
  | ack
  deriving DecidableEq

/-- The code that the request for an operation runs. -/
def Operation.program : Operation → Code Reply
  | .readSerialPort => Reply.text <$> IceSerialPort.readSerialPort
  | .writeSerialPort message => (fun _ => Reply.ack) <$> IceSerialPort.writeSerialPort message
  | .readInfoFromDevice => Reply.text <$> IceSerialPort.readInfoFromDevice

/-- The operations over the world; the peer's bytes arrive from outside. -/
def system : System Action Action.Answer Abort Reply Operation World Choice Bytes where
  program := Operation.program
  env := perform
  outside w bs := some { w with line := w.line ++ bs }

/-- A state of the server: the world, and the calls started so far. -/
abbrev Server := Pool Action Action.Answer Abort Reply Operation World

/-- Bytes arrive, a request is dispatched, or a call makes its next step. -/
abbrev ServerEvent := Event Operation Choice Bytes

/-- What one operation run on its own leaves behind. -/
abbrev ServerReport := Report Action.Answer Abort Reply World

/-- The server before its first request. -/
def Server.boot (openAtStart : List Bool) (file : Bytes) : Server :=
  Pool.boot (World.boot openAtStart file)

/-- The server after some events, if they can happen. -/
abbrev Server.run (s : Server) (es : List ServerEvent) : Option Server :=
  Transition.run system.step s es

/-- The server is in this state after some events. -/
def Server.Reachable (s : Server) : Prop :=
  ∃ openAtStart file es, (Server.boot openAtStart file).run es = some s

/-- What follows on a reachable state is reachable. -/
theorem Server.Reachable.run {s s' : Server} {es : List ServerEvent} (h : s.Reachable)
    (hr : s.run es = some s') : s'.Reachable := by
  rcases h with ⟨openAtStart, file, fs, hs⟩
  exact ⟨openAtStart, file, fs ++ es, run_append_eq_some.mpr ⟨s, hs, hr⟩⟩

@[simp] theorem system_program (op : Operation) : system.program op = op.program := rfl

@[simp] theorem system_env (i : ℕ) : system.env i = perform i := rfl

@[simp] theorem system_outside (w : World) (bs : Bytes) :
    system.outside w bs = some { w with line := w.line ++ bs } := rfl

/-- The bytes that arrived during some events. -/
def arrived (es : List ServerEvent) : Bytes :=
  es.flatMap fun
    | .outside bs => bs
    | _ => []

/-- The request that an event dispatches. -/
def dispatch? : ServerEvent → Option Operation
  | .spawn op => some op
  | _ => none

/-- The choice of the operating system in an event. -/
def choice? : ServerEvent → Option Choice
  | .act _ c => some c
  | _ => none

/-- No call that the operations make fails or meets the end of a file. -/
def NoFailure (es : List ServerEvent) : Prop := ∀ c ∈ es.filterMap choice?, c.succeeds

instance (es : List ServerEvent) : Decidable (NoFailure es) :=
  inferInstanceAs (Decidable (∀ c ∈ es.filterMap choice?, _))

/-- Only requests for these operations are dispatched. -/
def OnlyDispatches (ops : Operation → Prop) (es : List ServerEvent) : Prop :=
  ∀ op ∈ es.filterMap dispatch?, ops op

instance (ops : Operation → Prop) [DecidablePred ops] (es : List ServerEvent) :
    Decidable (OnlyDispatches ops es) :=
  inferInstanceAs (Decidable (∀ op ∈ es.filterMap dispatch?, _))

/-- Every step of such a run is one without a failure. -/
theorem NoFailure.always {es : List ServerEvent} (h : NoFailure es) (s : Server) :
    Always system.step (fun _ e => ∀ i c, e = .act i c → c.succeeds) s es := by
  refine always_of_forall_mem (C := fun e : ServerEvent => ∀ i c, e = .act i c → c.succeeds) ?_
  intro e he i c hc
  exact h c (List.mem_filterMap.mpr ⟨e, he, by rw [hc]; rfl⟩)

/-- Every step of such a run dispatches only these operations. -/
theorem OnlyDispatches.always {ops : Operation → Prop} {es : List ServerEvent}
    (h : OnlyDispatches ops es) (s : Server) :
    Always system.step (fun _ e => ∀ op, e = .spawn op → ops op) s es := by
  refine always_of_forall_mem (C := fun e : ServerEvent => ∀ op, e = .spawn op → ops op) ?_
  intro e he op hop
  exact h op (List.mem_filterMap.mpr ⟨e, he, by rw [hop]; rfl⟩)

end IceSerialPort
