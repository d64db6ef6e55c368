import IceSerialPort.Lib.Prog
import IceSerialPort.Lib.Transition
import Mathlib.Logic.Function.Basic

/-!
# Interleaved programs over a shared world

A pool holds any number of calls, each one a program on its way to its end, over
one shared world. An event starts a new call, lets one call perform its next
action, or changes the world from outside. Nothing orders the events: every
interleaving of the calls' actions is a run.

Facts about what a call may still do are kept by a *typestate*: a state that each
of the call's own actions advances, with the actions it allows and the ways it may
end. `Typestate.Obeys` checks a program against it, once, on the program
text. `typed_run` is then the induction rule for whole runs of a pool: every call
is at the typestate its own history gives it, whatever the others did.

## Main definitions

* `System`: the programs that can be started, and the environment.
* `Pool`, `Event`, `System.step`: the interleaving machine.
* `Typestate`, `Typestate.Obeys`, `Typestate.stateAt`: protocols of single calls.
* `typed_run`: invariants of runs in which every call keeps its protocol.
* `System.serve`: one call from start to end with nothing in between;
  `serve_run` says that it is a run of the pool.
-/

namespace Effects

open Transition

/-- The programs a pool can start, what their actions do to the world, and what can
happen to the world from outside. The environment is told which call is acting. -/
structure System (Act : Type) (Ans : Act → Type) (ε α Job World Choice Ext : Type) where
  program : Job → Prog Act Ans ε α
  env : ℕ → World → (a : Act) → Choice → Option (Ans a × World)
  outside : World → Ext → Option World

/-- A call: what it was started as, and what remains of it. -/
structure Call (Act : Type) (Ans : Act → Type) (ε α Job : Type) where
  job : Job
  rest : Prog Act Ans ε α

/-- Calls are numbered by their position; `history` lists the performed actions of
all calls in the order in which they happened. -/
structure Pool (Act : Type) (Ans : Act → Type) (ε α Job World : Type) where
  world : World
  calls : List (Call Act Ans ε α Job)
  history : List (ℕ × Performed Ans)

/-- What can happen to a pool. -/
inductive Event (Job Choice Ext : Type) where
  /-- The world changes from outside. -/
  | outside (x : Ext)
  /-- A new call starts. -/
  | spawn (j : Job)
  /-- Call `i` performs its next action, with this choice of the environment. -/
  | act (i : ℕ) (c : Choice)
  deriving DecidableEq

variable {Act : Type} {Ans : Act → Type} {ε α Job World Choice Ext G : Type}

namespace Pool

/-- A pool before any call. -/
def boot (w : World) : Pool Act Ans ε α Job World := ⟨w, [], []⟩

/-- No call is in progress: every call has ended normally. -/
def Idle (s : Pool Act Ans ε α Job World) : Prop := ∀ c ∈ s.calls, c.rest.Returned

instance (s : Pool Act Ans ε α Job World) : Decidable s.Idle :=
  inferInstanceAs (Decidable (∀ c ∈ s.calls, c.rest.Returned))

/-- No call is about to act: every call has ended, normally or not. -/
def Quiet (s : Pool Act Ans ε α Job World) : Prop := ∀ c ∈ s.calls, c.rest.Ended

instance (s : Pool Act Ans ε α Job World) : Decidable s.Quiet :=
  inferInstanceAs (Decidable (∀ c ∈ s.calls, c.rest.Ended))

/-- What call `i` itself has performed, in order. -/
def own (s : Pool Act Ans ε α Job World) (i : ℕ) : List (Performed Ans) :=
  (s.history.filter fun e => e.1 = i).map Prod.snd

/-- The action that call `i` performs next. -/
def next? (s : Pool Act Ans ε α Job World) (i : ℕ) : Option Act :=
  s.calls[i]?.bind fun c => c.rest.action?

/-- The value call `i` returned, if it has returned. -/
def result? (s : Pool Act Ans ε α Job World) (i : ℕ) : Option α :=
  s.calls[i]?.bind fun c => c.rest.value?

end Pool

namespace System

variable (S : System Act Ans ε α Job World Choice Ext)

/-- One event of the pool. Only a call that is about to perform an action can act,
and only as the environment allows. -/
def step (s : Pool Act Ans ε α Job World) :
    Event Job Choice Ext → Option (Pool Act Ans ε α Job World)
  | .outside x => (S.outside s.world x).map fun w => { s with world := w }
  | .spawn j => some { s with calls := s.calls ++ [⟨j, S.program j⟩] }
  | .act i c =>
      match s.calls[i]? with
      | some ⟨j, .call a k⟩ =>
          (S.env i s.world a c).map fun rw =>
            ⟨rw.2, s.calls.set i ⟨j, k rw.1⟩, s.history ++ [(i, ⟨a, rw.1⟩)]⟩
      | _ => none

variable {S}
variable {s s' : Pool Act Ans ε α Job World}

theorem step_outside {x : Ext} :
    S.step s (.outside x) = some s' ↔
      ∃ w, S.outside s.world x = some w ∧ s' = { s with world := w } := by
  simp [step, eq_comm (a := s')]

theorem step_spawn {j : Job} :
    S.step s (.spawn j) = some s' ↔ s' = { s with calls := s.calls ++ [⟨j, S.program j⟩] } := by
  simp [step, eq_comm]

/-- What a step of a call can do, its guard included. -/
theorem step_act {i : ℕ} {c : Choice} :
    S.step s (.act i c) = some s' ↔
      ∃ j a k r w, s.calls[i]? = some ⟨j, .call a k⟩ ∧ S.env i s.world a c = some (r, w) ∧
        s' = ⟨w, s.calls.set i ⟨j, k r⟩, s.history ++ [(i, ⟨a, r⟩)]⟩ := by
  constructor
  · intro h
    simp only [step] at h
    split at h
    case h_1 j a k hc =>
      obtain ⟨⟨r, w⟩, hr, rfl⟩ := Option.map_eq_some_iff.mp h
      exact ⟨j, a, k, r, w, hc, hr, rfl⟩
    case h_2 => simp at h
  · rintro ⟨j, a, k, r, w, hc, hr, rfl⟩
    simp [step, hc, hr]

/-- What the environment allows to the next action of a call is a step. -/
theorem step_act_of_env {i : ℕ} {c : Choice} {j : Job} {a : Act} {k : Ans a → Prog Act Ans ε α}
    {r : Ans a} {w : World} (hc : s.calls[i]? = some ⟨j, .call a k⟩)
    (h : S.env i s.world a c = some (r, w)) :
    S.step s (.act i c) = some ⟨w, s.calls.set i ⟨j, k r⟩, s.history ++ [(i, ⟨a, r⟩)]⟩ :=
  step_act.mpr ⟨j, a, k, r, w, hc, h, rfl⟩

/-- A step of a call whose next action is known. -/
theorem calls_of_step_act {i : ℕ} {c : Choice} {j : Job} {a : Act}
    {k : Ans a → Prog Act Ans ε α} (hc : s.calls[i]? = some ⟨j, .call a k⟩)
    (h : S.step s (.act i c) = some s') :
    ∃ r, S.env i s.world a c = some (r, s'.world) ∧ s'.calls = s.calls.set i ⟨j, k r⟩ := by
  simp only [step, hc, Option.map_eq_some_iff] at h
  obtain ⟨⟨r, w⟩, hr, rfl⟩ := h
  exact ⟨r, hr, rfl⟩

end System

/-! ## Typestates -/

/-- A protocol of single calls: where a call starts, which actions it may perform
next, where an answered action takes it, and how it may end, normally or not. -/
structure Typestate (Act : Type) (Ans : Act → Type) (ε α Job G : Type) where
  start : Job → G
  can : G → Act → Prop
  next : G → (a : Act) → Ans a → G
  final : G → α → Prop
  abort : G → ε → Prop

namespace Typestate

variable (T : Typestate Act Ans ε α Job G)

/-- The program keeps to the protocol from `g` on, whatever it is answered. -/
def Obeys : G → Prog Act Ans ε α → Prop
  | g, .ret a => T.final g a
  | g, .stop e => T.abort g e
  | g, .call a k => T.can g a ∧ ∀ r, Obeys (T.next g a r) (k r)

/-- Where every action is allowed and leads nowhere else, every program obeys. -/
theorem obeys_of_forall {g : G} (hcan : ∀ a, T.can g a) (hnext : ∀ a r, T.next g a r = g)
    (hfinal : ∀ b, T.final g b) (habort : ∀ e, T.abort g e) (p : Prog Act Ans ε α) :
    T.Obeys g p := by
  induction p with
  | ret b => exact hfinal b
  | stop e => exact habort e
  | call a k ih =>
      refine ⟨hcan a, fun r => ?_⟩
      rw [hnext]
      exact ih r

/-- The typestate reached after performed actions. -/
def after (g : G) (h : List (Performed Ans)) : G := h.foldl (fun g p => T.next g p.1 p.2) g

/-- The typestate of call `i`, read off its own history. -/
def stateAt (s : Pool Act Ans ε α Job World) (i : ℕ) : Option G :=
  s.calls[i]?.map fun c => T.after (T.start c.job) (s.own i)

/-- Every call keeps to its protocol from where its own history left it. -/
structure Typed (s : Pool Act Ans ε α Job World) : Prop where
  obeys : ∀ i c g, s.calls[i]? = some c → T.stateAt s i = some g → T.Obeys g c.rest
  known : ∀ e ∈ s.history, e.1 < s.calls.length

variable {T}

theorem typed_boot (w : World) : T.Typed (Pool.boot w : Pool Act Ans ε α Job World) := by
  constructor <;> simp [Pool.boot]

@[simp] theorem stateAt_boot (w : World) (i : ℕ) :
    T.stateAt (Pool.boot w : Pool Act Ans ε α Job World) i = none := by
  simp [stateAt, Pool.boot]

variable {s : Pool Act Ans ε α Job World}

/-- Every call is at some typestate. -/
theorem exists_stateAt {i : ℕ} {c : Call Act Ans ε α Job} (hc : s.calls[i]? = some c) :
    ∃ g, T.stateAt s i = some g := by
  simp [stateAt, hc]

/-- What the start of a job has and every answered action keeps, the typestate of a
call has. -/
theorem stateAt_induction {P : Job → G → Prop} (hstart : ∀ j, P j (T.start j))
    (hnext : ∀ j g a r, P j g → P j (T.next g a r)) {i : ℕ} {c : Call Act Ans ε α Job} {g : G}
    (hc : s.calls[i]? = some c) (hg : T.stateAt s i = some g) : P c.job g := by
  have hafter : ∀ h g, P c.job g → P c.job (T.after g h) := by
    intro h
    induction h with
    | nil => exact fun g hP => hP
    | cons p h ih => exact fun g hP => ih _ (hnext c.job g p.1 p.2 hP)
  rw [stateAt, hc, Option.map_some, Option.some.injEq] at hg
  rw [← hg]
  exact hafter _ _ (hstart c.job)

namespace Typed

variable {i : ℕ} {c : Call Act Ans ε α Job} {g : G}

/-- A call that has returned ended as its typestate allows. -/
theorem final_of_ret (h : T.Typed s) (hc : s.calls[i]? = some c) (hg : T.stateAt s i = some g)
    {a : α} (ha : c.rest = .ret a) : T.final g a := by
  have hobeys := h.obeys i c g hc hg
  rw [ha] at hobeys
  exact hobeys

/-- So did a call that has ended abnormally. -/
theorem abort_of_stop (h : T.Typed s) (hc : s.calls[i]? = some c) (hg : T.stateAt s i = some g)
    {e : ε} (he : c.rest = .stop e) : T.abort g e := by
  have hobeys := h.obeys i c g hc hg
  rw [he] at hobeys
  exact hobeys

/-- A call is about to perform what its typestate allows. -/
theorem can_of_call (h : T.Typed s) {a : Act} {k : Ans a → Prog Act Ans ε α}
    (hc : s.calls[i]? = some c) (hg : T.stateAt s i = some g) (ha : c.rest = .call a k) :
    T.can g a := by
  have hobeys := h.obeys i c g hc hg
  rw [ha] at hobeys
  exact hobeys.1

end Typed

/-- A new call is where its job starts; the others are where they were. -/
theorem stateAt_spawn (h : T.Typed s) (j : Job) (p : Prog Act Ans ε α) :
    T.stateAt { s with calls := s.calls ++ [⟨j, p⟩] } =
      Function.update (T.stateAt s) s.calls.length (some (T.start j)) := by
  funext i
  by_cases hi : i = s.calls.length
  · subst hi
    have hown : s.history.filter (fun e => e.1 = s.calls.length) = [] := by
      rw [List.filter_eq_nil_iff]
      intro e he
      simpa using Nat.ne_of_lt (h.known e he)
    simp [stateAt, after, Pool.own, hown]
  · simp only [stateAt, Pool.own, Function.update_of_ne hi]
    rcases Nat.lt_or_gt_of_ne hi with hlt | hgt
    · simp [List.getElem?_append_left hlt]
    · have h1 : (s.calls ++ [⟨j, p⟩])[i]? = none := by
        rw [List.getElem?_eq_none_iff]; simp; omega
      have h2 : s.calls[i]? = none := by
        rw [List.getElem?_eq_none_iff]; omega
      rw [h1, h2]

/-- The acting call advances by its own action; the others are where they were. -/
theorem stateAt_act {i : ℕ} {j : Job} {a : Act} {k : Ans a → Prog Act Ans ε α} {g : G}
    (hc : s.calls[i]? = some ⟨j, .call a k⟩) (hg : T.stateAt s i = some g)
    (r : Ans a) (w : World) :
    T.stateAt ⟨w, s.calls.set i ⟨j, k r⟩, s.history ++ [(i, ⟨a, r⟩)]⟩ =
      Function.update (T.stateAt s) i (some (T.next g a r)) := by
  funext m
  by_cases hm : m = i
  · subst hm
    have hlt : m < s.calls.length := (List.getElem?_eq_some_iff.mp hc).1
    simp only [stateAt, hc, Option.map_some, Option.some.injEq] at hg
    simp [stateAt, after, Pool.own, hlt, ← hg]
  · simp [stateAt, Pool.own, Function.update_of_ne hm, List.getElem?_set_ne (Ne.symm hm),
      Ne.symm hm]

/-- Where no call may end abnormally, one that has ended has returned. -/
theorem idle_of_quiet (h : T.Typed s)
    (hab : ∀ i g e, T.stateAt s i = some g → ¬ T.abort g e) (hq : s.Quiet) : s.Idle := by
  intro c hc
  rcases Prog.ended_iff.mp (hq c hc) with hret | ⟨e, he⟩
  · exact hret
  · obtain ⟨i, hi⟩ := List.mem_iff_getElem?.mp hc
    obtain ⟨g, hg⟩ := exists_stateAt (T := T) hi
    exact absurd (h.abort_of_stop hi hg he) (hab i g e hg)

theorem typed_world (h : T.Typed s) (w : World) : T.Typed { s with world := w } :=
  ⟨h.obeys, h.known⟩

theorem typed_spawn (h : T.Typed s) {j : Job} {p : Prog Act Ans ε α}
    (hp : T.Obeys (T.start j) p) : T.Typed { s with calls := s.calls ++ [⟨j, p⟩] } := by
  constructor
  · intro i c g hc hg
    rw [stateAt_spawn h] at hg
    by_cases hi : i = s.calls.length
    · subst hi
      obtain rfl : T.start j = g := by simpa using hg
      obtain rfl : ⟨j, p⟩ = c := by simpa using hc
      exact hp
    · rw [Function.update_of_ne hi] at hg
      have hlt : i < s.calls.length := by
        have := (List.getElem?_eq_some_iff.mp hc).1
        simp only [List.length_append, List.length_singleton] at this
        omega
      exact h.obeys i c g (by simpa [List.getElem?_append_left hlt] using hc) hg
  · intro e he
    have := h.known e he
    simp only [List.length_append, List.length_singleton]
    omega

theorem typed_act (h : T.Typed s) {i : ℕ} {j : Job} {a : Act} {k : Ans a → Prog Act Ans ε α}
    (hc : s.calls[i]? = some ⟨j, .call a k⟩) (r : Ans a) (w : World) :
    T.Typed ⟨w, s.calls.set i ⟨j, k r⟩, s.history ++ [(i, ⟨a, r⟩)]⟩ := by
  have hlt : i < s.calls.length := (List.getElem?_eq_some_iff.mp hc).1
  obtain ⟨g, hg⟩ := exists_stateAt (T := T) hc
  constructor
  · intro m c g' hc' hg'
    rw [stateAt_act hc hg] at hg'
    by_cases hm : m = i
    · subst hm
      obtain rfl : T.next g a r = g' := by simpa using hg'
      obtain rfl : ⟨j, k r⟩ = c := by simpa [hlt] using hc'
      exact (h.obeys m _ g hc hg).2 r
    · rw [Function.update_of_ne hm] at hg'
      exact h.obeys m c g' (by simpa [List.getElem?_set_ne (Ne.symm hm)] using hc') hg'
  · intro e he
    rcases List.mem_append.mp he with he | he
    · simpa using h.known e he
    · obtain rfl : e = (i, ⟨a, r⟩) := by simpa using he
      simpa using hlt

/-- **Invariants of a pool of protocol-keeping calls.** It is enough to preserve `I`
under a change from outside, the start of a call, and an action that the acting
call's typestate allows. -/
theorem typed_run {S : System Act Ans ε α Job World Choice Ext}
    {C : Pool Act Ans ε α Job World → Event Job Choice Ext → Prop}
    {I : Pool Act Ans ε α Job World → Prop}
    (hprog : ∀ j, T.Obeys (T.start j) (S.program j))
    (houtside : ∀ s x w, T.Typed s → I s → C s (.outside x) → S.outside s.world x = some w →
      I { s with world := w })
    (hspawn : ∀ s j, T.Typed s → I s → C s (.spawn j) →
      I { s with calls := s.calls ++ [⟨j, S.program j⟩] })
    (hact : ∀ s i c j a k r w g, T.Typed s → I s → C s (.act i c) →
      s.calls[i]? = some ⟨j, .call a k⟩ → T.stateAt s i = some g → T.can g a →
      S.env i s.world a c = some (r, w) →
      I ⟨w, s.calls.set i ⟨j, k r⟩, s.history ++ [(i, ⟨a, r⟩)]⟩)
    {w₀ : World} {es : List (Event Job Choice Ext)} {t : Pool Act Ans ε α Job World}
    (h₀ : I (Pool.boot w₀)) (hC : Always S.step C (Pool.boot w₀) es)
    (hr : run S.step (Pool.boot w₀) es = some t) : T.Typed t ∧ I t := by
  refine run_invariant (I := fun s => T.Typed s ∧ I s) ?_ ⟨typed_boot w₀, h₀⟩ hC hr
  rintro s e s' hCs ⟨hT, hI⟩ hstep
  cases e with
  | outside x =>
      obtain ⟨w, hw, rfl⟩ := System.step_outside.mp hstep
      exact ⟨typed_world hT w, houtside s x w hT hI hCs hw⟩
  | spawn j =>
      obtain rfl := System.step_spawn.mp hstep
      exact ⟨typed_spawn hT (hprog j), hspawn s j hT hI hCs⟩
  | act i c =>
      obtain ⟨j, a, k, r, w, hc, hr, rfl⟩ := System.step_act.mp hstep
      obtain ⟨g, hg⟩ := exists_stateAt (T := T) hc
      have hcan : T.can g a := hT.can_of_call hc hg rfl
      exact ⟨typed_act hT hc r w, hact s i c j a k r w g hT hI hCs hc hg hcan hr⟩

end Typestate

/-! ## Calls run one after another -/

namespace System

variable (S : System Act Ans ε α Job World Choice Ext)

/-- What remains of a program after a run on its own. -/
def residue : Outcome ε α → Prog Act Ans ε α
  | .returned a => .ret a
  | .aborted e => .stop e

/-- Start a call and run it to its end, with nothing else in between. -/
def serve (s : Pool Act Ans ε α Job World) (j : Job) (cs : List Choice) :
    Option (Report Ans ε α World × Pool Act Ans ε α Job World) :=
  (execute (S.env s.calls.length) (S.program j) s.world cs).map fun rep =>
    (rep, ⟨rep.world, s.calls ++ [⟨j, residue rep.outcome⟩],
      s.history ++ rep.trace.map fun p => (s.calls.length, p)⟩)

variable {S}

/-- A call at the end of the list runs to its end as a program on its own does. -/
theorem execute_run {j : Job} {p : Prog Act Ans ε α} {w : World} {cs : List Choice}
    {rep : Report Ans ε α World} (calls : List (Call Act Ans ε α Job))
    (history : List (ℕ × Performed Ans))
    (h : execute (S.env calls.length) p w cs = some rep) :
    ∃ es : List (Event Job Choice Ext),
      run S.step ⟨w, calls ++ [⟨j, p⟩], history⟩ es =
        some ⟨rep.world, calls ++ [⟨j, residue rep.outcome⟩],
          history ++ rep.trace.map fun p => (calls.length, p)⟩ := by
  induction p generalizing w cs rep history with
  | ret a =>
      obtain rfl : _ = rep := by simpa using h
      exact ⟨[], by simp [residue]⟩
  | stop e =>
      obtain rfl : _ = rep := by simpa using h
      exact ⟨[], by simp [residue]⟩
  | call a k ih =>
      obtain ⟨c, cs', r, w', rep', rfl, hr, hrep, rfl⟩ := (execute_call_eq_some _).mp h
      obtain ⟨es, hes⟩ := ih r (history ++ [(calls.length, ⟨a, r⟩)]) hrep
      refine ⟨.act calls.length c :: es, ?_⟩
      simp [step, hr, hes]

/-- **A call served on its own is a run of the pool.** -/
theorem serve_run {s s' : Pool Act Ans ε α Job World} {j : Job} {cs : List Choice}
    {rep : Report Ans ε α World} (h : S.serve s j cs = some (rep, s')) :
    ∃ es : List (Event Job Choice Ext), run S.step s es = some s' := by
  simp only [serve, Option.map_eq_some_iff, Prod.mk.injEq] at h
  obtain ⟨_, hrep, rfl, rfl⟩ := h
  obtain ⟨es, hes⟩ := execute_run (S := S) (j := j) s.calls s.history hrep
  exact ⟨.spawn j :: es, by simpa [step] using hes⟩

end System

end Effects
