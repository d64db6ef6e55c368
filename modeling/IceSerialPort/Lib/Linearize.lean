import IceSerialPort.Lib.Pool
import IceSerialPort.Lib.Refinement

/-!
# Linearizability of a pool

Calls that take several actions each look atomic when every one of them has a point at
which its outcome is settled, and only there changes what the others can see. The pool
then refines a machine that serves every call in one step. The refinement keeps pace
with the run, so a call answered before another one started is served before it.

A `Commitment` names what is to be shown: the part of the world that the calls share,
and the outcome that a call has settled on, read off its typestate (and the world, for
a call that has left its result there). `Linearizes` lists the obligations: one for each
kind of event, and that a call ends as it had settled.

## Main definitions

* `Atomic`, `Served`, `Atomic.step`: an object that serves a call at once, and the
  machine of its runs, which remembers what each call was answered.
* `Explains`: the atomic object accounts for the world and for every ended call.
* `Linearizes.follows`: the pool's runs are followed by runs of the atomic machine.
-/

namespace Effects

open Transition

variable {Act : Type} {Ans : Act → Type} {ε α Job World Choice Ext A Nd Out G : Type}

/-- An object that serves a call in one step. It is told which call it serves; `Nd` is
what the environment decides. -/
structure Atomic (A Job Nd Out Ext : Type) where
  serve : ℕ → A → Job → Nd → Option (Out × A)
  outside : A → Ext → Option A

/-- The object, and what each call, by its number, was answered. -/
structure Served (A Job Out : Type) where
  object : A
  answers : List (ℕ × Job × Out)
  deriving DecidableEq

/-- What can happen to an atomic object. -/
inductive ServedEvent (Job Nd Ext : Type) where
  | outside (x : Ext)
  /-- Call `i` is served. -/
  | answer (i : ℕ) (j : Job) (n : Nd)

/-- A call is served at most once. -/
def Atomic.step (O : Atomic A Job Nd Out Ext) (a : Served A Job Out) :
    ServedEvent Job Nd Ext → Option (Served A Job Out)
  | .outside x => (O.outside a.object x).map fun o => { a with object := o }
  | .answer i j n =>
      if a.answers.any fun e => e.1 = i then none
      else (O.serve i a.object j n).map fun r => ⟨r.2, a.answers ++ [(i, j, r.1)]⟩

/-- The atomic machine; what is seen of it is what happens from outside. -/
def Atomic.machine (O : Atomic A Job Nd Out Ext) :
    Machine (Served A Job Out) (ServedEvent Job Nd Ext) Ext where
  step := O.step
  shows
    | .outside x => [x]
    | .answer _ _ _ => []

/-- The pool as a machine of which the same is seen. -/
def System.machine (S : System Act Ans ε α Job World Choice Ext) :
    Machine (Pool Act Ans ε α Job World) (Event Job Choice Ext) Ext where
  step := S.step
  shows
    | .outside x => [x]
    | .spawn _ => []
    | .act _ _ => []

theorem Atomic.step_outside {O : Atomic A Job Nd Out Ext} {a : Served A Job Out} {x : Ext}
    {o : A} (h : O.outside a.object x = some o) :
    O.step a (.outside x) = some { a with object := o } := by
  simp [Atomic.step, h]

theorem Atomic.step_answer {O : Atomic A Job Nd Out Ext} {a : Served A Job Out} {i : ℕ}
    {j : Job} {n : Nd} {out : Out} {o : A} (hi : ∀ p, (i, p) ∉ a.answers)
    (h : O.serve i a.object j n = some (out, o)) :
    O.step a (.answer i j n) = some ⟨o, a.answers ++ [(i, j, out)]⟩ := by
  have hany : ¬ a.answers.any (fun e => e.1 = i) = true := by
    rw [List.any_eq_true]
    rintro ⟨⟨i', p⟩, he, hi'⟩
    rw [decide_eq_true_iff] at hi'
    subst hi'
    exact hi p he
  simp [Atomic.step, hany, h]

/-- The atomic object is what the calls share, only calls of the pool were served, and
every call of a `visible` job that has ended was served with the outcome it ended with. -/
structure Explains (view : World → A) (visible : Job → Prop)
    (s : Pool Act Ans ε α Job World) (a : Served A Job (Outcome ε α)) : Prop where
  object : a.object = view s.world
  asked : ∀ i j o, (i, j, o) ∈ a.answers → ∃ c, s.calls[i]? = some c ∧ c.job = j
  returned : ∀ i c v, s.calls[i]? = some c → visible c.job → c.rest = .ret v →
    (i, c.job, .returned v) ∈ a.answers
  aborted : ∀ i c e, s.calls[i]? = some c → visible c.job → c.rest = .stop e →
    (i, c.job, .aborted e) ∈ a.answers

/-- What the calls share, the outcome a call has settled on, and the jobs whose
outcomes are to be explained. -/
structure Commitment (Act : Type) (Ans : Act → Type) (ε α Job World A G : Type) where
  typestate : Typestate Act Ans ε α Job G
  view : World → A
  promise : World → G → Option (Outcome ε α)
  visible : Job → Prop

namespace Commitment

variable (K : Commitment Act Ans ε α Job World A G)

/-- The answer that call `i` has settled on. -/
def owed (s : Pool Act Ans ε α Job World) (i : ℕ) : Option (Job × Outcome ε α) :=
  s.calls[i]?.bind fun c =>
    (K.typestate.stateAt s i).bind fun g => (K.promise s.world g).map fun o => (c.job, o)

/-- Call `i` settles now, or it changes nothing that the others can see. -/
inductive Moves (O : Atomic A Job Nd (Outcome ε α) Ext) (i : ℕ) (j : Job) (w w' : World)
    (g g' : G) : Prop
  | settles (n : Nd) (o : Outcome ε α) (fresh : K.promise w g = none)
      (serve : O.serve i (K.view w) j n = some (o, K.view w')) (kept : K.promise w' g' = some o)
  | silent (view : K.view w' = K.view w) (kept : K.promise w' g' = K.promise w g)

/-- What makes the calls of a pool look atomic, in runs whose steps satisfy `C`; `I` is
an invariant of these runs. -/
structure Linearizes (S : System Act Ans ε α Job World Choice Ext)
    (O : Atomic A Job Nd (Outcome ε α) Ext)
    (C : Pool Act Ans ε α Job World → Event Job Choice Ext → Prop)
    (I : Pool Act Ans ε α Job World → Prop) : Prop where
  obeys : ∀ j, K.typestate.Obeys (K.typestate.start j) (S.program j)
  start : ∀ w j, K.promise w (K.typestate.start j) = none
  outside : ∀ s x w, K.typestate.Typed s → I s → S.outside s.world x = some w →
    O.outside (K.view s.world) x = some (K.view w) ∧
      (∀ g, K.promise w g = K.promise s.world g) ∧ I { s with world := w }
  spawn : ∀ s j, K.typestate.Typed s → I s → C s (.spawn j) →
    I { s with calls := s.calls ++ [⟨j, S.program j⟩] }
  act : ∀ s i c j a k r w g, K.typestate.Typed s → I s → C s (.act i c) →
    s.calls[i]? = some ⟨j, .call a k⟩ → K.typestate.stateAt s i = some g →
    K.typestate.can g a → S.env i s.world a c = some (r, w) →
      K.Moves O i j s.world w g (K.typestate.next g a r) ∧
      (∀ m g', m ≠ i → K.typestate.stateAt s m = some g' → K.promise w g' = K.promise s.world g') ∧
      I ⟨w, s.calls.set i ⟨j, k r⟩, s.history ++ [(i, ⟨a, r⟩)]⟩
  ends : ∀ s i c g, K.typestate.Typed s → I s → s.calls[i]? = some c →
    K.typestate.stateAt s i = some g → K.visible c.job →
      (∀ v, c.rest = .ret v → K.promise s.world g = some (.returned v)) ∧
      ∀ e, c.rest = .stop e → K.promise s.world g = some (.aborted e)

variable {K}

theorem owed_eq {s : Pool Act Ans ε α Job World} {i : ℕ} {c : Call Act Ans ε α Job} {g : G}
    (hc : s.calls[i]? = some c) (hg : K.typestate.stateAt s i = some g) :
    K.owed s i = (K.promise s.world g).map fun o => (c.job, o) := by
  simp [owed, hc, hg]

theorem owed_eq_none {s : Pool Act Ans ε α Job World} {i : ℕ} (hc : s.calls[i]? = none) :
    K.owed s i = none := by
  simp [owed, hc]

/-- A promise that stays is owed as before. -/
theorem owed_world {s : Pool Act Ans ε α Job World} {w : World}
    (h : ∀ g, K.promise w g = K.promise s.world g) : K.owed { s with world := w } = K.owed s := by
  funext i
  simp only [owed, Typestate.stateAt, Pool.own, h]

/-- A new call owes nothing. -/
theorem owed_spawn {s : Pool Act Ans ε α Job World} (hT : K.typestate.Typed s) (j : Job)
    (p : Prog Act Ans ε α) (hstart : K.promise s.world (K.typestate.start j) = none) :
    K.owed { s with calls := s.calls ++ [⟨j, p⟩] } = K.owed s := by
  funext i
  rcases Nat.lt_trichotomy i s.calls.length with hlt | heq | hgt
  · simp [owed, Typestate.stateAt_spawn hT, List.getElem?_append_left hlt,
      Function.update_of_ne (Nat.ne_of_lt hlt)]
  · subst heq
    simp [owed, Typestate.stateAt_spawn hT, hstart]
  · have hnone : (s.calls ++ [⟨j, p⟩])[i]? = none := by
      rw [List.getElem?_eq_none_iff, List.length_append, List.length_singleton]
      omega
    rw [owed_eq_none hnone, owed_eq_none (List.getElem?_eq_none_iff.mpr (by omega))]

/-- An action changes only what the acting call owes. -/
theorem owed_act {s : Pool Act Ans ε α Job World} {i : ℕ} {j : Job} {a : Act}
    {k : Ans a → Prog Act Ans ε α} {g : G} (hc : s.calls[i]? = some ⟨j, .call a k⟩)
    (hg : K.typestate.stateAt s i = some g) (r : Ans a) (w : World)
    (hothers : ∀ m g', m ≠ i → K.typestate.stateAt s m = some g' →
      K.promise w g' = K.promise s.world g') :
    K.owed ⟨w, s.calls.set i ⟨j, k r⟩, s.history ++ [(i, ⟨a, r⟩)]⟩ =
      Function.update (K.owed s) i
        ((K.promise w (K.typestate.next g a r)).map fun o => (j, o)) := by
  have hlt : i < s.calls.length := (List.getElem?_eq_some_iff.mp hc).1
  funext m
  by_cases hm : m = i
  · subst hm
    simp [owed, Typestate.stateAt_act hc hg, hlt]
  · rw [Function.update_of_ne hm]
    cases hcm : s.calls[m]? with
    | none =>
        rw [owed_eq_none hcm, owed_eq_none (by simpa [List.getElem?_set_ne (Ne.symm hm)] using hcm)]
    | some c =>
        obtain ⟨g', hg'⟩ := Typestate.exists_stateAt (T := K.typestate) hcm
        simp [owed, Typestate.stateAt_act hc hg, List.getElem?_set_ne (Ne.symm hm), hcm,
          Function.update_of_ne hm, hg', hothers m g' hm hg']

/-- The relation that the refinement keeps: every settled answer, and no other, has
been given. -/
structure Matches (I : Pool Act Ans ε α Job World → Prop) (s : Pool Act Ans ε α Job World)
    (a : Served A Job (Outcome ε α)) : Prop where
  typed : K.typestate.Typed s
  inv : I s
  object : a.object = K.view s.world
  answers : ∀ i p, (i, p) ∈ a.answers ↔ K.owed s i = some p

namespace Linearizes

variable {S : System Act Ans ε α Job World Choice Ext} {O : Atomic A Job Nd (Outcome ε α) Ext}
  {C : Pool Act Ans ε α Job World → Event Job Choice Ext → Prop}
  {I : Pool Act Ans ε α Job World → Prop}

/-- Where every settled answer has been given, the ended calls are explained. -/
theorem explains (h : K.Linearizes S O C I) {s : Pool Act Ans ε α Job World}
    {a : Served A Job (Outcome ε α)} (hm : K.Matches I s a) :
    Explains K.view K.visible s a := by
  constructor
  case object => exact hm.object
  case asked =>
    intro i j o hmem
    have howed := (hm.answers i (j, o)).mp hmem
    cases hc : s.calls[i]? with
    | none => simp [owed_eq_none hc] at howed
    | some c =>
        obtain ⟨g, hg⟩ := Typestate.exists_stateAt (T := K.typestate) hc
        rw [owed_eq hc hg, Option.map_eq_some_iff] at howed
        obtain ⟨o', -, ho'⟩ := howed
        exact ⟨c, rfl, congrArg Prod.fst ho'⟩
  case returned =>
    intro i c v hc hvis hret
    obtain ⟨g, hg⟩ := Typestate.exists_stateAt (T := K.typestate) hc
    have hp := (h.ends s i c g hm.typed hm.inv hc hg hvis).1 v hret
    rw [hm.answers, owed_eq hc hg, hp, Option.map_some]
  case aborted =>
    intro i c e hc hvis hstop
    obtain ⟨g, hg⟩ := Typestate.exists_stateAt (T := K.typestate) hc
    have hp := (h.ends s i c g hm.typed hm.inv hc hg hvis).2 e hstop
    rw [hm.answers, owed_eq hc hg, hp, Option.map_some]

/-- **One event of the pool.** -/
theorem simulates (h : K.Linearizes S O C I) :
    Simulates S.machine O.machine C (K.Matches I) := by
  intro s e s' a hC hm (hstep : S.step s e = some s')
  have hone : ∀ {b a'}, O.step a b = some a' → run O.machine.step a [b] = some a' := by
    intro b a' hb
    simp [Atomic.machine, hb]
  cases e with
  | outside x =>
      obtain ⟨w, hw, rfl⟩ := System.step_outside.mp hstep
      obtain ⟨hout, hprom, hI⟩ := h.outside s x w hm.typed hm.inv hw
      rw [← hm.object] at hout
      refine ⟨[.outside x], { a with object := K.view w }, hone (Atomic.step_outside hout),
        ⟨Typestate.typed_world hm.typed w, hI, rfl, ?_⟩, rfl⟩
      intro i p
      rw [owed_world hprom]
      exact hm.answers i p
  | spawn j =>
      rw [System.step_spawn.mp hstep]
      refine ⟨[], a, rfl, ⟨Typestate.typed_spawn hm.typed (h.obeys j),
        h.spawn s j hm.typed hm.inv hC, hm.object, ?_⟩, rfl⟩
      intro i p
      rw [owed_spawn hm.typed j _ (h.start s.world j)]
      exact hm.answers i p
  | act i c =>
      obtain ⟨j, b, k, r, w, hc, hr, rfl⟩ := System.step_act.mp hstep
      obtain ⟨g, hg⟩ := Typestate.exists_stateAt (T := K.typestate) hc
      have hcan := hm.typed.can_of_call hc hg rfl
      obtain ⟨hmoves, hothers, hI⟩ := h.act s i c j b k r w g hm.typed hm.inv hC hc hg hcan hr
      have howed := owed_act hc hg r w hothers
      have hown : K.owed s i = (K.promise s.world g).map fun o => (j, o) := owed_eq hc hg
      have hT := Typestate.typed_act hm.typed hc r w
      cases hmoves with
      | settles n o hfresh hserve hkept =>
          rw [hfresh, Option.map_none] at hown
          rw [← hm.object] at hserve
          have hnew : ∀ p, (i, p) ∉ a.answers := by
            intro p hp
            rw [hm.answers, hown] at hp
            simp at hp
          refine ⟨[.answer i j n], ⟨K.view w, a.answers ++ [(i, j, o)]⟩,
            hone (Atomic.step_answer hnew hserve), ⟨hT, hI, rfl, ?_⟩, rfl⟩
          intro m p
          rw [howed, hkept, List.mem_append, hm.answers]
          by_cases hmi : m = i
          · subst hmi
            simp [hown, eq_comm]
          · simp [hmi]
      | silent hview hkept =>
          refine ⟨[], a, rfl, ⟨hT, hI, hm.object.trans hview.symm, ?_⟩, rfl⟩
          intro m p
          rw [howed, hkept, ← hown, Function.update_eq_self]
          exact hm.answers m p

/-- **Linearizability.** Every run is followed by a run of the atomic machine that
explains its calls. -/
theorem follows (h : K.Linearizes S O C I) {w₀ : World} {es : List (Event Job Choice Ext)}
    {t : Pool Act Ans ε α Job World} (h₀ : I (Pool.boot w₀))
    (hC : Always S.step C (Pool.boot w₀) es) (hr : run S.step (Pool.boot w₀) es = some t) :
    ∃ log, Follows S.machine O.machine (Explains K.view K.visible) (Pool.boot w₀)
      ⟨K.view w₀, []⟩ es log := by
  have hboot : K.Matches I (Pool.boot w₀) ⟨K.view w₀, []⟩ := by
    refine ⟨Typestate.typed_boot w₀, h₀, rfl, ?_⟩
    intro i p
    simp [owed, Pool.boot]
  obtain ⟨log, hlog⟩ := h.simulates.follows hboot hC hr
  exact ⟨log, hlog.mono fun s a hm => h.explains hm⟩

end Linearizes

end Commitment

end Effects
