import Mathlib.Data.List.Basic

/-!
# Programs that call their environment

A program of this module is a finite tree: it ends with a value, it ends
abnormally, or it performs an action and goes on with the environment's answer.
The tree fixes what the program does for every answer, so one definition serves
a run on its own, a run interleaved with others (`Pool`) and a proof that quantifies
over what the environment may do.

The environment is `env : World → (a : Act) → Choice → Option (Ans a × World)`.
A choice settles what the environment is free to decide (whether a call fails,
how many bytes it moves); `none` says that the choice is impossible there.

## Main definitions

* `Prog Act Ans ε α`: programs, with the monad structure their authors write in.
* `Outcome`, `Report`: how a run ended, the world it left, what it performed.
* `execute`: a run on its own, given the environment's choices in order.
-/

namespace Effects

/-- A program with actions in `Act`, each answered in `Ans`, ending in an `α` or
abnormally in an `ε`. -/
inductive Prog (Act : Type) (Ans : Act → Type) (ε α : Type) where
  /-- The end of the program, with its value. -/
  | ret (a : α)
  /-- An abnormal end: nothing after it is executed. -/
  | stop (e : ε)
  /-- Perform `a`, then go on with the answer. -/
  | call (a : Act) (k : Ans a → Prog Act Ans ε α)

/-- How a run of a program ended. -/
inductive Outcome (ε α : Type) where
  | returned (a : α)
  | aborted (e : ε)
  deriving DecidableEq

/-- Apply a function to the value a run returned. -/
def Outcome.map {ε α β : Type} (f : α → β) : Outcome ε α → Outcome ε β
  | .returned a => .returned (f a)
  | .aborted e => .aborted e

/-- A performed action with the answer it got. -/
abbrev Performed {Act : Type} (Ans : Act → Type) := Σ a, Ans a

namespace Prog

variable {Act : Type} {Ans : Act → Type} {ε α β γ : Type}

/-- Run a program, then another that depends on its value. -/
protected def bind : Prog Act Ans ε α → (α → Prog Act Ans ε β) → Prog Act Ans ε β
  | .ret a, f => f a
  | .stop e, _ => .stop e
  | .call a k, f => .call a fun r => (k r).bind f

instance : Monad (Prog Act Ans ε) where
  pure := .ret
  bind := Prog.bind

@[simp] theorem pure_eq (a : α) : (pure a : Prog Act Ans ε α) = .ret a := rfl

@[simp] theorem ret_bind (a : α) (f : α → Prog Act Ans ε β) : (.ret a >>= f) = f a := rfl

@[simp] theorem stop_bind (e : ε) (f : α → Prog Act Ans ε β) :
    ((.stop e : Prog Act Ans ε α) >>= f) = .stop e := rfl

@[simp] theorem call_bind (a : Act) (k : Ans a → Prog Act Ans ε α) (f : α → Prog Act Ans ε β) :
    (.call a k >>= f) = .call a fun r => k r >>= f := rfl

@[simp] theorem bind_ret (p : Prog Act Ans ε α) : (p >>= .ret) = p := by
  induction p with
  | ret a => rfl
  | stop e => rfl
  | call a k ih => simp only [call_bind, ih]

theorem bind_assoc (p : Prog Act Ans ε α) (f : α → Prog Act Ans ε β)
    (g : β → Prog Act Ans ε γ) : ((p >>= f) >>= g) = (p >>= fun a => f a >>= g) := by
  induction p with
  | ret a => rfl
  | stop e => rfl
  | call a k ih => simp only [call_bind, ih]

instance : LawfulMonad (Prog Act Ans ε) :=
  LawfulMonad.mk' _ bind_ret (fun _ _ => rfl) bind_assoc

/-- The program that performs one action and ends with its answer. -/
def perform (a : Act) : Prog Act Ans ε (Ans a) := .call a .ret

@[simp] theorem perform_bind (a : Act) (f : Ans a → Prog Act Ans ε β) :
    (perform a >>= f) = .call a f := rfl

/-- The program has ended normally. -/
def Returned : Prog Act Ans ε α → Prop
  | .ret _ => True
  | _ => False

instance : DecidablePred (Returned : Prog Act Ans ε α → Prop)
  | .ret _ => isTrue trivial
  | .stop _ => isFalse id
  | .call _ _ => isFalse id

/-- The program has ended, normally or not. -/
def Ended : Prog Act Ans ε α → Prop
  | .call _ _ => False
  | _ => True

instance : DecidablePred (Ended : Prog Act Ans ε α → Prop)
  | .ret _ => isTrue trivial
  | .stop _ => isTrue trivial
  | .call _ _ => isFalse id

/-- The action that a program performs next. -/
def action? : Prog Act Ans ε α → Option Act
  | .call a _ => some a
  | _ => none

/-- The value of a program that has ended normally. -/
def value? : Prog Act Ans ε α → Option α
  | .ret a => some a
  | _ => none

@[simp] theorem value?_eq_some {p : Prog Act Ans ε α} {a : α} :
    p.value? = some a ↔ p = .ret a := by
  cases p <;> simp [value?]

@[simp] theorem action?_eq_some {p : Prog Act Ans ε α} {a : Act} :
    p.action? = some a ↔ ∃ k, p = .call a k := by
  cases p with
  | ret b => simp [action?]
  | stop e => simp [action?]
  | call b k =>
      simp only [action?, Option.some.injEq]
      constructor
      · rintro rfl
        exact ⟨k, rfl⟩
      · intro ⟨k', h⟩
        exact (Prog.call.inj h).1

theorem returned_iff {p : Prog Act Ans ε α} : p.Returned ↔ ∃ a, p = .ret a := by
  cases p <;> simp [Returned]

theorem ended_iff {p : Prog Act Ans ε α} : p.Ended ↔ p.Returned ∨ ∃ e, p = .stop e := by
  cases p <;> simp [Ended, Returned]

end Prog

/-- What a run on its own leaves behind. -/
structure Report {Act : Type} (Ans : Act → Type) (ε α World : Type) where
  outcome : Outcome ε α
  world : World
  trace : List (Performed Ans)

section Execute

variable {Act : Type} {Ans : Act → Type} {ε α β World Choice : Type}
variable (env : World → (a : Act) → Choice → Option (Ans a × World))

/-- Run a program on its own. The environment's choices are taken in order, one for
each action; those the program does not live to see are ignored, and `none` means
that they ran out or that one of them was impossible. -/
def execute : Prog Act Ans ε α → World → List Choice → Option (Report Ans ε α World)
  | .ret a, w, _ => some ⟨.returned a, w, []⟩
  | .stop e, w, _ => some ⟨.aborted e, w, []⟩
  | .call _ _, _, [] => none
  | .call a k, w, c :: cs => do
      let (r, w') ← env w a c
      let rep ← execute (k r) w' cs
      pure { rep with trace := ⟨a, r⟩ :: rep.trace }

@[simp] theorem execute_ret (a : α) (w : World) (cs : List Choice) :
    execute env (.ret a : Prog Act Ans ε α) w cs = some ⟨.returned a, w, []⟩ := rfl

@[simp] theorem execute_stop (e : ε) (w : World) (cs : List Choice) :
    execute env (.stop e : Prog Act Ans ε α) w cs = some ⟨.aborted e, w, []⟩ := rfl

/-- One action of a run on its own: the environment answers, the rest is run. -/
theorem execute_call_eq_some {a : Act} {k : Ans a → Prog Act Ans ε α} {w : World}
    {cs : List Choice} {rep : Report Ans ε α World} :
    execute env (.call a k) w cs = some rep ↔
      ∃ c cs' r w' rep', cs = c :: cs' ∧ env w a c = some (r, w') ∧
        execute env (k r) w' cs' = some rep' ∧
        rep = { rep' with trace := ⟨a, r⟩ :: rep'.trace } := by
  cases cs with
  | nil => simp [execute]
  | cons c cs =>
      simp only [execute, Option.bind_eq_bind, Option.bind_eq_some_iff, Option.pure_def,
        Option.some.injEq, Prod.exists]
      constructor
      · rintro ⟨r, w', hr, rep', hrep, rfl⟩
        exact ⟨c, cs, r, w', rep', rfl, hr, hrep, rfl⟩
      · rintro ⟨c', cs', r, w', rep', hc, hr, hrep, rfl⟩
        obtain ⟨rfl, rfl⟩ := List.cons.inj hc
        exact ⟨r, w', hr, rep', hrep, rfl⟩

/-- Applying a function to a program's value changes nothing else about its runs. -/
theorem execute_map (f : α → β) (p : Prog Act Ans ε α) (w : World) (cs : List Choice) :
    execute env (f <$> p) w cs =
      (execute env p w cs).map fun rep => ⟨rep.outcome.map f, rep.world, rep.trace⟩ := by
  rw [map_eq_pure_bind]
  induction p generalizing w cs with
  | ret a => rfl
  | stop e => rfl
  | call a k ih =>
      cases cs with
      | nil => rfl
      | cons c cs =>
          simp only [Prog.call_bind, execute, Option.bind_eq_bind]
          cases env w a c with
          | none => rfl
          | some rw' =>
              simp only [Option.bind_some, ih]
              cases execute env (k rw'.1) rw'.2 cs <;> rfl

end Execute

end Effects
