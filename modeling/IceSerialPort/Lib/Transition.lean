import Mathlib.Data.List.Basic

/-!
# Runs of a partial step function

A machine is given by `step : S → E → Option S`: in state `s` the event `e` is
possible when `step s e` is some next state. A run folds a list of events. The
two rules every safety result goes through are `run_append`, which cuts a run at
any point, and `run_invariant`, the induction along a run.

An assumption about the steps of a run, such as "no call fails" or "nobody else
is writing now", is a relation between the state before a step and its event.
`Always` says that every step a run takes satisfies it.

## Main definitions

* `run step s es`: the state after the events `es`, if all of them are possible.
* `Always step C s es`: every step of the run of `es` from `s` satisfies `C`.
* `run_invariant`: what one step preserves, a run preserves.
-/

namespace Transition

variable {S E : Type*} {step : S → E → Option S}

/-- The state after a list of events; `none` as soon as one is impossible. -/
def run (step : S → E → Option S) : S → List E → Option S
  | s, [] => some s
  | s, e :: es => (step s e).bind fun s' => run step s' es

/-- Every step that the run of `es` from `s` takes satisfies `C`. -/
def Always (step : S → E → Option S) (C : S → E → Prop) : S → List E → Prop
  | _, [] => True
  | s, e :: es => C s e ∧ ∀ s', step s e = some s' → Always step C s' es

/-- Assumptions that can be tested can be tested along a run. -/
def decideAlways (step : S → E → Option S) (C : S → E → Prop) [∀ s e, Decidable (C s e)] :
    (s : S) → (es : List E) → Decidable (Always step C s es)
  | _, [] => isTrue trivial
  | s, e :: es =>
      have : Decidable (∀ s', step s e = some s' → Always step C s' es) :=
        match step s e with
        | none => isTrue (by simp)
        | some s' =>
            have := decideAlways step C s' es
            decidable_of_iff (Always step C s' es) (by simp)
      inferInstanceAs (Decidable (_ ∧ _))

instance {C : S → E → Prop} [∀ s e, Decidable (C s e)] (s : S) (es : List E) :
    Decidable (Always step C s es) := decideAlways step C s es

@[simp] theorem run_nil (s : S) : run step s [] = some s := rfl

@[simp] theorem run_cons (s : S) (e : E) (es : List E) :
    run step s (e :: es) = (step s e).bind fun s' => run step s' es := rfl

theorem run_append (s : S) (es fs : List E) :
    run step s (es ++ fs) = (run step s es).bind fun s' => run step s' fs := by
  induction es generalizing s with
  | nil => rfl
  | cons e es ih =>
      cases h : step s e with
      | none => simp [h]
      | some s' => simp [h, ih]

/-- A run of two parts passes through a state between them. -/
theorem run_append_eq_some {s t : S} {es fs : List E} :
    run step s (es ++ fs) = some t ↔ ∃ u, run step s es = some u ∧ run step u fs = some t := by
  rw [run_append, Option.bind_eq_some_iff]

theorem Always.mono {C D : S → E → Prop} (hCD : ∀ s e, C s e → D s e) {s : S} {es : List E}
    (h : Always step C s es) : Always step D s es := by
  induction es generalizing s with
  | nil => trivial
  | cons e es ih => exact ⟨hCD s e h.1, fun s' hs => ih (h.2 s' hs)⟩

/-- An assumption on events alone holds of every step when it holds of every event. -/
theorem always_of_forall_mem {C : E → Prop} {s : S} {es : List E} (h : ∀ e ∈ es, C e) :
    Always step (fun _ e => C e) s es := by
  induction es generalizing s with
  | nil => trivial
  | cons e es ih =>
      exact ⟨h e List.mem_cons_self, fun s' _ => ih fun f hf => h f (List.mem_cons_of_mem e hf)⟩

/-- No assumption at all. -/
theorem always_true {s : S} {es : List E} : Always step (fun _ _ => True) s es :=
  always_of_forall_mem (C := fun _ => True) fun _ _ => trivial

/-- **Induction along a run.** An invariant of the steps that satisfy `C` holds at
the end of every run whose steps all satisfy `C`. -/
theorem run_invariant {C : S → E → Prop} {I : S → Prop}
    (hstep : ∀ s e s', C s e → I s → step s e = some s' → I s')
    {s t : S} {es : List E} (h₀ : I s) (hC : Always step C s es)
    (hr : run step s es = some t) : I t := by
  induction es generalizing s with
  | nil =>
      obtain rfl : s = t := by simpa using hr
      exact h₀
  | cons e es ih =>
      obtain ⟨s', hs, hr⟩ := Option.bind_eq_some_iff.mp hr
      exact ih (hstep s e s' hC.1 h₀ hs) (hC.2 s' hs) hr

/-- Induction along a run with no assumption on its steps. -/
theorem run_invariant_of_step {I : S → Prop}
    (hstep : ∀ s e s', I s → step s e = some s' → I s')
    {s t : S} {es : List E} (h₀ : I s) (hr : run step s es = some t) : I t :=
  run_invariant (fun s e s' _ => hstep s e s') h₀ always_true hr

/-- Two assumptions on the same run are one. -/
theorem Always.and {C D : S → E → Prop} {s : S} {es : List E}
    (hC : Always step C s es) (hD : Always step D s es) :
    Always step (fun s e => C s e ∧ D s e) s es := by
  induction es generalizing s with
  | nil => trivial
  | cons e es ih => exact ⟨⟨hC.1, hD.1⟩, fun s' hs => ih (hC.2 s' hs) (hD.2 s' hs)⟩

/-- The steps of a run of two parts are those of the first, and those of the second from
wherever the first has led. -/
theorem always_append {C : S → E → Prop} {s : S} {es fs : List E} :
    Always step C s (es ++ fs) ↔
      Always step C s es ∧ ∀ t, run step s es = some t → Always step C t fs := by
  induction es generalizing s with
  | nil => simp [Always]
  | cons e es ih =>
      constructor
      · rintro ⟨hC, hrest⟩
        refine ⟨⟨hC, fun s' hs => (ih.mp (hrest s' hs)).1⟩, fun t ht => ?_⟩
        obtain ⟨s', hs, hr⟩ := Option.bind_eq_some_iff.mp ht
        exact (ih.mp (hrest s' hs)).2 t hr
      · rintro ⟨⟨hC, hrest⟩, hafter⟩
        refine ⟨hC, fun s' hs => ih.mpr ⟨hrest s' hs, fun t ht => hafter t ?_⟩⟩
        rw [run_cons, hs]
        exact ht

end Transition
