import IceSerialPort.Lib.Transition

/-!
# Refinement between two machines

A machine refines an abstract one when each of its steps, taken from related states, is
matched by some run of the abstract machine (none, one or several steps) that ends in
related states again and shows the same to the outside. Runs then match runs, and they
do so prefix by prefix: the abstract run can be cut wherever the concrete one is, so an
order of events that the concrete run has is kept by the abstract one.

## Main definitions

* `Machine`: a step function, and what each event shows to the outside.
* `Simulates`: the obligation on one step.
* `Follows`: an abstract run that keeps pace with a concrete one.
* `Simulates.follows`: what each step does, a whole run does.
-/

namespace Transition

/-- A machine whose events can be observed. -/
structure Machine (S E X : Type*) where
  step : S → E → Option S
  shows : E → List X

variable {S E A B X : Type*} (M : Machine S E X) (N : Machine A B X)

/-- From related states, a step that satisfies `C` is matched by an abstract run. -/
def Simulates (C : S → E → Prop) (R : S → A → Prop) : Prop :=
  ∀ s e s' a, C s e → R s a → M.step s e = some s' →
    ∃ bs a', run N.step a bs = some a' ∧ R s' a' ∧ bs.flatMap N.shows = M.shows e

/-- Both runs are possible, end in related states and show the same. -/
def Agree (R : S → A → Prop) (s : S) (a : A) (es : List E) (bs : List B) : Prop :=
  ∃ t c, run M.step s es = some t ∧ run N.step a bs = some c ∧ R t c ∧
    bs.flatMap N.shows = es.flatMap M.shows

/-- The abstract run `bs` keeps pace with the run `es`: the two agree, and wherever `es`
is cut, `bs` can be cut so that the two beginnings agree. -/
structure Follows (R : S → A → Prop) (s : S) (a : A) (es : List E) (bs : List B) : Prop where
  ends : Agree M N R s a es bs
  cuts : ∀ es₁ es₂, es = es₁ ++ es₂ → ∃ bs₁ bs₂, bs = bs₁ ++ bs₂ ∧ Agree M N R s a es₁ bs₁

variable {M N} {R : S → A → Prop} {C : S → E → Prop}

theorem agree_nil {s : S} {a : A} (h : R s a) : Agree M N R s a [] [] :=
  ⟨s, a, rfl, rfl, h, rfl⟩

/-- A matched step in front of agreeing runs. -/
theorem Agree.cons {s s' : S} {a a' : A} {e : E} {es : List E} {bs cs : List B}
    (hs : M.step s e = some s') (ha : run N.step a bs = some a')
    (hshow : bs.flatMap N.shows = M.shows e) (h : Agree M N R s' a' es cs) :
    Agree M N R s a (e :: es) (bs ++ cs) := by
  obtain ⟨t, c, ht, hc, hR, hshow'⟩ := h
  refine ⟨t, c, ?_, run_append_eq_some.mpr ⟨a', ha, hc⟩, hR, ?_⟩
  · rw [run_cons, hs, Option.bind_some, ht]
  · rw [List.flatMap_append, List.flatMap_cons, hshow, hshow']

theorem Agree.mono {R' : S → A → Prop} (hRR' : ∀ s a, R s a → R' s a) {s : S} {a : A}
    {es : List E} {bs : List B} (h : Agree M N R s a es bs) : Agree M N R' s a es bs := by
  obtain ⟨t, c, ht, hc, hR, hshow⟩ := h
  exact ⟨t, c, ht, hc, hRR' t c hR, hshow⟩

/-- A weaker relation is followed as well. -/
theorem Follows.mono {R' : S → A → Prop} (hRR' : ∀ s a, R s a → R' s a) {s : S} {a : A}
    {es : List E} {bs : List B} (h : Follows M N R s a es bs) : Follows M N R' s a es bs := by
  constructor
  · exact h.ends.mono hRR'
  · intro es₁ es₂ hes
    obtain ⟨bs₁, bs₂, hbs, hag⟩ := h.cuts es₁ es₂ hes
    exact ⟨bs₁, bs₂, hbs, hag.mono hRR'⟩

/-- A matched step in front of a run that is followed. -/
theorem Follows.cons {s s' : S} {a a' : A} {e : E} {es : List E} {bs cs : List B} (h : R s a)
    (hs : M.step s e = some s') (ha : run N.step a bs = some a')
    (hshow : bs.flatMap N.shows = M.shows e) (hrest : Follows M N R s' a' es cs) :
    Follows M N R s a (e :: es) (bs ++ cs) := by
  constructor
  · exact hrest.ends.cons hs ha hshow
  · intro es₁ es₂ hes
    cases es₁ with
    | nil => exact ⟨[], bs ++ cs, rfl, agree_nil h⟩
    | cons f fs =>
        rw [List.cons_append, List.cons.injEq] at hes
        obtain ⟨cs₁, cs₂, hcs, hag⟩ := hrest.cuts fs es₂ hes.2
        rw [← hes.1]
        refine ⟨bs ++ cs₁, cs₂, ?_, hag.cons hs ha hshow⟩
        rw [hcs, List.append_assoc]

/-- **Refinement of runs.** Every run whose steps satisfy `C` is followed by a run of
the abstract machine. -/
theorem Simulates.follows (h : Simulates M N C R) {s t : S} {a : A} {es : List E}
    (hR : R s a) (hC : Always M.step C s es) (hr : run M.step s es = some t) :
    ∃ bs, Follows M N R s a es bs := by
  induction es generalizing s a with
  | nil =>
      refine ⟨[], agree_nil hR, ?_⟩
      intro es₁ es₂ hes
      rw [(List.append_eq_nil_iff.mp hes.symm).1]
      exact ⟨[], [], rfl, agree_nil hR⟩
  | cons e es ih =>
      rw [run_cons, Option.bind_eq_some_iff] at hr
      obtain ⟨s', hs, hr⟩ := hr
      obtain ⟨bs, a', ha, hR', hshow⟩ := h s e s' a hC.1 hR hs
      obtain ⟨cs, hcs⟩ := ih hR' (hC.2 s' hs) hr
      exact ⟨bs ++ cs, hcs.cons hR hs ha hshow⟩

end Transition
