import IceSerialPort.Lib.Counting
import IceSerialPort.Lib.Pool

/-!
# How long a pool can run

A program that performs at most `n` actions, whatever it is answered, is `Within n`.
Each action uses one up, so a pool of such programs performs at most `n` actions for
each call that is started. Where in addition some call can always go on, the pool can
be run until every call has ended.

## Main definitions

* `Prog.Within`: at most so many actions are left.
* `Budget`: what is left for each call of a pool.
* `actions_le`: no run performs more actions than its calls have.
* `exists_run_quiet`: where some call can always go on, all calls can be ended.
-/

namespace Effects

open Transition

variable {Act : Type} {Ans : Act → Type} {ε α Job World Choice Ext : Type}

/-- At most `n` actions are left, whatever they are answered. -/
def Prog.Within : ℕ → Prog Act Ans ε α → Prop
  | _, .ret _ => True
  | _, .stop _ => True
  | 0, .call _ _ => False
  | n + 1, .call _ k => ∀ r, Within n (k r)

theorem Prog.Within.mono {m n : ℕ} (hmn : m ≤ n) {p : Prog Act Ans ε α} (h : p.Within m) :
    p.Within n := by
  induction p generalizing m n with
  | ret a => cases n <;> trivial
  | stop e => cases n <;> trivial
  | call a k ih =>
      cases m with
      | zero => exact h.elim
      | succ m =>
          cases n with
          | zero => omega
          | succ n => exact fun r => ih r (Nat.le_of_succ_le_succ hmn) (h r)

/-- The number of actions in a list of events. -/
def actions (es : List (Event Job Choice Ext)) : ℕ :=
  es.countP fun
    | .act _ _ => true
    | _ => false

/-- The number of calls that a list of events starts. -/
def spawns (es : List (Event Job Choice Ext)) : ℕ :=
  es.countP fun
    | .spawn _ => true
    | _ => false

/-- What is left for each call. -/
def Budget (s : Pool Act Ans ε α Job World) (left : List ℕ) : Prop :=
  List.Forall₂ (fun (c : Call Act Ans ε α Job) n => c.rest.Within n) s.calls left

theorem budget_boot (w : World) :
    Budget (Pool.boot w : Pool Act Ans ε α Job World) [] := List.Forall₂.nil

/-- Taking one away from a part takes one away from the sum. -/
theorem sum_set_pred {left : List ℕ} {i n : ℕ} (h : left[i]? = some (n + 1)) :
    (left.set i n).sum + 1 = left.sum := by
  have hset := sum_map_set_add (f := id) h n
  simp only [List.map_id, id_eq] at hset
  omega

/-- A related list stays related where both are changed at one place. -/
theorem forall₂_set {β γ : Type} {R : β → γ → Prop} {xs : List β} {ys : List γ} {i : ℕ} {x : β}
    {y : γ} (h : List.Forall₂ R xs ys) (hxy : R x y) :
    List.Forall₂ R (xs.set i x) (ys.set i y) := by
  induction h generalizing i with
  | nil => simp
  | cons hab hrest ih =>
      cases i with
      | zero => exact .cons hxy hrest
      | succ i => exact .cons hab ih

theorem forall₂_getElem? {β γ : Type} {R : β → γ → Prop} {xs : List β} {ys : List γ} {i : ℕ}
    {x : β} (h : List.Forall₂ R xs ys) (hx : xs[i]? = some x) : ∃ y, ys[i]? = some y ∧ R x y := by
  induction h generalizing i with
  | nil => simp at hx
  | cons hab hrest ih =>
      cases i with
      | zero =>
          obtain rfl := Option.some.inj hx
          exact ⟨_, rfl, hab⟩
      | succ i => exact ih hx

section Runs

variable {S : System Act Ans ε α Job World Choice Ext} {n : ℕ}
  {s s' t : Pool Act Ans ε α Job World}

/-- **An action uses one up.** -/
theorem budget_act {i : ℕ} {c : Choice} {left : List ℕ} (hb : Budget s left)
    (h : S.step s (.act i c) = some s') : ∃ left', Budget s' left' ∧ left'.sum + 1 = left.sum := by
  obtain ⟨j, a, k, r, w, hc, -, rfl⟩ := System.step_act.mp h
  obtain ⟨m, hm, hwithin⟩ := forall₂_getElem? hb hc
  cases m with
  | zero => exact hwithin.elim
  | succ m => exact ⟨left.set i m, forall₂_set hb (hwithin r), sum_set_pred hm⟩

/-- **One event**: an action uses one up, a new call brings `n`. -/
theorem budget_step (hprog : ∀ j, (S.program j).Within n) {e : Event Job Choice Ext}
    {left : List ℕ} (hb : Budget s left) (h : S.step s e = some s') :
    ∃ left', Budget s' left' ∧ actions [e] + left'.sum = left.sum + n * spawns [e] := by
  cases e with
  | outside x =>
      obtain ⟨w, -, rfl⟩ := System.step_outside.mp h
      exact ⟨left, hb, by simp [actions, spawns]⟩
  | spawn j =>
      rw [System.step_spawn.mp h]
      refine ⟨left ++ [n], List.rel_append hb (.cons (hprog j) .nil), ?_⟩
      simp [actions, spawns]
  | act i c =>
      obtain ⟨left', hb', hsum⟩ := budget_act hb h
      refine ⟨left', hb', ?_⟩
      simp only [actions, spawns, List.countP_singleton, if_true, Bool.false_eq_true, if_false]
      omega

/-- **A run**: what its actions used and what is left is what its calls brought. -/
theorem budget_run (hprog : ∀ j, (S.program j).Within n) {es : List (Event Job Choice Ext)}
    {left : List ℕ} (hb : Budget s left) (h : run S.step s es = some t) :
    ∃ left', Budget t left' ∧ actions es + left'.sum = left.sum + n * spawns es := by
  induction es generalizing s left with
  | nil =>
      obtain rfl : s = t := by simpa using h
      exact ⟨left, hb, by simp [actions, spawns]⟩
  | cons e es ih =>
      rw [run_cons, Option.bind_eq_some_iff] at h
      obtain ⟨u, hu, h⟩ := h
      obtain ⟨mid, hmid, h1⟩ := budget_step hprog hb hu
      obtain ⟨left', hb', h2⟩ := ih hmid h
      refine ⟨left', hb', ?_⟩
      have ha : actions (e :: es) = actions [e] + actions es := @List.countP_append _ _ [e] es
      have hs : spawns (e :: es) = spawns [e] + spawns es := @List.countP_append _ _ [e] es
      rw [ha, hs, Nat.mul_add]
      omega

/-- Every call of a run was started in it. -/
theorem length_calls_run {es : List (Event Job Choice Ext)} (h : run S.step s es = some t) :
    t.calls.length = s.calls.length + spawns es := by
  induction es generalizing s with
  | nil =>
      obtain rfl : s = t := by simpa using h
      rfl
  | cons e es ih =>
      rw [run_cons, Option.bind_eq_some_iff] at h
      obtain ⟨u, hu, h⟩ := h
      rw [ih h, spawns, spawns, List.countP_cons]
      cases e with
      | outside x =>
          obtain ⟨w, -, rfl⟩ := System.step_outside.mp hu
          rfl
      | spawn j =>
          rw [System.step_spawn.mp hu, List.length_append, List.length_singleton, if_pos rfl]
          omega
      | act i c =>
          obtain ⟨j, a, k, r, w, -, -, rfl⟩ := System.step_act.mp hu
          rw [List.length_set]
          rfl

/-- What the calls of a run have left is at most what they brought. -/
theorem exists_budget (hprog : ∀ j, (S.program j).Within n) {w : World}
    {es : List (Event Job Choice Ext)} (h : run S.step (Pool.boot w) es = some t) :
    ∃ left, Budget t left ∧ left.sum ≤ n * t.calls.length := by
  obtain ⟨left, hb, hsum⟩ := budget_run hprog (budget_boot w) h
  refine ⟨left, hb, ?_⟩
  have hlen : t.calls.length = spawns es := by
    rw [length_calls_run h]
    exact Nat.zero_add _
  rw [List.sum_nil] at hsum
  rw [hlen]
  omega

/-- **No run performs more than `n` actions for each call it starts.** -/
theorem actions_le (hprog : ∀ j, (S.program j).Within n) {w : World}
    {es : List (Event Job Choice Ext)} (h : run S.step (Pool.boot w) es = some t) :
    actions es ≤ n * spawns es := by
  obtain ⟨left, -, hsum⟩ := budget_run hprog (budget_boot w) h
  simp only [List.sum_nil] at hsum
  omega

/-- In every state of `I` with a call in progress there is an event of a call that leads
to `I` again, after a few others that start no call and act for none. Then all calls can be
ended, by events that satisfy `C`. -/
theorem exists_run_quiet {I : Pool Act Ans ε α Job World → Prop}
    {C : Pool Act Ans ε α Job World → Event Job Choice Ext → Prop} {m : ℕ}
    (hgo : ∀ s, I s → ¬ s.Quiet → ∃ es i c u v, es.length ≤ m ∧ actions es = 0 ∧
      spawns es = 0 ∧ run S.step s es = some u ∧ u.calls = s.calls ∧
      S.step u (.act i c) = some v ∧ I v ∧ Always S.step C s es ∧ C u (.act i c))
    {left : List ℕ} (hI : I s) (hb : Budget s left) :
    ∃ es t, run S.step s es = some t ∧ t.Quiet ∧ spawns es = 0 ∧ actions es ≤ left.sum ∧
      es.length ≤ (m + 1) * left.sum ∧ Always S.step C s es := by
  induction hsum : left.sum using Nat.strongRecOn generalizing s left with
  | ind total ih =>
      by_cases hq : s.Quiet
      · exact ⟨[], s, rfl, hq, rfl, Nat.zero_le _, Nat.zero_le _, trivial⟩
      · obtain ⟨es, i, c, u, v, hlen, hno, hspawn, hu, hcalls, hv, hIv, hall, hact⟩ := hgo s hI hq
        have hbu : Budget u left := by
          rw [Budget, hcalls]
          exact hb
        obtain ⟨left', hb', hsum'⟩ := budget_act hbu hv
        obtain ⟨fs, t, ht, hquiet, hspawn', hacts, hlen', hall'⟩ :=
          ih left'.sum (by omega) hIv hb' rfl
        have hrun : run S.step u (.act i c :: fs) = some t := by
          rw [run_cons, hv, Option.bind_some, ht]
        have htail : Always S.step C u (.act i c :: fs) := by
          refine ⟨hact, fun v' hv' => ?_⟩
          obtain rfl := Option.some.inj (hv.symm.trans hv')
          exact hall'
        refine ⟨es ++ .act i c :: fs, t, run_append_eq_some.mpr ⟨u, hu, hrun⟩, hquiet, ?_, ?_, ?_,
          always_append.mpr ⟨hall, fun v hv => Option.some.inj (hu.symm.trans hv) ▸ htail⟩⟩
        · rw [spawns, List.countP_append, List.countP_cons]
          change spawns es + (spawns fs + 0) = 0
          omega
        · rw [actions, List.countP_append, List.countP_cons]
          change actions es + (actions fs + 1) ≤ total
          omega
        · have hmul : (m + 1) * left'.sum + (m + 1) = (m + 1) * total := by
            rw [← hsum, ← hsum', Nat.mul_succ]
          simp only [List.length_append, List.length_cons]
          omega

end Runs

end Effects
