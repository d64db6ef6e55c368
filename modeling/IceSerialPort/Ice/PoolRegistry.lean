import IceSerialPort.Ice.ThreadPool

/-!
# What the thread pool knows about descriptors

Descriptors are registered and unregistered by appending to a queue of changes and waking
the leader, which makes one change for every byte it finds in its pipe. The number of
bytes and the queue agree at every moment, and as long as nobody registers a descriptor
twice every change finds what it expects.

## Main definitions

* `Registry`, `Registry.Consistent`: the handlers, and the changes that are pending.
* `Disciplined`: what the connections promise about registering descriptors.

## Main results

* `consistent_change`, `consistent_destroy`: the operations of the pool keep it consistent.
* `applyChange_ok`: the leader can make every change.
-/

namespace IceSerialPort.Ice

variable {H : Type}

/-! ## The registered handlers -/

/-- What the pool knows about descriptors. -/
structure Registry (H : Type) where
  destroyed : Bool
  changes : List (Int × Option H)
  handlerMap : List (Int × H)
  fdIntrRead : Int
  maxFd : Int
  minFd : Int
  interrupts : ℕ

def ThreadPool.registry (p : ThreadPool H) : Registry H where
  destroyed := p.destroyed
  changes := p.changes
  handlerMap := p.handlerMap
  fdIntrRead := p.fdIntrRead
  maxFd := p.maxFd
  minFd := p.minFd
  interrupts := p.interrupts

/-- What the pool knows about its threads. -/
structure Workers (H : Type) where
  sizes : Sizes
  destroyed : Bool
  threads : List (Thread H)
  running : ℤ
  inUse : ℤ
  promote : Bool
  log : List PoolMessage

def ThreadPool.workers (p : ThreadPool H) : Workers H where
  sizes := p.sizes
  destroyed := p.destroyed
  threads := p.threads
  running := p.running
  inUse := p.inUse
  promote := p.promote
  log := p.log

namespace Registry

/-- The descriptors with a handler. -/
def keys (handlerMap : List (Int × H)) (fd : Int) : Bool := handlerMap.any fun e => e.1 = fd

/-- The descriptors that have a handler after some changes. -/
def applied : (Int → Bool) → List (Int × Option H) → Int → Bool
  | keys, [] => keys
  | keys, (fd, handler) :: rest => applied (Function.update keys fd handler.isSome) rest

/-- Every change adds a handler where there is none, or removes one that is there. -/
def Alternates : (Int → Bool) → List (Int × Option H) → Prop
  | _, [] => True
  | keys, (fd, handler) :: rest =>
      keys fd = !handler.isSome ∧ Alternates (Function.update keys fd handler.isSome) rest

theorem applied_append (keys : Int → Bool) (cs ds : List (Int × Option H)) :
    applied keys (cs ++ ds) = applied (applied keys cs) ds := by
  induction cs generalizing keys with
  | nil => rfl
  | cons c cs ih => exact ih _

theorem alternates_append {keys : Int → Bool} {cs ds : List (Int × Option H)} :
    Alternates keys (cs ++ ds) ↔ Alternates keys cs ∧ Alternates (applied keys cs) ds := by
  induction cs generalizing keys with
  | nil => simp [Alternates, applied]
  | cons c cs ih =>
      simp only [List.cons_append, Alternates, applied, ih, and_assoc]

/-- The registry at any time. -/
structure Consistent (r : Registry H) : Prop where
  alternates : Alternates (keys r.handlerMap) r.changes
  interrupts : r.interrupts = r.changes.length + r.destroyed.toNat
  destroyed : r.destroyed = true → r.changes = [] ∧ r.handlerMap = []
  range : ∀ e ∈ r.handlerMap, r.minFd ≤ e.1 ∧ e.1 ≤ r.maxFd
  interrupt : r.minFd ≤ r.fdIntrRead ∧ r.fdIntrRead ≤ r.maxFd

end Registry

namespace Registry

theorem keys_eq_true {m : List (Int × H)} {fd : Int} :
    keys m fd = true ↔ ∃ h, (fd, h) ∈ m := by
  simp only [keys, List.any_eq_true, decide_eq_true_eq]
  constructor
  · rintro ⟨⟨k, h⟩, hmem, rfl⟩
    exact ⟨h, hmem⟩
  · rintro ⟨h, hmem⟩
    exact ⟨(fd, h), hmem, rfl⟩

/-- A descriptor with a handler is found. -/
theorem exists_lookup {m : List (Int × H)} {fd : Int} (h : keys m fd = true) :
    ∃ handler, m.lookup fd = some handler := by
  cases hl : m.lookup fd with
  | some handler => exact ⟨handler, rfl⟩
  | none =>
      rw [List.lookup_eq_none_iff] at hl
      obtain ⟨handler, hmem⟩ := keys_eq_true.mp h
      exact absurd (hl _ hmem) (by simp)

/-- A descriptor that is found has a handler. -/
theorem mem_of_lookup {m : List (Int × H)} {fd : Int} {handler : H}
    (h : m.lookup fd = some handler) : (fd, handler) ∈ m := by
  obtain ⟨l₁, l₂, rfl, -⟩ := List.lookup_eq_some_iff.mp h
  exact List.mem_append_right _ List.mem_cons_self

theorem keys_insert {m : List (Int × H)} {fd : Int} (handler : H) (h : keys m fd = false) :
    keys ((fd, handler) :: m) = Function.update (keys m) fd true := by
  funext k
  by_cases hk : k = fd
  · subst hk
    simp [keys]
  · simp [keys, Function.update_of_ne hk, Ne.symm hk]

theorem keys_erase (m : List (Int × H)) (fd : Int) :
    keys (m.filter (·.1 ≠ fd)) = Function.update (keys m) fd false := by
  funext k
  rw [Bool.eq_iff_iff]
  by_cases hk : k = fd
  · subst hk
    simp [keys_eq_true]
  · simp [keys_eq_true, hk]

theorem le_foldl_max (xs : List Int) (a : Int) :
    a ≤ xs.foldl max a ∧ ∀ x ∈ xs, x ≤ xs.foldl max a := by
  induction xs generalizing a with
  | nil => simp
  | cons x xs ih =>
      obtain ⟨h1, h2⟩ := ih (max a x)
      refine ⟨by simp only [List.foldl_cons]; omega, ?_⟩
      intro y hy
      rcases List.mem_cons.mp hy with rfl | hy
      · simp only [List.foldl_cons]
        omega
      · exact h2 y hy

theorem foldl_min_le (xs : List Int) (a : Int) :
    xs.foldl min a ≤ a ∧ ∀ x ∈ xs, xs.foldl min a ≤ x := by
  induction xs generalizing a with
  | nil => simp
  | cons x xs ih =>
      obtain ⟨h1, h2⟩ := ih (min a x)
      refine ⟨by simp only [List.foldl_cons]; omega, ?_⟩
      intro y hy
      rcases List.mem_cons.mp hy with rfl | hy
      · simp only [List.foldl_cons]
        omega
      · exact h2 y hy

end Registry

namespace ThreadPool

/-- The descriptor has a handler, or will have one once the pending changes are made. -/
def Registered (p : ThreadPool H) (fd : Int) : Prop :=
  Registry.applied (Registry.keys p.handlerMap) p.changes fd = true

instance (p : ThreadPool H) (fd : Int) : Decidable (p.Registered fd) :=
  inferInstanceAs (Decidable (_ = true))

/-- What the connections and acceptors promise, which keep track of it in their
`_registeredWithPool`: they register a descriptor that is not registered, unregister one
that is, and the pool is destroyed when nothing is left. -/
def Disciplined (p : ThreadPool H) : PoolEvent H → Prop
  | .register fd _ => p.destroyed = false ∧ ¬ p.Registered fd
  | .unregister fd => p.destroyed = false ∧ p.Registered fd
  | .destroy => p.destroyed = false ∧ p.handlerMap = [] ∧ p.changes = []
  | _ => True

instance (p : ThreadPool H) (e : PoolEvent H) : Decidable (p.Disciplined e) :=
  match e with
  | .register _ _ => inferInstanceAs (Decidable (_ ∧ _))
  | .unregister _ => inferInstanceAs (Decidable (_ ∧ _))
  | .destroy =>
      have : Decidable (p.handlerMap = []) := decidable_of_iff _ List.isEmpty_iff
      have : Decidable (p.changes = []) := decidable_of_iff _ List.isEmpty_iff
      inferInstanceAs (Decidable (_ ∧ _))
  | .follow _ | .wake _ | .select _ _ | .discard _ | .promoteFollower _ _ _ | .finish _
  | .handOver _ _ | .stop _ => inferInstanceAs (Decidable True)

variable {p q : ThreadPool H}

/-- A change that alternates with those before it. -/
theorem consistent_change {fd : Int} {handler : Option H} (h : p.registry.Consistent)
    (hd : p.destroyed = false)
    (hreg : Registry.applied (Registry.keys p.handlerMap) p.changes fd = !handler.isSome) :
    ∃ q, p.change fd handler = .ok q ∧ q.registry.Consistent ∧ q.workers = p.workers := by
  refine ⟨{ p with changes := p.changes ++ [(fd, handler)], interrupts := p.interrupts + 1 },
    by rw [change, if_neg (by simp [hd])], ?_, rfl⟩
  constructor
  case alternates => exact Registry.alternates_append.mpr ⟨h.alternates, hreg, trivial⟩
  case interrupts =>
    have hi := h.interrupts
    simp only [registry, List.length_append, List.length_singleton] at hi ⊢
    omega
  case destroyed =>
    intro hd'
    exact absurd (hd.symm.trans hd') (by simp)
  case range => exact h.range
  case interrupt => exact h.interrupt

theorem consistent_destroy (h : p.registry.Consistent) (hd : p.destroyed = false)
    (hm : p.handlerMap = []) (hc : p.changes = []) :
    ∃ q, p.destroy = .ok q ∧ q.registry.Consistent ∧
      q.workers = { p.workers with destroyed := true } := by
  refine ⟨{ p with destroyed := true, interrupts := p.interrupts + 1 },
    by rw [destroy, if_neg (by simp [hd]), if_neg (by simp [hm]), if_neg (by simp [hc])], ?_, rfl⟩
  constructor
  case alternates => exact h.alternates
  case interrupts =>
    have hi := h.interrupts
    simp only [registry, hd, Bool.toNat_true, Bool.toNat_false] at hi ⊢
    omega
  case destroyed => exact fun _ => ⟨hc, hm⟩
  case range => exact h.range
  case interrupt => exact h.interrupt

/-- What a descriptor's handler is added to, it is added to the keys of. -/
theorem consistent_addHandler {fd : Int} {handler : H} (h : p.registry.Consistent)
    (hd : p.destroyed = false) {rest : List (Int × Option H)}
    (hc : p.changes = (fd, some handler) :: rest) :
    ((p.popChange rest).addHandler fd handler).registry.Consistent := by
  have halt : Registry.Alternates (Registry.keys p.handlerMap) p.changes := h.alternates
  have hi : p.interrupts = p.changes.length + p.destroyed.toNat := h.interrupts
  rw [hc] at halt hi
  obtain ⟨hkey, halt⟩ := halt
  have hfree : ¬ p.handlerMap.any (fun e => e.1 = fd) = true := by
    rw [show p.handlerMap.any (fun e => e.1 = fd) = false from hkey]
    exact (by simp)
  have hmap : ((p.popChange rest).addHandler fd handler).handlerMap =
      (fd, handler) :: p.handlerMap := if_neg hfree
  constructor
  case alternates =>
    show Registry.Alternates
      (Registry.keys ((p.popChange rest).addHandler fd handler).handlerMap) rest
    rw [hmap, Registry.keys_insert handler hkey]
    exact halt
  case interrupts =>
    simp only [registry, addHandler, popChange, hi, List.length_cons]
    omega
  case destroyed =>
    intro hd'
    exact absurd (hd.symm.trans hd') (by simp)
  case range =>
    intro e (he : e ∈ ((p.popChange rest).addHandler fd handler).handlerMap)
    show min p.minFd fd ≤ e.1 ∧ e.1 ≤ max p.maxFd fd
    rw [hmap] at he
    rcases List.mem_cons.mp he with rfl | he
    · omega
    · have hr : p.minFd ≤ e.1 ∧ e.1 ≤ p.maxFd := h.range e he
      omega
  case interrupt =>
    have hint : p.minFd ≤ p.fdIntrRead ∧ p.fdIntrRead ≤ p.maxFd := h.interrupt
    simp only [registry, addHandler, popChange]
    omega

/-- What a descriptor's handler is removed from, it is removed from the keys of. -/
theorem consistent_removeHandler {fd : Int} (h : p.registry.Consistent)
    (hd : p.destroyed = false) {rest : List (Int × Option H)}
    (hc : p.changes = (fd, none) :: rest) :
    ((p.popChange rest).removeHandler fd).registry.Consistent := by
  have halt : Registry.Alternates (Registry.keys p.handlerMap) p.changes := h.alternates
  have hi : p.interrupts = p.changes.length + p.destroyed.toNat := h.interrupts
  rw [hc] at halt hi
  constructor
  case alternates =>
    simp only [registry, removeHandler, popChange]
    rw [Registry.keys_erase]
    exact halt.2
  case interrupts =>
    simp only [registry, removeHandler, popChange, hi, List.length_cons]
    omega
  case destroyed =>
    intro hd'
    exact absurd (hd.symm.trans hd') (by simp)
  case range =>
    intro e he
    have hmem : e.1 ∈ (p.handlerMap.filter (·.1 ≠ fd)).map Prod.fst := List.mem_map_of_mem he
    exact ⟨(Registry.foldl_min_le _ _).2 _ hmem, (Registry.le_foldl_max _ _).2 _ hmem⟩
  case interrupt => exact ⟨(Registry.foldl_min_le _ _).1, (Registry.le_foldl_max _ _).1⟩

/-- **A pending change can be made.** The thread either goes on selecting, or has a
handler to tell that it is finished. -/
theorem applyChange_ok {t : ℕ} (h : p.registry.Consistent) (hd : p.destroyed = false)
    (hpos : 0 < p.interrupts) :
    ∃ q, q.registry.Consistent ∧ q.workers = p.workers ∧
      (p.applyChange t = .ok q ∨
        ∃ handler, p.applyChange t = .ok (q.goes t (.handling (.finished handler)))) := by
  have hi : p.interrupts = p.changes.length + p.destroyed.toNat := h.interrupts
  have halt : Registry.Alternates (Registry.keys p.handlerMap) p.changes := h.alternates
  cases hc : p.changes with
  | nil =>
      rw [hc, hd] at hi
      simp only [List.length_nil, Bool.toNat_false] at hi
      omega
  | cons c rest =>
      obtain ⟨fd, handler⟩ := c
      cases handler with
      | some handler =>
          exact ⟨_, consistent_addHandler h hd hc, rfl, Or.inl (by rw [applyChange, hc])⟩
      | none =>
          rw [hc] at halt
          obtain ⟨handler, hl⟩ := Registry.exists_lookup halt.1
          refine ⟨_, consistent_removeHandler h hd hc, rfl, Or.inr ⟨handler, ?_⟩⟩
          simp only [applyChange, hc, hl]

end ThreadPool

end IceSerialPort.Ice
