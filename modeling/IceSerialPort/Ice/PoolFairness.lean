import IceSerialPort.Ice.PoolSafety

/-!
# No connection waits for long

A connection whose descriptor is readable is served before the pool has selected more
often than its range of descriptors is long, whatever else is readable and whichever
threads do the selecting.

## Main definitions

* `Search`, `ThreadPool.search`: what the round robin depends on.
* `Steady`: the descriptor is readable, and no change is made to what is registered.
* `PoolEvent.Turns`: a descriptor is selected.

## Main results

* `search_step`: the other steps of the pool leave the search alone.
* `served`: a descriptor that stays readable is served.
-/

namespace IceSerialPort.Ice

open Transition

variable {H : Type}

/-- What the round robin depends on. -/
structure Search (H : Type) where
  lastFd : Int
  minFd : Int
  maxFd : Int
  fdIntrRead : Int
  handlerMap : List (Int × H)

/-- `select` has reported a descriptor. -/
def PoolEvent.Turns : PoolEvent H → Bool
  | .select _ ready => !ready.isEmpty
  | _ => false

namespace ThreadPool

def search (p : ThreadPool H) : Search H where
  lastFd := p.lastFd
  minFd := p.minFd
  maxFd := p.maxFd
  fdIntrRead := p.fdIntrRead
  handlerMap := p.handlerMap

/-- Whenever `select` reports something, `fd` is readable and there is no interrupt. -/
def Steady (fd : Int) (p : ThreadPool H) : PoolEvent H → Prop
  | .select _ ready => ready ≠ [] → fd ∈ ready ∧ p.fdIntrRead ∉ ready
  | _ => True

instance (fd : Int) (p : ThreadPool H) : (e : PoolEvent H) → Decidable (p.Steady fd e)
  | .select _ ready =>
      have : Decidable (ready ≠ []) := inferInstance
      inferInstanceAs (Decidable (ready ≠ [] → fd ∈ ready ∧ p.fdIntrRead ∉ ready))
  | .register _ _ | .unregister _ | .destroy | .follow _ | .wake _ | .discard _
  | .promoteFollower _ _ _ | .finish _ | .handOver _ _ | .stop _ => inferInstanceAs (Decidable True)

variable {p q : ThreadPool H} {t : ℕ}

/-! ## Parts of steps that leave the search alone -/

theorem search_follow : (p.follow t).search = p.search := by
  rw [ThreadPool.follow]
  split <;> rfl

theorem search_startThread {created : Bool} (h : p.startThread created = .ok q) :
    q.search = p.search := by
  rw [ThreadPool.startThread] at h
  split_ifs at h <;> obtain rfl := Except.ok.inj h <;> rfl

theorem search_release {a : LoadFactor} (h : p.release a t = .ok q) : q.search = p.search := by
  rw [ThreadPool.release] at h
  split_ifs at h <;> obtain rfl := Except.ok.inj h
  · rfl
  · exact search_follow

theorem search_change {fd : Int} {handler : Option H} (h : p.change fd handler = .ok q) :
    q.search = p.search := by
  rw [change] at h
  split_ifs at h
  obtain rfl := Except.ok.inj h
  rfl

/-- A timeout does not move the search. -/
theorem search_timeout (hq : p.selected t [] = .ok q) : q.search = p.search := by
  rw [selected, if_pos rfl] at hq
  split_ifs at hq
  obtain rfl := Except.ok.inj hq
  rfl

/-! ## A selection -/

/-- How far the search is from the turn of `fd`. -/
def distanceTo (p : ThreadPool H) (fd : Int) : Int := distance p.lastFd p.minFd p.maxFd fd

/-- **A selection serves `fd`, or brings its turn nearer.** -/
theorem selected_turn {ready : List Int} {fd : Int} {handler : H} (h : p.Sound)
    (hzero : 0 ≤ p.minFd) (hl : p.handlerMap.lookup fd = some handler)
    (ht : p.threads[t]? = some .leader) (hready : p.CanReport ready) (hfd : fd ∈ ready)
    (hint : p.fdIntrRead ∉ ready) (hq : p.selected t ready = .ok q) :
    q.threads[t]? = some (.handling (.message handler)) ∨
      (q.search = { p.search with lastFd := q.lastFd } ∧ q.distanceTo fd < p.distanceTo fd) := by
  have hmem : (fd, handler) ∈ p.handlerMap := Registry.mem_of_lookup hl
  have hrange : p.minFd ≤ fd ∧ fd ≤ p.maxFd := h.registry.range _ hmem
  obtain ⟨k, hk, hset, hk1, hk2, -⟩ := @roundRobin_spec (fun fd => decide (fd ∈ ready)) p.lastFd
    p.minFd p.maxFd fd hrange.1 hrange.2 (decide_eq_true hfd)
  have hkready : k ∈ ready := of_decide_eq_true hset
  have hne : k ≠ p.fdIntrRead := fun heq => hint (heq ▸ hkready)
  have hreport := hready.2 k hkready
  rw [if_neg hne] at hreport
  obtain ⟨other, hlk⟩ := Registry.exists_lookup hreport
  rw [selected, if_neg (List.ne_nil_of_mem hfd), if_neg hint] at hq
  simp only [hk, if_neg hne, hlk] at hq
  obtain rfl := Except.ok.inj hq
  by_cases hturn : k = fd
  · subst hturn
    obtain rfl : handler = other := Option.some.inj (hl.symm.trans hlk)
    exact Or.inl (getElem?_goes ht _)
  · exact Or.inr ⟨rfl, distance_lt hzero hrange.1 hrange.2 (decide_eq_true hfd) hk hturn⟩

/-! ## The other steps -/

variable [DecidableEq H]

theorem search_notify {woken : Option ℕ} (h : p.notify woken = some q) : q.search = p.search := by
  rw [notify_eq h]
  rfl

theorem search_promoteFollower {woken : Option ℕ} {created : Bool}
    (h : p.promoteFollower woken created = some (.ok q)) : q.search = p.search := by
  rw [ThreadPool.promoteFollower] at h
  split_ifs at h
  · exact absurd (Option.some.inj h) (by simp)
  · obtain ⟨p', hp', hq⟩ := Option.map_eq_some_iff.mp h
    have hs : p'.search = p.search := search_notify hp'
    split_ifs at hq
    · obtain rfl := Except.ok.inj hq
      exact hs
    · exact (search_startThread hq).trans hs
  · obtain rfl := Except.ok.inj (Option.some.inj h)
    rfl

theorem search_finish {a : LoadFactor} (h : p.finish a t = .ok q) : q.search = p.search := by
  rw [finish] at h
  split_ifs at h
  · obtain rfl := Except.ok.inj h
    exact search_follow
  · exact search_release (p := p.reap.updateLoad a) h
  · exact search_release (p := p.updateLoad a) h
  · obtain rfl := Except.ok.inj h
    rfl

/-- **Only a selection moves the search**, and a change of what is registered. -/
theorem search_step {a : LoadFactor} {e : PoolEvent H} (he : ∀ t ready, e ≠ .select t ready)
    (h : p.step a e = some (.ok q)) : q.search = p.search := by
  cases e with
  | register fd handler => exact search_change (Option.some.inj h)
  | unregister fd => exact search_change (Option.some.inj h)
  | destroy =>
      have hq := Option.some.inj h
      rw [destroy] at hq
      split_ifs at hq
      obtain rfl := Except.ok.inj hq
      rfl
  | follow t =>
      obtain ⟨-, h⟩ := Option.ite_none_right_eq_some.mp h
      obtain rfl := Except.ok.inj (Option.some.inj h)
      exact search_follow
  | wake t =>
      obtain ⟨-, h⟩ := Option.ite_none_right_eq_some.mp h
      obtain rfl := Except.ok.inj (Option.some.inj h)
      rfl
  | select t ready => exact absurd rfl (he t ready)
  | discard t =>
      simp only [step] at h
      split at h
      case h_3 => exact absurd h (by simp)
      all_goals
        obtain rfl := Except.ok.inj (Option.some.inj h)
        rfl
  | promoteFollower t woken created =>
      simp only [step] at h
      split at h
      case h_1 => exact search_promoteFollower (p := p.goes t .dispatching) h
      case h_2 => exact absurd h (by simp)
  | finish t =>
      obtain ⟨-, h⟩ := Option.ite_none_right_eq_some.mp h
      exact search_finish (Option.some.inj h)
  | handOver t woken =>
      obtain ⟨-, h⟩ := Option.ite_none_right_eq_some.mp h
      split_ifs at h
      · exact absurd (Option.some.inj h) (by simp)
      · obtain ⟨p', hp', hq⟩ := Option.map_eq_some_iff.mp h
        obtain rfl := Except.ok.inj hq
        have hs : p'.search = p.search := search_notify (p := p.goes t .ending) hp'
        exact hs
      · obtain rfl := Except.ok.inj (Option.some.inj h)
        rfl
  | stop t =>
      obtain ⟨-, h⟩ := Option.ite_none_right_eq_some.mp h
      obtain rfl := Except.ok.inj (Option.some.inj h)
      rfl

/-! ## The turn comes -/

variable {a : LoadFactor} {es : List (PoolEvent H)}

/-- A connection in a pool whose invariant holds. -/
theorem Sound.serves {r : ThreadPool H} {fd : Int} {handler : H} (h : p.Sound) (hzero : 0 ≤ p.minFd)
    (hl : p.handlerMap.lookup fd = some handler) (hD : Always (next a) Disciplined p es)
    (hS : Always (next a) (Steady fd) p es) (hr : run (next a) p es = some r)
    (hmany : p.maxFd - p.minFd + 1 ≤ es.countP PoolEvent.Turns) :
    ∃ es₁ t ready es₂ q q', es = es₁ ++ .select t ready :: es₂ ∧ run (next a) p es₁ = some q ∧
      q.next a (.select t ready) = some q' ∧
      q'.threads[t]? = some (.handling (.message handler)) := by
  have hrange : p.minFd ≤ fd ∧ fd ≤ p.maxFd := h.registry.range _ (Registry.mem_of_lookup hl)
  have hdist : p.distanceTo fd ≤ es.countP PoolEvent.Turns :=
    (distance_le hrange.1 hrange.2).trans hmany
  clear hmany
  induction es generalizing p with
  | nil =>
      have hpos := @distance_pos p.lastFd p.minFd p.maxFd fd hrange.1
      rw [List.countP_nil] at hdist
      exact absurd hdist (not_le.mpr hpos)
  | cons e es ih =>
      obtain ⟨p', hn, hr⟩ := Option.bind_eq_some_iff.mp hr
      have hp' := (sound_next h hD.1 hn).1
      -- The rest of the run, once the turn is near enough.
      have hrest : ∀ lastFd, p'.search = { p.search with lastFd := lastFd } →
          distance lastFd p.minFd p.maxFd fd ≤ es.countP PoolEvent.Turns →
          ∃ es₁ t ready es₂ q q', e :: es = es₁ ++ .select t ready :: es₂ ∧
            run (next a) p es₁ = some q ∧ q.next a (.select t ready) = some q' ∧
            q'.threads[t]? = some (.handling (.message handler)) := by
        intro lastFd hsearch hle
        injection hsearch with hlast hmin hmax hint hmap
        obtain ⟨es₁, t, ready, es₂, q, q', rfl, hq, hq', hserved⟩ := ih hp' (hmin ▸ hzero)
          (hmap ▸ hl) (hD.2 p' hn) (hS.2 p' hn) hr (hmin ▸ hmax ▸ hrange)
          (by rw [distanceTo, hlast, hmin, hmax]; exact hle)
        exact ⟨e :: es₁, t, ready, es₂, q, q', rfl, by rw [run_cons, hn]; exact hq, hq', hserved⟩
      have hstep := step_of_next hn
      by_cases hselect : ∃ t ready, e = .select t ready
      · obtain ⟨t, ready, rfl⟩ := hselect
        obtain ⟨⟨ht, hready⟩, hq⟩ := Option.ite_none_right_eq_some.mp hstep
        have hq := Option.some.inj hq
        cases ready with
        | nil => exact hrest p.lastFd (search_timeout hq) hdist
        | cons k ready =>
            obtain ⟨hfd, hint⟩ := hS.1 (List.cons_ne_nil k ready)
            rw [List.countP_cons_of_pos rfl, Nat.cast_succ] at hdist
            rcases selected_turn h hzero hl ht hready hfd hint hq with hserved | ⟨hsearch, hlt⟩
            · exact ⟨[], t, k :: ready, es, p, p', rfl, rfl, hn, hserved⟩
            · refine hrest p'.lastFd hsearch ?_
              injection hsearch with hlast hmin hmax
              have hmin' : p'.minFd = p.minFd := hmin
              have hmax' : p'.maxFd = p.maxFd := hmax
              rw [distanceTo, hmin', hmax'] at hlt
              omega
      · have hturns : e.Turns = false := by
          cases e <;> first | rfl | exact absurd ⟨_, _, rfl⟩ hselect
        have hsearch := search_step (fun t ready he => hselect ⟨t, ready, he⟩) hstep
        rw [List.countP_cons_of_neg (by simp [hturns])] at hdist
        exact hrest p.lastFd hsearch hdist

/-- Two connections are registered. -/
def twoConnections : List (PoolEvent ℕ) :=
  [.register 4 0, .register 5 1, .follow 0, .select 0 [3], .select 0 [3]]

/-- Both are readable all the time; what is read of their messages is not complete. -/
def bothReadable : List (PoolEvent ℕ) :=
  [.select 0 [4, 5], .discard 0, .select 0 [4, 5], .discard 0, .select 0 [4, 5]]

end ThreadPool

end IceSerialPort.Ice
