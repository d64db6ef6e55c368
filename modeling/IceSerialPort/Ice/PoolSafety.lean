import IceSerialPort.Ice.PoolThreads

/-!
# What holds of the thread pool at all times

The invariant of the pool holds along every run, whatever the order in which its threads
take their steps. From it follow the assertions in the code, the bound on the number of
requests that are dispatched at the same time, and that the pool always listens: while a
thread is left, somebody is the leader or can become it.

## Main results

* `keeps_step`, `run_sound`: every step keeps the invariant, and so does every run.
* `no_assertion_fails`: no assertion of the code fails.
* `dispatches_le`, `listens`: at most `_sizeMax` dispatches, and the pool keeps listening.
-/

namespace IceSerialPort.Ice

open Transition

variable {H : Type}

namespace ThreadPool

/-! ## Every step -/

section Sound

/-- What every step does: no assertion fails, and the invariant is kept. -/
def Keeps (p : ThreadPool H) (r : Except Assertion (ThreadPool H)) : Prop :=
  ∃ q, r = .ok q ∧ q.Sound ∧ q.sizes = p.sizes

variable {p q : ThreadPool H} {a : LoadFactor} {t : ℕ} {r : Except Assertion (ThreadPool H)}

theorem addInUse_clean (h : p.Clean) : p.addInUse.Clean where
  leaving := h.leaving
  readable := by
    simp only [addInUse]
    split <;> simp [h.readable]
  registered := by
    simp only [addInUse]
    split <;> simp [h.registered]

theorem startThread_frame {created : Bool} (h : p.startThread created = .ok q) :
    q.registry = p.registry ∧ q.sizes = p.sizes ∧ (p.Clean → q.Clean) := by
  rw [ThreadPool.startThread] at h
  split_ifs at h <;> obtain rfl := Except.ok.inj h
  · refine ⟨rfl, rfl, fun hc => ⟨fun hmem => hc.leaving ?_, hc.readable, hc.registered⟩⟩
    simpa [addThread] using hmem
  · refine ⟨rfl, rfl, fun hc => ⟨hc.leaving, ?_, ?_⟩⟩
    · simp [hc.readable]
    · simp [hc.registered]
  · exact ⟨rfl, rfl, id⟩

/-- A thread in a pool that has several. -/
theorem Sound.of_many (hmax : 1 < q.sizes.sizeMax) (hr : q.registry.Consistent) (hc : q.Clean)
    (h : q.Counted) : q.Sound :=
  ⟨hr, hc, fun _ => h, fun hno => absurd hmax hno⟩

/-- The thread of a pool that has only one. -/
theorem Sound.of_one (hmax : ¬ 1 < q.sizes.sizeMax) (hr : q.registry.Consistent) (hc : q.Clean)
    (h : q.Alone) : q.Sound :=
  ⟨hr, hc, fun hmany => absurd hmany hmax, fun _ => h⟩

/-- **The leader looks at what `select` has reported.** -/
theorem keeps_selected [DecidableEq H] {ready : List Int} (h : p.Sound)
    (ht : p.threads[t]? = some .leader) (hready : p.CanReport ready) :
    p.Keeps (p.selected t ready) := by
  have hleads : ∀ job : Job H, (p.goes t (.handling job)).Sound := fun job =>
    h.goes_same ht rfl (by simp)
  rw [selected]
  by_cases hnone : ready = []
  · rw [if_pos hnone, if_neg (not_not.mpr (hready.1 hnone))]
    exact ⟨_, rfl, (hleads .shutdown).of_workers rfl h.registry, rfl⟩
  · rw [if_neg hnone]
    by_cases hint : p.fdIntrRead ∈ ready
    · have hpos : 0 < p.interrupts := by
        have hreport := hready.2 _ hint
        rwa [if_pos rfl] at hreport
      rw [if_pos hint]
      by_cases hd : p.destroyed = true
      · rw [if_pos hd]
        exact ⟨_, rfl, h.goes_same ht rfl fun _ => hd, rfl⟩
      · rw [if_neg hd]
        obtain ⟨q, hreg, hworkers, hq | ⟨handler, hq⟩⟩ :=
          applyChange_ok (t := t) h.registry (eq_false_of_ne_true hd) hpos
        · exact ⟨q, hq, h.of_workers hworkers hreg, congrArg Workers.sizes hworkers⟩
        · have hthreads : q.threads = p.threads := congrArg Workers.threads hworkers
          have hleader : q.threads[t]? = some .leader := hthreads ▸ ht
          exact ⟨_, hq, (h.of_workers hworkers hreg).goes_same hleader rfl (by simp),
            congrArg Workers.sizes hworkers⟩
    · rw [if_neg hint]
      -- What is reported is registered, and so within the range that is searched.
      obtain ⟨fd, hfd⟩ := List.exists_mem_of_ne_nil ready hnone
      have hregistered : ∀ fd ∈ ready, fd ≠ p.fdIntrRead ∧ Registry.keys p.handlerMap fd = true := by
        intro fd hfd
        have hne : fd ≠ p.fdIntrRead := fun heq => hint (heq ▸ hfd)
        have hreport := hready.2 fd hfd
        rw [if_neg hne] at hreport
        exact ⟨hne, hreport⟩
      obtain ⟨handler, hmem⟩ := Registry.keys_eq_true.mp (hregistered fd hfd).2
      have hrange : p.minFd ≤ fd ∧ fd ≤ p.maxFd := h.registry.range _ hmem
      obtain ⟨k, hk, hset, -⟩ := @roundRobin_spec (fun fd => decide (fd ∈ ready)) p.lastFd
        p.minFd p.maxFd fd hrange.1 hrange.2 (decide_eq_true hfd)
      obtain ⟨hne, hkey⟩ := hregistered k (of_decide_eq_true hset)
      obtain ⟨handler, hl⟩ := Registry.exists_lookup hkey
      simp only [hk, if_neg hne, hl]
      exact ⟨_, rfl, (hleads (.message handler)).of_workers rfl h.registry, rfl⟩

/-- A pool that is destroyed owes less. -/
theorem Sound.destroyed (h : p.Sound) (hr : q.registry.Consistent)
    (hw : q.workers = { p.workers with destroyed := true }) : q.Sound := by
  injection hw with hsizes hd hthreads hrunning hinUse hpromote hlog
  have hno : ∀ {P : Prop}, q.destroyed = false → P := fun hd' => absurd (hd.symm.trans hd') (by simp)
  have hc : q.count = p.count := by
    funext k
    rw [count, count, hthreads]
    rfl
  constructor
  case registry => exact hr
  case clean =>
    refine ⟨fun _ => hd, ?_, ?_⟩ <;> rw [hlog]
    · exact h.clean.readable
    · exact h.clean.registered
  case many =>
    intro hmax
    rw [hsizes] at hmax
    have hm := h.many hmax
    refine ⟨?_, hno, hno, ?_, hno, hno, ?_⟩ <;> rw [hc]
    · rw [hpromote]
      exact hm.leads
    · rw [hsizes]
      exact hm.bound
    · rw [hpromote]
      exact hm.awake
  case one =>
    intro hmax
    rw [hsizes] at hmax
    have ho := h.one hmax
    refine ⟨?_, ?_, hno⟩ <;> rw [hc]
    · exact ho.waits
    · exact ho.most

/-- A thread that waits looks at `_promote`. -/
theorem keeps_follow {x : Thread H} (h : p.Sound) (ht : p.threads[t]? = some x)
    (hx : x.kind = .ready) : p.Keeps (.ok (p.follow t)) := by
  have hmax : 1 < p.sizes.sizeMax := by
    by_contra hone
    have hwaits := (h.one hone).waits
    have hpos := count_pos ht hx
    omega
  refine ⟨_, rfl, Sound.of_many ?_ ?_ h.clean.follow ((h.many hmax).follow ht hx), follow_sizes _ _⟩
  · rw [follow_sizes]
    exact hmax
  · rw [follow_registry]
    exact h.registry

theorem Sound.dispatches (h : p.Sound) :
    p.count .leads ≤ 1 ∧ p.count .busy ≤ p.sizes.sizeMax := by
  by_cases hmax : 1 < p.sizes.sizeMax
  · obtain ⟨hl, -, -, hb, -, -, -⟩ := h.many hmax
    omega
  · have hpos := p.sizes.pos
    have hle := p.sizes.le
    have hmost := (h.one hmax).most
    omega

/-- A thread of a kind that is counted. -/
theorem exists_of_count_pos {kind : Kind} (h : 0 < p.count kind) :
    ∃ (t : ℕ) (x : Thread H), p.threads[t]? = some x ∧ x.kind = kind := by
  obtain ⟨x, hx, hkind⟩ := List.countP_pos_iff.mp h
  obtain ⟨t, ht⟩ := List.getElem?_of_mem hx
  exact ⟨t, x, ht, of_decide_eq_true hkind⟩

theorem sound_start (sizes : Sizes) (fdIntrRead : Int) (timeout : Bool) :
    (start sizes fdIntrRead timeout : ThreadPool H).Sound := by
  constructor
  case registry =>
    exact ⟨trivial, rfl, (by rintro ⟨⟩), (by rintro e ⟨⟩), le_refl _, le_refl _⟩
  case clean =>
    refine ⟨fun hmem => ?_, (by rintro ⟨⟩), (by rintro ⟨⟩)⟩
    have heq := List.eq_of_mem_replicate hmem
    split at heq
    · exact absurd heq (by simp)
    · exact absurd heq (by simp)
  case many =>
    intro (hmax : 1 < sizes.sizeMax)
    have hpos := sizes.pos
    have hle := sizes.le
    constructor <;>
      simp only [count, start, hmax, if_true, List.countP_replicate, Thread.kind, reduceCtorEq,
        decide_true, decide_false, if_false, Bool.false_eq_true, Bool.toNat_true]
    case inUse => exact fun _ => rfl
    case running => rintro -; omega
    case bound => omega
    case least => rintro -; exact le_refl _
    case spare => rintro - -; omega
    case awake => exact fun _ => Or.inl trivial
  case one =>
    intro (hmax : ¬ 1 < sizes.sizeMax)
    have hpos := sizes.pos
    have hle := sizes.le
    constructor <;>
      simp only [count, start, hmax, List.countP_replicate, Thread.kind, reduceCtorEq,
        decide_true, decide_false, if_true, if_false, Bool.false_eq_true]
    case most => omega
    case least => rintro -; omega

variable [DecidableEq H]

/-- Where nobody leads, a follower is promoted. -/
theorem Vacant.keeps_promoteFollower {woken : Option ℕ} {created : Bool} (h : p.Vacant)
    (hmax : 1 < p.sizes.sizeMax) (hreg : p.registry.Consistent) (hclean : p.Clean)
    (hbusy : 0 < p.count .busy) (hr : p.promoteFollower woken created = some r) : p.Keeps r := by
  rw [ThreadPool.promoteFollower, if_pos hmax, if_neg (by simp [h.promote]),
    Option.map_eq_some_iff] at hr
  obtain ⟨q, hq, rfl⟩ := hr
  have hawake := (count_notify hq).2.2.2
  have hqv := h.notify hq
  have hqc := hclean.notify hq
  have heq := notify_eq hq
  have hsizes : q.sizes = p.sizes := by rw [heq]
  have hqreg : q.registry = p.registry := by rw [heq]; rfl
  by_cases hd : q.destroyed = true
  · rw [if_pos hd]
    refine ⟨_, rfl, Sound.of_many (hsizes ▸ hmax) (hqreg ▸ hreg) ?_ (hqv.promoted hd hawake), hsizes⟩
    exact ⟨hqc.leaving, hqc.readable, hqc.registered⟩
  · have hd' : q.destroyed = false := eq_false_of_ne_true hd
    have hpos : 0 ≤ q.inUse := by
      have hinUse := hqv.inUse hd'
      have hqbusy : 0 < q.count .busy := (count_notify hq).2.1 ▸ hbusy
      omega
    obtain ⟨q', hq', hcounted⟩ := (hqv.addInUse hd' hawake).startThread created
    obtain ⟨hreg', hsizes', hc'⟩ := startThread_frame hq'
    have hsame : q'.sizes = p.sizes := hsizes'.trans hsizes
    rw [if_neg hd, if_neg (not_not.mpr hpos)]
    refine ⟨q', hq', Sound.of_many (hsame ▸ hmax) ?_ (hc' (addInUse_clean ?_)) hcounted, hsame⟩
    · rw [hreg']
      exact hqreg ▸ hreg
    · exact ⟨hqc.leaving, hqc.readable, hqc.registered⟩

/-- **The leader promotes a follower** and goes on to its handler. -/
theorem keeps_promoteFollower {job : Job H} {woken : Option ℕ} {created : Bool} (h : p.Sound)
    (ht : p.threads[t]? = some (.handling job))
    (hr : (p.goes t .dispatching).promoteFollower woken created = some r) : p.Keeps r := by
  have hclean : (p.goes t .dispatching).Clean := h.clean.goes (by simp)
  by_cases hmax : 1 < p.sizes.sizeMax
  · have hvacant : (p.goes t .dispatching).Vacant := (h.many hmax).vacant ht rfl (Or.inl rfl)
    exact hvacant.keeps_promoteFollower hmax h.registry hclean
      (count_pos (getElem?_goes ht _) rfl) hr
  · have hone : ¬ 1 < (p.goes t .dispatching).sizes.sizeMax := hmax
    rw [ThreadPool.promoteFollower, if_neg hone] at hr
    obtain rfl := Option.some.inj hr
    exact ⟨_, rfl, Sound.of_one hmax h.registry hclean
      ((h.one hmax).goes ht (Or.inl rfl) (Or.inr (Or.inl rfl))), rfl⟩

/-- **A thread comes back from its handler.** -/
theorem keeps_finish (h : p.Sound) (ht : p.threads[t]? = some .dispatching) :
    p.Keeps (p.finish a t) := by
  rw [finish]
  by_cases hmax : 1 < p.sizes.sizeMax
  · rw [if_pos hmax]
    by_cases hd : p.destroyed = true
    · rw [if_pos hd]
      refine ⟨_, rfl, Sound.of_many ?_ ?_ h.clean.follow ?_, follow_sizes _ _⟩
      · rw [follow_sizes]
        exact hmax
      · rw [follow_registry]
        exact h.registry
      · exact (h.many hmax).comeBack (n := p.inUse) ht fun hd' => absurd (hd.symm.trans hd') (by simp)
    · have hd' : p.destroyed = false := eq_false_of_ne_true hd
      have hcounted := h.many hmax
      rw [if_neg hd, if_neg (not_not.mpr (running_le_threadCount hcounted hd'))]
      have hreaped : ∃ p', (if p.running < p.threadCount then p.reap else p) = p' ∧ p'.Counted ∧
          p'.Clean ∧ p'.registry = p.registry ∧ p'.sizes = p.sizes ∧
          p'.threads[t]? = some .dispatching := by
        refine ⟨_, rfl, ?_⟩
        split
        · exact ⟨hcounted.reap, h.clean.reap, rfl, rfl, getElem?_reap ht (by simp)⟩
        · exact ⟨hcounted, h.clean, rfl, rfl, ht⟩
      obtain ⟨p', hp', hc', hclean', hreg', hsizes', ht'⟩ := hreaped
      have hdest' : p'.destroyed = false := (congrArg Registry.destroyed hreg').trans hd'
      obtain ⟨q, hq, hqc⟩ := Counted.release (p := p'.updateLoad a) (hc'.of_workers rfl) hdest' ht'
        (inUse_le_load p' a)
      obtain ⟨hregq, hsizesq, hcleanq⟩ := release_frame hq
      have hsame : q.sizes = p.sizes := hsizesq.trans hsizes'
      have hreg : q.registry = p.registry := hregq.trans hreg'
      rw [hp']
      exact ⟨q, hq, Sound.of_many (hsame ▸ hmax) (hreg ▸ h.registry)
        (hcleanq (hclean'.of_workers rfl)) hqc, hsame⟩
  · rw [if_neg hmax]
    exact ⟨_, rfl, Sound.of_one hmax h.registry (h.clean.goes (by simp))
      ((h.one hmax).goes ht (Or.inr rfl) (Or.inl rfl)), rfl⟩

/-- **A thread leaves**, and another one that waits is told. -/
theorem keeps_handOver {woken : Option ℕ} (h : p.Sound) (ht : p.threads[t]? = some .leaving)
    (hr : p.step a (.handOver t woken) = some r) : p.Keeps r := by
  have hd : p.destroyed = true := h.clean.leaving (List.mem_of_getElem? ht)
  have hclean : (p.goes t .ending).Clean := h.clean.goes (by simp)
  simp only [step, if_pos ht] at hr
  by_cases hmax : 1 < p.sizes.sizeMax
  · have hvacant : (p.goes t .ending).Vacant := (h.many hmax).vacant ht rfl (Or.inr ⟨rfl, hd⟩)
    have hpromote : p.promote = false := hvacant.promote
    rw [if_pos hmax, if_neg (by simp [hpromote]), Option.map_eq_some_iff] at hr
    obtain ⟨q, hq, rfl⟩ := hr
    have heq := notify_eq hq
    have hqc := hclean.notify hq
    have hqd : q.destroyed = true := by rw [heq]; exact hd
    have hsizes : q.sizes = p.sizes := by rw [heq]; rfl
    have hreg : q.registry = p.registry := by rw [heq]; rfl
    refine ⟨_, rfl, Sound.of_many (hsizes ▸ hmax) (hreg ▸ h.registry) ?_
      ((hvacant.notify hq).promoted hqd (count_notify hq).2.2.2), hsizes⟩
    exact ⟨hqc.leaving, hqc.readable, hqc.registered⟩
  · rw [if_neg hmax] at hr
    obtain rfl := Option.some.inj hr
    exact ⟨_, rfl, Sound.of_one hmax h.registry hclean
      ((h.one hmax).goes ht (Or.inl rfl) (Or.inr (Or.inr ⟨rfl, hd⟩))), rfl⟩

/-- **Every step of the pool keeps the invariant**, and no assertion fails in it. -/
theorem keeps_step {e : PoolEvent H} (h : p.Sound) (hd : p.Disciplined e)
    (hr : p.step a e = some r) : p.Keeps r := by
  cases e with
  | register fd handler =>
      obtain rfl := Option.some.inj hr
      obtain ⟨q, hq, hreg, hw⟩ : ∃ q, p.change fd (some handler) = .ok q ∧ q.registry.Consistent ∧
          q.workers = p.workers := consistent_change h.registry hd.1 (eq_false_of_ne_true hd.2)
      exact ⟨q, hq, h.of_workers hw hreg, congrArg Workers.sizes hw⟩
  | unregister fd =>
      obtain rfl := Option.some.inj hr
      obtain ⟨q, hq, hreg, hw⟩ : ∃ q, p.change fd none = .ok q ∧ q.registry.Consistent ∧
          q.workers = p.workers := consistent_change h.registry hd.1 hd.2
      exact ⟨q, hq, h.of_workers hw hreg, congrArg Workers.sizes hw⟩
  | destroy =>
      obtain rfl := Option.some.inj hr
      obtain ⟨q, hq, hreg, hw⟩ := consistent_destroy h.registry hd.1 hd.2.1 hd.2.2
      exact ⟨q, hq, h.destroyed hreg hw, congrArg Workers.sizes hw⟩
  | follow t =>
      obtain ⟨hwaits, hr⟩ := Option.ite_none_right_eq_some.mp hr
      obtain rfl := Option.some.inj hr
      rcases hwaits with ht | ht
      · exact keeps_follow h ht rfl
      · exact keeps_follow h ht rfl
  | wake t =>
      obtain ⟨ht, hr⟩ := Option.ite_none_right_eq_some.mp hr
      obtain rfl := Option.some.inj hr
      have hmax : 1 < p.sizes.sizeMax := by
        by_contra hone
        have hwaits := (h.one hone).waits
        have hpos := count_pos ht rfl
        simp only [Thread.kind] at hpos
        omega
      exact ⟨_, rfl, Sound.of_many hmax h.registry (h.clean.goes (by simp)) ((h.many hmax).wake ht), rfl⟩
  | select t ready =>
      obtain ⟨⟨ht, hready⟩, hr⟩ := Option.ite_none_right_eq_some.mp hr
      obtain rfl := Option.some.inj hr
      exact keeps_selected h ht hready
  | discard t =>
      simp only [step] at hr
      split at hr
      case h_1 ht =>
        obtain rfl := Option.some.inj hr
        exact ⟨_, rfl, h.goes_same ht rfl (by simp), rfl⟩
      case h_2 ht =>
        obtain rfl := Option.some.inj hr
        exact ⟨_, rfl, h.goes_same ht rfl (by simp), rfl⟩
      case h_3 => exact absurd hr (by simp)
  | promoteFollower t woken created =>
      simp only [step] at hr
      split at hr
      case h_1 ht => exact keeps_promoteFollower h ht hr
      case h_2 => exact absurd hr (by simp)
  | finish t =>
      obtain ⟨ht, hr⟩ := Option.ite_none_right_eq_some.mp hr
      obtain rfl := Option.some.inj hr
      exact keeps_finish h ht
  | handOver t woken =>
      have ht : p.threads[t]? = some .leaving := (Option.ite_none_right_eq_some.mp hr).1
      exact keeps_handOver h ht hr
  | stop t =>
      obtain ⟨ht, hr⟩ := Option.ite_none_right_eq_some.mp hr
      obtain rfl := Option.some.inj hr
      exact ⟨_, rfl, h.goes_same ht rfl (by simp), rfl⟩

end Sound

/-! ## A thread stays in its handler until it returns -/

section Stays

variable {p q : ThreadPool H} {t s : ℕ} {x y : Thread H}

theorem goes_stays (hs : p.threads[s]? = some .dispatching) (hne : s ≠ t) (y : Thread H) :
    (p.goes t y).threads[s]? = some .dispatching := by
  rw [goes, List.getElem?_set_ne (Ne.symm hne)]
  exact hs

theorem follow_stays (hs : p.threads[s]? = some .dispatching) (hne : s ≠ t) :
    (p.follow t).threads[s]? = some .dispatching := by
  rw [ThreadPool.follow]
  split
  · exact goes_stays hs hne .leader
  · exact goes_stays hs hne .blocked

/-- Another thread, of which something else is known. -/
theorem ne_of_getElem? (hs : p.threads[s]? = some .dispatching) (ht : p.threads[t]? = some x)
    (hx : x ≠ .dispatching) : s ≠ t := by
  rintro rfl
  exact hx (Option.some.inj (ht.symm.trans hs))

theorem startThread_stays {created : Bool} (hs : p.threads[s]? = some .dispatching)
    (h : p.startThread created = .ok q) : q.threads[s]? = some .dispatching := by
  rw [ThreadPool.startThread] at h
  split_ifs at h <;> obtain rfl := Except.ok.inj h
  · rw [addThread, List.getElem?_append_left (List.getElem?_eq_some_iff.mp hs).1]
    exact hs
  · exact hs
  · exact hs

theorem release_stays {a : LoadFactor} (hs : p.threads[s]? = some .dispatching) (hne : s ≠ t)
    (h : p.release a t = .ok q) : q.threads[s]? = some .dispatching := by
  rw [ThreadPool.release] at h
  split_ifs at h <;> obtain rfl := Except.ok.inj h
  · exact goes_stays hs hne .ending
  · exact follow_stays hs hne

theorem applyChange_stays (hs : p.threads[s]? = some .dispatching) (hne : s ≠ t)
    (h : p.applyChange t = .ok q) : q.threads[s]? = some .dispatching := by
  rw [applyChange] at h
  split at h
  · exact absurd h (by simp)
  · obtain rfl := Except.ok.inj h
    exact hs
  · split at h
    · exact absurd h (by simp)
    · obtain rfl := Except.ok.inj h
      exact goes_stays hs hne _

theorem selected_stays {ready : List Int} (hs : p.threads[s]? = some .dispatching) (hne : s ≠ t)
    (h : p.selected t ready = .ok q) : q.threads[s]? = some .dispatching := by
  rw [selected] at h
  split_ifs at h
  · obtain rfl := Except.ok.inj h
    exact goes_stays hs hne _
  · obtain rfl := Except.ok.inj h
    exact goes_stays hs hne _
  · exact applyChange_stays hs hne h
  · split at h
    · obtain rfl := Except.ok.inj h
      exact hs
    · split_ifs at h
      split at h
      · obtain rfl := Except.ok.inj h
        exact hs
      · obtain rfl := Except.ok.inj h
        exact goes_stays hs hne _

variable [DecidableEq H]

theorem notify_stays {woken : Option ℕ} (hs : p.threads[s]? = some .dispatching)
    (h : p.notify woken = some q) : q.threads[s]? = some .dispatching := by
  rcases notify_cases h with ⟨t, ht, rfl⟩ | ⟨-, rfl⟩
  · exact goes_stays hs (ne_of_getElem? hs ht (by simp)) .woken
  · exact hs

theorem finish_stays {a : LoadFactor} (hs : p.threads[s]? = some .dispatching) (hne : s ≠ t)
    (h : p.finish a t = .ok q) : q.threads[s]? = some .dispatching := by
  rw [finish] at h
  split_ifs at h
  · obtain rfl := Except.ok.inj h
    exact follow_stays hs hne
  · exact release_stays (p := p.reap.updateLoad a) (getElem?_reap hs (by simp)) hne h
  · exact release_stays (p := p.updateLoad a) hs hne h
  · obtain rfl := Except.ok.inj h
    exact goes_stays hs hne .leader

theorem promoteFollower_stays {woken : Option ℕ} {created : Bool}
    (hs : p.threads[s]? = some .dispatching)
    (h : p.promoteFollower woken created = some (.ok q)) : q.threads[s]? = some .dispatching := by
  rw [ThreadPool.promoteFollower] at h
  split_ifs at h
  · exact absurd (Option.some.inj h) (by simp)
  · obtain ⟨p', hp', hq⟩ := Option.map_eq_some_iff.mp h
    have hs' := notify_stays hs hp'
    split_ifs at hq
    · obtain rfl := Except.ok.inj hq
      exact hs'
    · exact startThread_stays (p := ({ p' with promote := true } : ThreadPool H).addInUse) hs' hq
  · obtain rfl := Except.ok.inj (Option.some.inj h)
    exact hs

/-- **A thread stays in its handler until it returns**, whatever the others do. -/
theorem step_stays {a : LoadFactor} {e : PoolEvent H} (hs : p.threads[s]? = some .dispatching)
    (hne : e ≠ .finish s) (h : p.step a e = some (.ok q)) : q.threads[s]? = some .dispatching := by
  cases e with
  | register fd handler =>
      have hq := Option.some.inj h
      rw [change] at hq
      split_ifs at hq
      obtain rfl := Except.ok.inj hq
      exact hs
  | unregister fd =>
      have hq := Option.some.inj h
      rw [change] at hq
      split_ifs at hq
      obtain rfl := Except.ok.inj hq
      exact hs
  | destroy =>
      have hq := Option.some.inj h
      rw [destroy] at hq
      split_ifs at hq
      obtain rfl := Except.ok.inj hq
      exact hs
  | follow t =>
      obtain ⟨hwaits, h⟩ := Option.ite_none_right_eq_some.mp h
      obtain rfl := Except.ok.inj (Option.some.inj h)
      rcases hwaits with ht | ht
      · exact follow_stays hs (ne_of_getElem? hs ht (by simp))
      · exact follow_stays hs (ne_of_getElem? hs ht (by simp))
  | wake t =>
      obtain ⟨ht, h⟩ := Option.ite_none_right_eq_some.mp h
      obtain rfl := Except.ok.inj (Option.some.inj h)
      exact goes_stays hs (ne_of_getElem? hs ht (by simp)) _
  | select t ready =>
      obtain ⟨⟨ht, -⟩, h⟩ := Option.ite_none_right_eq_some.mp h
      exact selected_stays hs (ne_of_getElem? hs ht (by simp)) (Option.some.inj h)
  | discard t =>
      simp only [step] at h
      split at h
      case h_1 ht =>
        obtain rfl := Except.ok.inj (Option.some.inj h)
        exact goes_stays hs (ne_of_getElem? hs ht (by simp)) _
      case h_2 ht =>
        obtain rfl := Except.ok.inj (Option.some.inj h)
        exact goes_stays hs (ne_of_getElem? hs ht (by simp)) _
      case h_3 => exact absurd h (by simp)
  | promoteFollower t woken created =>
      simp only [step] at h
      split at h
      case h_1 ht =>
        exact promoteFollower_stays (goes_stays hs (ne_of_getElem? hs ht (by simp)) _) h
      case h_2 => exact absurd h (by simp)
  | finish t =>
      obtain ⟨-, h⟩ := Option.ite_none_right_eq_some.mp h
      exact finish_stays hs (fun heq => hne (heq ▸ rfl)) (Option.some.inj h)
  | handOver t woken =>
      obtain ⟨ht, h⟩ := Option.ite_none_right_eq_some.mp h
      have hs' : (p.goes t .ending).threads[s]? = some .dispatching :=
        goes_stays hs (ne_of_getElem? hs ht (by simp)) _
      split_ifs at h
      · exact absurd (Option.some.inj h) (by simp)
      · obtain ⟨p', hp', hq⟩ := Option.map_eq_some_iff.mp h
        obtain rfl := Except.ok.inj hq
        have hstays : p'.threads[s]? = some .dispatching := notify_stays hs' hp'
        exact hstays
      · obtain rfl := Except.ok.inj (Option.some.inj h)
        exact hs'
  | stop t =>
      obtain ⟨ht, h⟩ := Option.ite_none_right_eq_some.mp h
      obtain rfl := Except.ok.inj (Option.some.inj h)
      exact goes_stays hs (ne_of_getElem? hs ht (by simp)) _

end Stays

/-! ## Every run -/

section Runs

variable [DecidableEq H] {p q : ThreadPool H} {a : LoadFactor} {sizes : Sizes} {fdIntrRead : Int}
  {timeout : Bool} {es : List (PoolEvent H)} {e : PoolEvent H}

/-- The step that led to the next state. -/
theorem step_of_next (hn : p.next a e = some q) : p.step a e = some (.ok q) := by
  obtain ⟨r, hr, hq⟩ := Option.bind_eq_some_iff.mp hn
  cases r with
  | error x => exact absurd hq (by rintro ⟨⟩)
  | ok q' =>
      obtain rfl : q' = q := Option.some.inj hq
      exact hr

theorem sound_next (h : p.Sound) (hd : p.Disciplined e)
    (hn : p.next a e = some q) : q.Sound ∧ q.sizes = p.sizes := by
  obtain ⟨r, hr, hq⟩ := Option.bind_eq_some_iff.mp hn
  obtain ⟨q', rfl, hsound, hsizes⟩ := keeps_step h hd hr
  obtain rfl : q' = q := Option.some.inj hq
  exact ⟨hsound, hsizes⟩

/-- **The invariant of the pool**, along every run. -/
theorem run_sound (hD : Always (next a) Disciplined (start sizes fdIntrRead timeout) es)
    (hr : run (next a) (start sizes fdIntrRead timeout) es = some p) :
    p.Sound ∧ p.sizes = sizes := by
  refine run_invariant (I := fun p : ThreadPool H => p.Sound ∧ p.sizes = sizes) ?_
    ⟨sound_start sizes fdIntrRead timeout, rfl⟩ hD hr
  rintro p e q hd ⟨h, hsizes⟩ hn
  obtain ⟨hq, hsame⟩ := sound_next h hd hn
  exact ⟨hq, hsame.trans hsizes⟩

/-- `select` never reports what the pool cannot serve. -/
theorem reports_nothing (hD : Always (next a) Disciplined (start sizes fdIntrRead timeout) es)
    (hr : run (next a) (start sizes fdIntrRead timeout) es = some p) :
    .notReadable ∉ p.log ∧ .notRegistered ∉ p.log :=
  ⟨(run_sound hD hr).1.clean.readable, (run_sound hD hr).1.clean.registered⟩

/-- **At most `_sizeMax` requests are dispatched at the same time**, and at most one thread
is in `select` or has not promoted another one yet. -/
theorem dispatches_le (hD : Always (next a) Disciplined (start sizes fdIntrRead timeout) es)
    (hr : run (next a) (start sizes fdIntrRead timeout) es = some p) :
    p.count .leads ≤ 1 ∧ p.count .busy ≤ sizes.sizeMax := by
  obtain ⟨hsound, rfl⟩ := run_sound hD hr
  exact hsound.dispatches

/-- A thread that waits and is not in `wait()` can look at `_promote`. -/
theorem step_follow {t : ℕ} {x : Thread H} (ht : p.threads[t]? = some x) (hx : x.kind = .ready) :
    p.step a (.follow t) = some (.ok (p.follow t)) := by
  rw [step]
  cases x <;> first | exact if_pos (Or.inl ht) | exact if_pos (Or.inr ht) | exact absurd hx (by rintro ⟨⟩)

theorem Sound.keeps_listening (h : p.Sound) (hd : p.destroyed = false)
    (hcreate : .cannotCreateThread ∉ p.log) (hbusy : p.count .busy < p.sizes.sizeMax) :
    (∃ (t : ℕ) (x : Thread H), p.threads[t]? = some x ∧ x.kind = .leads) ∨
      ∃ (t : ℕ) (q : ThreadPool H), p.step a (.follow t) = some (.ok q) ∧
        q.threads[t]? = some .leader := by
  by_cases hmax : 1 < p.sizes.sizeMax
  · obtain ⟨hl, hu, hr, hb, hm, hs, ha⟩ := h.many hmax
    by_cases hleads : 0 < p.count .leads
    · exact Or.inl (exists_of_count_pos hleads)
    · -- Nobody leads: one of those that wait sees the promotion.
      right
      have hpromote : p.promote = true := by
        cases hp : p.promote with
        | true => rfl
        | false =>
            rw [hp, Bool.toNat_false] at hl
            omega
      have hready : 0 < p.count .ready := by
        have hinUse := hu hd
        have hrunning := hr hd
        have hawake := ha hpromote
        rcases hs hd hcreate with hfull | hspare <;> omega
      obtain ⟨t, x, ht, hx⟩ := exists_of_count_pos hready
      refine ⟨t, p.follow t, step_follow ht hx, ?_⟩
      rw [ThreadPool.follow, if_pos hpromote]
      exact getElem?_goes ht _
  · have hpos := p.sizes.pos
    have hle := p.sizes.le
    have hone := (h.one hmax).least hd
    exact Or.inl (exists_of_count_pos (by omega))

/-- **The pool always listens.** As long as fewer than `_sizeMax` requests are dispatched
and every thread could be created, some thread leads or can be promoted at once: no
promotion is lost in a `notify` that nobody hears. -/
theorem listens (hD : Always (next a) Disciplined (start sizes fdIntrRead timeout) es)
    (hr : run (next a) (start sizes fdIntrRead timeout) es = some p) (hd : p.destroyed = false)
    (hcreate : .cannotCreateThread ∉ p.log) (hbusy : p.count .busy < sizes.sizeMax) :
    (∃ (t : ℕ) (x : Thread H), p.threads[t]? = some x ∧ x.kind = .leads) ∨
      ∃ (t : ℕ) (q : ThreadPool H), p.step a (.follow t) = some (.ok q) ∧
        q.threads[t]? = some .leader := by
  obtain ⟨hsound, rfl⟩ := run_sound hD hr
  exact hsound.keeps_listening hd hcreate hbusy

end Runs

/-! ### A connection is registered and its first message dispatched -/

/-- One thread at first, two at most. -/
def oneToTwo : Sizes := ⟨1, 2, 1, by decide, by decide, by decide⟩

/-- The only thread takes a message, and a second one is started. -/
def firstMessage : List (PoolEvent ℕ) :=
  [.register 7 0, .follow 0, .select 0 [3], .select 0 [7], .promoteFollower 0 none true]

theorem always_firstMessage :
    Always (next .exact) Disciplined (start oneToTwo 3 false) firstMessage := by
  decide +kernel

theorem dispatches_le_firstMessage :
    ∃ p, run (next .exact) (start oneToTwo 3 false) firstMessage = some p ∧ p.count .busy = 1 ∧
      p.count .leads ≤ 1 ∧ p.count .busy ≤ oneToTwo.sizeMax := by
  have hrun : ∃ p ∈ run (next .exact) (start oneToTwo 3 false) firstMessage,
      p.count .busy = 1 := by decide +kernel
  obtain ⟨p, hp, hbusy⟩ := hrun
  exact ⟨p, hp, hbusy, dispatches_le always_firstMessage hp⟩

theorem listens_firstMessage :
    ∃ p, run (next .exact) (start oneToTwo 3 false) firstMessage = some p ∧
      ((∃ (t : ℕ) (x : Thread ℕ), p.threads[t]? = some x ∧ x.kind = .leads) ∨
        ∃ (t : ℕ) (q : ThreadPool ℕ), p.step .exact (.follow t) = some (.ok q) ∧
          q.threads[t]? = some .leader) := by
  have hrun : ∃ p ∈ run (next .exact) (start oneToTwo 3 false) firstMessage,
      p.destroyed = false ∧ .cannotCreateThread ∉ p.log ∧ p.count .busy < oneToTwo.sizeMax := by
    decide +kernel
  obtain ⟨p, hp, hd, hcreate, hbusy⟩ := hrun
  exact ⟨p, hp, listens always_firstMessage hp hd hcreate hbusy⟩

end ThreadPool

end IceSerialPort.Ice
