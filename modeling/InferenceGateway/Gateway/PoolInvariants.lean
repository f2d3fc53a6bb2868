import InferenceGateway.Common.Lists
import InferenceGateway.Gateway.Scenario

/-! # Permits, workers and the size of the pool

The permits handed out are those of the unfinished workers and of the dispatcher between `acquire` and
`spawn`. The pool's counter is a lower bound on the permits in existence: growing raises both alike,
shrinking lowers the counter by at least as much as it removes permits. It is not an upper bound. A
shrink that finds too few free permits leaves a surplus behind, and the next growth adds its full
difference on top of that.
-/

namespace InferenceGateway.Gateway

open Common

/-- The worker task has not dropped its permit. -/
def Worker.holdsPermit (w : Worker) : Bool :=
  match w.phase with
  | .finished _ => false
  | _ => true

/-- Permits in the dispatcher's hand. -/
def DispatcherPhase.permits : DispatcherPhase → ℕ
  | .spawning _ => 1
  | _ => 0

/-- The dispatcher has called `acquire`. -/
def DispatcherPhase.isAcquiring : DispatcherPhase → Bool
  | .acquiring _ => true
  | _ => false

/-- Before `acquire` returns, the dispatcher holds no permit. -/
theorem DispatcherPhase.permits_of_isAcquiring {d : DispatcherPhase} (h : d.isAcquiring = true) :
    d.permits = 0 := by
  cases d with
  | acquiring _ => rfl
  | _ => cases h

namespace State

/-- The number of worker tasks that hold a permit. -/
def running (s : State) : ℕ := s.workers.countP Worker.holdsPermit

/-- The number of holders of a permit. -/
def holders (s : State) : ℕ := s.running + s.dispatcher.permits

/-- The dispatcher waits in `acquire`. -/
def BlockedInAcquire (s : State) : Prop :=
  s.dispatcher.isAcquiring = true ∧ s.pool.semaphore.acquire? = none

instance (s : State) : Decidable s.BlockedInAcquire := inferInstanceAs (Decidable (_ ∧ _))

@[simp] theorem running_setHandler (s : State) (i : ℕ) (h : Handler) :
    (s.setHandler i h).running = s.running := rfl
@[simp] theorem running_record (s : State) (i : ℕ) (op : MetricOp) (h : Handler) :
    (s.record i op h).running = s.running := rfl
@[simp] theorem running_onChannel (s : State) (i : ℕ) (f : Oneshot → Oneshot) :
    (s.onChannel i f).running = s.running := rfl
@[simp] theorem running_releasePermit (s : State) : s.releasePermit.running = s.running := rfl

/-- A worker that changes its phase and keeps its permit. -/
theorem running_setWorker {s : State} {j : ℕ} {w w' : Worker} (hj : s.workers[j]? = some w)
    (hw : w'.holdsPermit = w.holdsPermit) : (s.setWorker j w').running = s.running :=
  countP_set_of_eq hj hw

/-- A worker that drops its permit. -/
theorem running_setWorker_finished {s : State} {j : ℕ} {w w' : Worker}
    (hj : s.workers[j]? = some w) (hw : w.holdsPermit = true) (hw' : w'.holdsPermit = false) :
    s.running = (s.setWorker j w').running + 1 := by
  have := countP_set_add hj w' Worker.holdsPermit
  simp only [hw, hw', if_true, Bool.false_eq_true, if_false] at this
  exact this.symm

end State

variable {cfg : Config} {s t : State} {a : Action}

/-- Everything a step can do to the pool and to the holders of its permits. -/
inductive PoolEffect (s t : State) (a : Action) : Prop
  | none (hp : t.pool = s.pool) (hh : t.holders = s.holders)
  | resize {job : Job} (ha : a = .dispatcher) (hd : s.dispatcher = .resizing job)
      (hp : t.pool = (s.pool.reconfigure s.queue.length).1) (hh : t.holders = s.holders)
  | acquire {semaphore : Semaphore} (hs : s.pool.semaphore.acquire? = some semaphore)
      (hp : t.pool = { s.pool with semaphore := semaphore }) (hh : t.holders = s.holders + 1)
  | release (hp : t.pool = { s.pool with semaphore := s.pool.semaphore.release })
      (hh : s.holders = t.holders + 1)

theorem Step.poolEffect (h : Step cfg s a t) : PoolEffect s t a := by
  cases h with
  | arrive | validateKnown | validateUnknown | accept | reject | recordBegin | wait
  | recordFinish | answer | poll | elapse | drop | syncRegistry => exact .none rfl rfl
  | recv hd | publish hd | published hd =>
    exact .none rfl (by simp [State.holders, State.running, hd, DispatcherPhase.permits])
  | resize hd =>
    exact .resize rfl hd rfl (by simp [State.holders, State.running, hd, DispatcherPhase.permits])
  | acquire hd ha =>
    exact .acquire ha rfl (by simp [State.holders, State.running, hd, DispatcherPhase.permits])
  | spawn hd =>
    -- The permit moves from the dispatcher into the new worker.
    exact .none rfl (by
      simp [State.holders, State.running, hd, DispatcherPhase.permits, Worker.holdsPermit])
  | start hj hp =>
    refine .none rfl (congrArg (· + s.dispatcher.permits) ?_)
    exact State.running_setWorker hj (by simp [Worker.holdsPermit, hp])
  | coreReturns _ hj hp =>
    refine .none rfl (congrArg (· + s.dispatcher.permits) ?_)
    exact State.running_setWorker hj (by simp [Worker.holdsPermit, hp])
  | deliver hj hp =>
    refine .none rfl (congrArg (· + s.dispatcher.permits) ?_)
    exact State.running_setWorker hj (by simp [Worker.holdsPermit, hp])
  | panic hj hp =>
    refine .none rfl (congrArg (· + s.dispatcher.permits) ?_)
    refine State.running_setWorker hj ?_
    rcases hp with hp | hp | ⟨result, hp⟩ <;> simp [Worker.holdsPermit, hp]
  | @release j w result hj hp =>
    refine .release rfl ?_
    have := State.running_setWorker_finished hj (by simp [Worker.holdsPermit, hp])
      (rfl : Worker.holdsPermit { w with phase := .finished (some result) } = false)
    show s.running + s.dispatcher.permits = _ + s.dispatcher.permits + 1
    rw [this, State.running_releasePermit]
    omega
  | @releasePanicked j w hj hp =>
    refine .release rfl ?_
    have := State.running_setWorker_finished hj (by simp [Worker.holdsPermit, hp])
      (rfl : Worker.holdsPermit { w with phase := .finished none } = false)
    show s.running + s.dispatcher.permits = _ + s.dispatcher.permits + 1
    rw [this, State.running_releasePermit]
    omega

/-! ## The invariant of every run -/

/-- What holds of the pool in every reachable state. -/
structure PoolInv (cfg : Config) (s : State) : Prop where
  bounds : s.pool.bounds = PoolBounds.new cfg.minWorkers cfg.maxConcurrency
  held : s.pool.semaphore.outstanding = s.holders
  floor : s.pool.current ≤ s.pool.semaphore.total
  min_le : s.pool.bounds.minWorkers ≤ s.pool.current
  le_max : s.pool.current ≤ s.pool.bounds.maxWorkers

theorem PoolInv.init (cfg : Config) : PoolInv cfg (initState cfg) where
  bounds := rfl
  held := rfl
  floor := le_rfl
  min_le := le_rfl
  le_max := (PoolBounds.new cfg.minWorkers cfg.maxConcurrency).min_le_max

theorem PoolInv.step (hi : PoolInv cfg s) (h : Step cfg s a t) : PoolInv cfg t := by
  obtain ⟨hb, hheld, hfl, hmin, hmax⟩ := hi
  unfold Semaphore.total at hfl
  cases h.poolEffect with
  | none hp hh =>
    refine ⟨?_, ?_, ?_, ?_, ?_⟩ <;> rw [hp]
    · exact hb
    · rw [hheld, hh]
    · exact hfl
    · exact hmin
    · exact hmax
  | resize _ _ hp hh =>
    refine ⟨?_, ?_, ?_, ?_, ?_⟩
    · rw [hp, AdaptiveWorkerPool.reconfigure_bounds, hb]
    · rw [hp, AdaptiveWorkerPool.reconfigure_outstanding, hh, hheld]
    · -- Growing adds the difference to both sides; shrinking removes at most the difference.
      rw [hp, Semaphore.total, AdaptiveWorkerPool.reconfigure_available,
        AdaptiveWorkerPool.reconfigure_outstanding, AdaptiveWorkerPool.reconfigure_current]
      omega
    · rw [hp, AdaptiveWorkerPool.reconfigure_bounds, AdaptiveWorkerPool.reconfigure_current]
      exact s.pool.min_le_plan _
    · rw [hp, AdaptiveWorkerPool.reconfigure_bounds, AdaptiveWorkerPool.reconfigure_current]
      exact s.pool.plan_le_max _
  | acquire hs hp hh =>
    -- A permit changes sides, so the total stays.
    obtain ⟨ha, ho⟩ := Semaphore.acquire?_eq_some.mp hs
    refine ⟨?_, ?_, ?_, ?_, ?_⟩ <;> rw [hp]
    · exact hb
    · rw [hh, ← hheld, ho]
    · simp only [Semaphore.total]; omega
    · exact hmin
    · exact hmax
  | release hp hh =>
    refine ⟨?_, ?_, ?_, ?_, ?_⟩ <;> rw [hp]
    · exact hb
    · rw [Semaphore.release_outstanding]; omega
    · simp only [Semaphore.total, Semaphore.release_available, Semaphore.release_outstanding]
      omega
    · exact hmin
    · exact hmax

theorem poolInv_of_reachable (h : (gateway cfg).Reachable s) : PoolInv cfg s :=
  gateway_invariant (PoolInv.init cfg) (fun _ _ _ _ hi _ hs => hi.step hs) h

/-! ## The pool never under-provisions -/

/-- A dispatcher that waits for a permit waits behind a full pool of running workers. -/
theorem PoolInv.current_le_running (hinv : PoolInv cfg s) (hblocked : s.BlockedInAcquire) :
    s.pool.current ≤ s.running := by
  obtain ⟨hd, ha⟩ := hblocked
  have hzero : s.pool.semaphore.available = 0 := by
    simpa only [Semaphore.acquire?, ite_eq_left_iff, reduceCtorEq, imp_false, not_not] using ha
  have hhand := DispatcherPhase.permits_of_isAcquiring hd
  have hheld := hinv.held
  have hfloor := hinv.floor
  unfold State.holders at hheld
  unfold Semaphore.total at hfloor
  omega

/-- In every reachable state the permits in existence cover the size of the pool, which is at least the
clamped minimum, and the permits handed out are those of the running workers and of the dispatcher's
next worker. So a dispatcher that waits for a permit waits behind a full pool of running workers. -/
theorem pool_never_underprovisions (cfg : Config) {s : State} (h : (gateway cfg).Reachable s) :
    s.pool.semaphore.outstanding = s.running + s.dispatcher.permits ∧
      s.pool.currentSize ≤ s.pool.semaphore.available + s.pool.semaphore.outstanding ∧
      (PoolBounds.new cfg.minWorkers cfg.maxConcurrency).minWorkers ≤ s.pool.currentSize ∧
      1 ≤ (PoolBounds.new cfg.minWorkers cfg.maxConcurrency).minWorkers ∧
      (s.BlockedInAcquire → s.pool.currentSize ≤ s.running) := by
  have hinv := poolInv_of_reachable h
  refine ⟨hinv.held, hinv.floor, ?_, (PoolBounds.new _ _).one_le_min, hinv.current_le_running⟩
  rw [← hinv.bounds]
  exact hinv.min_le

/-- A pool of one worker with a second job: the dispatcher waits and one worker runs. -/
theorem pool_never_underprovisions_blocked :
    ∃ s, (gateway (scenarioConfig 1 1 .infer silentDecoder)).Reachable s ∧ s.BlockedInAcquire ∧
      s.pool.currentSize ≤ s.running := by
  obtain ⟨s, hs, hb⟩ := (reachable_init (scenarioConfig 1 1 .infer silentDecoder)).exists_of_run
    State.BlockedInAcquire (submit 0 httpCall ++ submit 1 grpcCall ++ dispatch 12) (by decide +kernel)
  exact ⟨s, hs, hb, (pool_never_underprovisions _ hs).2.2.2.2 hb⟩

end InferenceGateway.Gateway
