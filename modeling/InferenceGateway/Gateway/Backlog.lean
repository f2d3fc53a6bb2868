import InferenceGateway.Gateway.PoolInvariants

/-! # The pool and the backlog

The dispatcher resizes the pool once for each job, right after it took the job from the queue, and jobs
that arrive later are not looked at before the next one. So while it waits for a permit, the workers match
the queue that it saw. And when it waits for a job, the queue is at least as long as it was at the last
resize, unless that saw an empty one.
-/

namespace InferenceGateway.Gateway

open Common

variable {cfg : Config} {s t : State} {a : Action}

/-! ## The scaling policy -/

theorem AdaptiveWorkerPool.plan_mono (p : AdaptiveWorkerPool) {q r : ℕ} (h : q ≤ r) :
    p.plan q ≤ p.plan r := by
  rw [p.plan_eq, p.plan_eq]
  omega

/-- The policy depends on the bounds only. -/
theorem AdaptiveWorkerPool.plan_congr {p p' : AdaptiveWorkerPool} (h : p'.bounds = p.bounds) (q : ℕ) :
    p'.plan q = p.plan q := by
  rw [p.plan_eq, p'.plan_eq, h]

theorem AdaptiveWorkerPool.plan_zero (p : AdaptiveWorkerPool) : p.plan 0 = p.bounds.minWorkers := by
  have := p.bounds.min_le_max
  rw [p.plan_eq]
  omega

/-! ## The queue that the dispatcher saw -/

/-- The length of the queue at the last `reconfigure`. -/
def lastSeen (s : State) (a : Action) (seen : ℕ) : ℕ :=
  match a, s.dispatcher with
  | .dispatcher, .resizing _ => s.queue.length
  | _, _ => seen

/-- The gateway together with the length of the queue that the dispatcher saw at its last resize. -/
def observedGateway (cfg : Config) : System (State × ℕ) Action := (gateway cfg).withHistory 0 lastSeen

/-- The size of the pool changes by a resize only, and that is when the dispatcher looks at the queue. -/
theorem Step.resize_or (h : Step cfg s a t) :
    (∃ job, a = .dispatcher ∧ s.dispatcher = .resizing job ∧
      t.pool = (s.pool.reconfigure s.queue.length).1) ∨
    (t.pool.current = s.pool.current ∧ t.pool.bounds = s.pool.bounds ∧
      ∀ seen, lastSeen s a seen = seen) := by
  cases h with
  | @resize job hd => exact .inl ⟨job, rfl, hd, rfl⟩
  | recv hd | publish hd | published hd | acquire hd | spawn hd =>
    exact .inr ⟨rfl, rfl, fun seen => by simp only [lastSeen, hd]⟩
  | arrive | validateKnown | validateUnknown | accept | reject | recordBegin | wait | recordFinish
  | answer | poll | elapse | drop | start | coreReturns | deliver | panic | release | releasePanicked
  | syncRegistry => exact .inr ⟨rfl, rfl, fun _ => rfl⟩

/-- The pool has the size that the policy prescribes for the queue that the dispatcher saw. -/
theorem current_eq_plan_seen {p : State × ℕ} (h : (observedGateway cfg).Reachable p) :
    p.1.pool.current = p.1.pool.plan p.2 := by
  induction h with
  | init h =>
    obtain ⟨hinit, hseen⟩ := h
    rw [hinit, hseen, AdaptiveWorkerPool.plan_zero]
    rfl
  | @step p t a hp _ h ih =>
    obtain ⟨t, ht, rfl⟩ := Option.map_eq_some_iff.mp h
    obtain ⟨job, rfl, hd, hpool⟩ | ⟨hcurrent, hbounds, hseen⟩ := (step_eq_some_iff.mp ht).resize_or
    · have hseen : lastSeen p.1 .dispatcher p.2 = p.1.queue.length := by simp only [lastSeen, hd]
      rw [hseen, hpool, AdaptiveWorkerPool.reconfigure_current]
      exact (AdaptiveWorkerPool.plan_congr (p.1.pool.reconfigure_bounds _) _).symm
    · dsimp only
      rw [hseen, hcurrent, ih]
      exact (AdaptiveWorkerPool.plan_congr hbounds _).symm

/-- While the dispatcher waits for a permit, at least as many workers run as the policy prescribes for the
queue that the dispatcher saw when it took the job in its hand. -/
theorem running_follows_seen (cfg : Config) {s : State} (h : (gateway cfg).Reachable s)
    (hblocked : s.BlockedInAcquire) :
    (∃ seen, (observedGateway cfg).Reachable (s, seen)) ∧
      ∀ seen, (observedGateway cfg).Reachable (s, seen) →
        min (PoolBounds.new cfg.minWorkers cfg.maxConcurrency).maxWorkers
          ((PoolBounds.new cfg.minWorkers cfg.maxConcurrency).minWorkers + seen / 2) ≤ s.running := by
  have hinv := poolInv_of_reachable h
  refine ⟨System.Reachable.exists_history h, fun seen hseen => ?_⟩
  have hcurrent : s.pool.current = s.pool.plan seen := current_eq_plan_seen hseen
  rw [← hinv.bounds, ← s.pool.plan_eq, ← hcurrent]
  exact hinv.current_le_running hblocked

/-- The dispatcher waits with the second of two jobs, and two more have arrived meanwhile. -/
def waitingRun : List Action :=
  submit 0 httpCall ++ dispatch 7 ++ submit 1 httpCall ++ dispatch 5 ++ submit 2 httpCall
    ++ submit 3 httpCall

/-- For the empty queue that the dispatcher saw, one worker is enough. -/
theorem running_follows_seen_waiting :
    ∃ s, (gateway (scenarioConfig 1 2 .infer silentDecoder)).Reachable s ∧ s.BlockedInAcquire ∧
      (observedGateway (scenarioConfig 1 2 .infer silentDecoder)).Reachable (s, 0) ∧
      min (PoolBounds.new 1 2).maxWorkers ((PoolBounds.new 1 2).minWorkers + 0 / 2) ≤ s.running := by
  have hinit : (observedGateway (scenarioConfig 1 2 .infer silentDecoder)).Reachable
      (initState (scenarioConfig 1 2 .infer silentDecoder), 0) := .init ⟨rfl, rfl⟩
  obtain ⟨⟨s, seen⟩, hs, hblocked, rfl⟩ := hinit.exists_of_run
    (fun p => p.1.BlockedInAcquire ∧ p.2 = 0) waitingRun (by decide +kernel)
  have hreachable := System.Reachable.of_withHistory hs
  exact ⟨s, hreachable, hblocked, hs, (running_follows_seen _ hreachable hblocked).2 0 hs⟩

/-- One worker runs, with two jobs in the queue and a pool that could have two workers. -/
theorem backlog_outgrows_workers :
    ∃ s, (gateway (scenarioConfig 1 2 .infer silentDecoder)).Reachable s ∧ s.BlockedInAcquire ∧
      s.queue.length = 2 ∧
      s.running < min (PoolBounds.new 1 2).maxWorkers
        ((PoolBounds.new 1 2).minWorkers + s.queue.length / 2) :=
  (reachable_init (scenarioConfig 1 2 .infer silentDecoder)).exists_of_run
    (fun s => s.BlockedInAcquire ∧ s.queue.length = 2 ∧
      s.running < min (PoolBounds.new 1 2).maxWorkers
        ((PoolBounds.new 1 2).minWorkers + s.queue.length / 2))
    waitingRun (by decide +kernel)

/-! ## The idle pool -/

/-- The dispatcher waits in `recv`. -/
def DispatcherPhase.isReceiving : DispatcherPhase → Bool
  | .receiving => true
  | _ => false

theorem DispatcherPhase.eq_receiving {d : DispatcherPhase} (h : d.isReceiving = true) :
    d = .receiving := by
  cases d with
  | receiving => rfl
  | _ => cases h

/-- The job that the dispatcher took and has not resized the pool for. -/
def DispatcherPhase.taken : DispatcherPhase → ℕ
  | .resizing _ => 1
  | _ => 0

/-- The pool is no larger than the policy prescribes for the queue, counting the job just taken. -/
theorem current_le_plan_step (hinv : s.pool.current ≤ s.pool.plan (s.queue.length + s.dispatcher.taken))
    (h : Step cfg s a t) : t.pool.current ≤ t.pool.plan (t.queue.length + t.dispatcher.taken) := by
  cases h with
  | arrive | validateKnown | validateUnknown | reject | recordBegin | wait | recordFinish | answer | poll
  | elapse | drop | start | coreReturns | deliver | panic | release | releasePanicked
  | syncRegistry => exact hinv
  | accept hi hp hq =>
    refine hinv.trans (AdaptiveWorkerPool.plan_mono _ ?_)
    show s.queue.length + s.dispatcher.taken ≤ (s.queue ++ [_]).length + s.dispatcher.taken
    rw [List.length_append]
    omega
  | recv hd hq =>
    rw [hd, hq] at hinv
    exact hinv
  | resize hd =>
    dsimp only
    rw [AdaptiveWorkerPool.reconfigure_current]
    exact (AdaptiveWorkerPool.plan_congr (s.pool.reconfigure_bounds _) _).ge
  | publish hd | published hd | acquire hd | spawn hd =>
    rw [hd] at hinv
    exact hinv

theorem current_le_plan (h : (gateway cfg).Reachable s) :
    s.pool.current ≤ s.pool.plan (s.queue.length + s.dispatcher.taken) :=
  gateway_invariant (I := fun s => s.pool.current ≤ s.pool.plan (s.queue.length + s.dispatcher.taken))
    (initState cfg).pool.plan_zero.ge (fun _ _ _ _ hinv _ hs => current_le_plan_step hinv hs) h

/-! ## The gauge of the pool size -/

/-- What an operation leaves in the gauge of the pool size. -/
def MetricOp.poolSize (op : MetricOp) (shown : UInt64) : UInt64 :=
  match op with
  | .storePoolCurrent workers => workers
  | _ => shown

theorem Metrics.apply_poolWorkersCurrent (m : Metrics) (op : MetricOp) :
    (m.apply op).poolWorkersCurrent = op.poolSize m.poolWorkersCurrent := by
  cases op with
  | addOutcome outcome => cases outcome <;> rfl
  | _ => rfl

/-- The operations that a handler still has to perform. -/
def Handler.pending (h : Handler) : List MetricOp :=
  match h.phase with
  | .beginning _ pending => pending
  | .finishing pending _ => pending
  | _ => []

/-- The operations that the dispatcher still has to perform. -/
def DispatcherPhase.pending : DispatcherPhase → List MetricOp
  | .publishing _ pending => pending
  | _ => []

/-- No pending operation of a handler touches the gauge of the pool size. -/
def Handler.LeavesPool (h : Handler) : Prop := ∀ op ∈ h.pending, ∀ shown, op.poolSize shown = shown

/-- What holds of the gauge of the pool size in every reachable state: once the dispatcher has performed its
pending operations, it shows the size of the pool. -/
structure PoolGaugeInv (s : State) : Prop where
  shown : s.dispatcher.pending.foldl (fun shown op => op.poolSize shown) s.metrics.poolWorkersCurrent =
    UInt64.ofNat s.pool.current
  handlers : ∀ h ∈ s.handlers, h.LeavesPool

private theorem PoolGaugeInv.keep (hinv : PoolGaugeInv s) {i : ℕ} {h : Handler}
    (hd : t.dispatcher = s.dispatcher) (hm : t.metrics.poolWorkersCurrent = s.metrics.poolWorkersCurrent)
    (hp : t.pool.current = s.pool.current) (hh : t.handlers = s.handlers.set i h) (hnew : h.LeavesPool) :
    PoolGaugeInv t := by
  refine ⟨by rw [hd, hm, hp, hinv.shown], fun other hother => ?_⟩
  rw [hh] at hother
  rcases List.mem_or_eq_of_mem_set hother with hmem | rfl
  · exact hinv.handlers other hmem
  · exact hnew

/-- A change of the oneshot channel leaves the pending operations alone. -/
private theorem PoolGaugeInv.onChannel (hinv : PoolGaugeInv s) (i : ℕ) (f : Oneshot → Oneshot) :
    PoolGaugeInv (s.onChannel i f) := by
  refine ⟨hinv.shown, fun h hh => ?_⟩
  obtain ⟨k, hk⟩ := List.getElem?_of_mem hh
  obtain ⟨h', hh', hmodified⟩ := getElem?_modify_eq_some hk
  have hold := hinv.handlers h' (List.mem_of_getElem? hh')
  rcases hmodified with ⟨-, rfl⟩ | ⟨-, rfl⟩
  · exact hold
  · exact hold

private theorem PoolGaugeInv.setWorker (hinv : PoolGaugeInv s) (j : ℕ) (w : Worker) :
    PoolGaugeInv (s.setWorker j w) := ⟨hinv.shown, hinv.handlers⟩

/-- A handler performs the first of its pending operations. -/
private theorem PoolGaugeInv.record (hinv : PoolGaugeInv s) {i : ℕ} {h h' : Handler} {op : MetricOp}
    (hi : s.handlers[i]? = some h) (hpending : h.pending = op :: h'.pending) :
    PoolGaugeInv (s.record i op h') := by
  have hold := hinv.handlers h (List.mem_of_getElem? hi)
  unfold Handler.LeavesPool at hold
  rw [hpending] at hold
  refine hinv.keep rfl ?_ rfl rfl fun op' hop' => hold op' (List.mem_cons_of_mem _ hop')
  exact (s.metrics.apply_poolWorkersCurrent op).trans (hold op List.mem_cons_self _)

theorem PoolGaugeInv.step (hinv : PoolGaugeInv s) (h : Step cfg s a t) : PoolGaugeInv t := by
  have hshown := hinv.shown
  cases h with
  | arrive call =>
    refine ⟨hshown, fun h hh => ?_⟩
    rcases List.mem_append.mp hh with hh | hh
    · exact hinv.handlers h hh
    · rw [List.mem_singleton.mp hh]
      exact fun op hop => absurd hop List.not_mem_nil
  | validateKnown | wait | answer | drop =>
    exact hinv.keep rfl rfl rfl rfl fun op hop => absurd hop List.not_mem_nil
  | validateUnknown | accept | reject | poll | elapse =>
    refine hinv.keep rfl rfl rfl rfl ?_
    simp [Handler.LeavesPool, Handler.pending, Handler.resume, Metrics.noteValidationError,
      Metrics.beginRequest, Metrics.noteQueueFull, Metrics.finishRequest, MetricOp.poolSize]
  | recordBegin hi hp | recordFinish hi hp =>
    exact hinv.record hi (by simp only [Handler.pending, hp])
  | recv hd | published hd | acquire hd | spawn hd =>
    rw [hd] at hshown
    exact ⟨hshown, hinv.handlers⟩
  | resize hd =>
    refine ⟨?_, hinv.handlers⟩
    dsimp only
    rw [AdaptiveWorkerPool.reconfigure_current]
    rfl
  | publish hd =>
    rw [hd] at hshown
    refine ⟨?_, hinv.handlers⟩
    show List.foldl _ (s.metrics.apply _).poolWorkersCurrent _ = _
    rw [Metrics.apply_poolWorkersCurrent]
    exact hshown
  | start | coreReturns | release | releasePanicked | syncRegistry => exact ⟨hshown, hinv.handlers⟩
  | deliver | panic => exact (hinv.setWorker _ _).onChannel _ _

theorem poolGaugeInv_of_reachable (h : (gateway cfg).Reachable s) : PoolGaugeInv s :=
  gateway_invariant ⟨rfl, fun _ hh => absurd hh List.not_mem_nil⟩
    (fun _ _ _ _ hinv _ hs => hinv.step hs) h

/-- Whatever burst of jobs came before: when the dispatcher waits for a job with nothing in the queue, the
pool has its minimal size, and the gauge shows it. -/
theorem idle_pool_collapses (cfg : Config) {s : State} (h : (gateway cfg).Reachable s)
    (hreceiving : s.dispatcher.isReceiving = true) (hempty : s.queue = []) :
    s.pool.currentSize = (PoolBounds.new cfg.minWorkers cfg.maxConcurrency).minWorkers ∧
      s.metrics.poolWorkersCurrent = UInt64.ofNat s.pool.currentSize := by
  have hinv := poolInv_of_reachable h
  have hplan := current_le_plan h
  have hshown := (poolGaugeInv_of_reachable h).shown
  have hdispatcher := DispatcherPhase.eq_receiving hreceiving
  rw [hdispatcher] at hplan hshown
  rw [hempty] at hplan
  refine ⟨?_, hshown⟩
  have hzero : s.pool.plan (([] : List Job).length + DispatcherPhase.receiving.taken) =
      s.pool.bounds.minWorkers := s.pool.plan_zero
  rw [hzero] at hplan
  rw [← hinv.bounds]
  exact le_antisymm hplan hinv.min_le

/-- Four jobs grow the pool to two, and the last two of them shrink it again. -/
theorem idle_pool_collapses_burst :
    ∃ s, (gateway (scenarioConfig 1 2 .infer silentDecoder)).Reachable s ∧ s.accepted.length = 4 ∧
      s.pool.currentSize = 1 ∧ s.metrics.poolWorkersCurrent = UInt64.ofNat 1 := by
  obtain ⟨s, hs, hfour, hreceiving, hempty⟩ :=
    (reachable_init (scenarioConfig 1 2 .infer silentDecoder)).exists_of_run
      (fun s => s.accepted.length = 4 ∧ s.dispatcher.isReceiving = true ∧ s.queue.isEmpty = true)
      (submit 0 httpCall ++ submit 1 httpCall ++ submit 2 httpCall ++ submit 3 httpCall ++ dispatch 14
        ++ serve 0 (.sendFailed "connection refused") ++ serve 1 (.sendFailed "connection refused")
        ++ dispatch 7 ++ serve 2 (.sendFailed "connection refused") ++ dispatch 7)
      (by decide +kernel)
  obtain ⟨hsize, hgauge⟩ := idle_pool_collapses _ hs hreceiving (List.isEmpty_iff.mp hempty)
  rw [hsize] at hgauge
  exact ⟨s, hs, hfour, hsize, hgauge⟩

end InferenceGateway.Gateway
