import InferenceGateway.Gateway.PoolInvariants

/-! # How many workers run at once

`MAX_CONCURRENCY` bounds the pool's counter, and it bounds the running workers only as long as the
permits in existence stay within it. They do not in every run: `reconfigure` ignores how many permits
`forget_permits` removed, so a shrink while workers are busy leaves surplus permits, and a later growth
adds to them.
-/

namespace InferenceGateway.Gateway

open Common

variable {cfg : Config} {s t : State} {a : Action}

/-- The permits in existence beyond the pool's counter: those that earlier shrinks should have
forgotten and could not, because workers held them. -/
def State.surplus (s : State) : ℕ := s.pool.semaphore.total - s.pool.current

/-- The condition on a step: if it is a `reconfigure` that grows the pool, the surplus still fits
between the new size and the maximum. -/
def growthLeavesRoom (s : State) (a : Action) : Bool :=
  match a, s.dispatcher with
  | .dispatcher, .resizing _ =>
    s.pool.plan s.queue.length ≤ s.pool.current ||
      s.surplus ≤ s.pool.maxSize - s.pool.plan s.queue.length
  | _, _ => true

theorem growthLeavesRoom_resizing {job : Job} (hd : s.dispatcher = .resizing job) :
    growthLeavesRoom s .dispatcher = true ↔
      s.pool.plan s.queue.length ≤ s.pool.current ∨
        s.surplus ≤ s.pool.maxSize - s.pool.plan s.queue.length := by
  simp [growthLeavesRoom, hd]

theorem total_le_max_step (hi : PoolInv cfg s) (ht : s.pool.semaphore.total ≤ s.pool.maxSize)
    (hg : growthLeavesRoom s a = true) (h : Step cfg s a t) :
    t.pool.semaphore.total ≤ t.pool.maxSize := by
  have hfl := hi.floor
  have hplan := s.pool.plan_le_max s.queue.length
  simp only [Semaphore.total, AdaptiveWorkerPool.maxSize] at ht hfl ⊢
  cases h.poolEffect with
  | none hp => rw [hp]; exact ht
  | resize ha hd hp =>
    -- What shrinking failed to take away still counts when the pool grows again.
    have hroom := (growthLeavesRoom_resizing hd).mp (ha ▸ hg)
    simp only [State.surplus, Semaphore.total, AdaptiveWorkerPool.maxSize] at hroom
    rw [hp, AdaptiveWorkerPool.reconfigure_available, AdaptiveWorkerPool.reconfigure_outstanding,
      AdaptiveWorkerPool.reconfigure_bounds]
    omega
  | acquire hs hp =>
    obtain ⟨ha, ho⟩ := Semaphore.acquire?_eq_some.mp hs
    rw [hp]
    dsimp only
    omega
  | release hp hh =>
    have hheld := hi.held
    rw [hp]
    simp only [Semaphore.release_available, Semaphore.release_outstanding]
    omega

theorem total_le_max (h : (gateway cfg).ReachableVia (fun s a => growthLeavesRoom s a = true) s) :
    s.pool.semaphore.total ≤ s.pool.maxSize :=
  gateway_invariant (PoolBounds.new cfg.minWorkers cfg.maxConcurrency).min_le_max
    (fun _ _ _ hr ht hg hs => total_le_max_step (poolInv_of_reachable hr.reachable) ht hg hs) h

/-- In a run in which every growing `reconfigure` finds room for the surplus of earlier shrinks, at
most `max_workers` workers run at the same time. -/
theorem running_le_max (cfg : Config) {s : State}
    (h : (gateway cfg).ReachableVia (fun s a => growthLeavesRoom s a = true) s) :
    s.running ≤ (PoolBounds.new cfg.minWorkers cfg.maxConcurrency).maxWorkers := by
  have hinv := poolInv_of_reachable h.reachable
  have hheld := hinv.held
  have ht := total_le_max h
  rw [Semaphore.total, AdaptiveWorkerPool.maxSize, hinv.bounds] at ht
  unfold State.holders at hheld
  omega

/-- A pool of one or two workers in which four queued jobs grow the pool and two workers start. -/
theorem running_le_max_two :
    ∃ s, (gateway (scenarioConfig 1 2 .infer silentDecoder)).Reachable s ∧ s.running = 2 ∧
      s.running ≤ (PoolBounds.new 1 2).maxWorkers := by
  obtain ⟨s, hs, htwo⟩ :=
    (reachableVia_init (scenarioConfig 1 2 .infer silentDecoder)).exists_of_runIf
      (g := growthLeavesRoom) (fun s => s.running = 2)
      (submit 0 httpCall ++ submit 1 httpCall ++ submit 2 httpCall ++ submit 3 httpCall
        ++ dispatch 14)
      (by decide +kernel)
  exact ⟨s, hs.reachable, htwo, running_le_max (scenarioConfig 1 2 .infer silentDecoder) hs⟩

/-- A queue of four places and one or two workers: the pool grows to two, shrinks while both workers
are busy, and grows again when jobs arrive during the dispatcher's wait. Three workers run. -/
theorem exceeds_max_concurrency :
    ∃ s, (gateway (scenarioConfig 1 2 .infer silentDecoder)).Reachable s ∧
      (PoolBounds.new 1 2).maxWorkers < s.running :=
  (reachable_init (scenarioConfig 1 2 .infer silentDecoder)).exists_of_run
    (fun s => (PoolBounds.new 1 2).maxWorkers < s.running)
    (submit 0 httpCall ++ submit 1 httpCall ++ submit 2 httpCall ++ submit 3 httpCall
      -- The first two jobs grow the pool to two and occupy both permits.
      ++ dispatch 14
      -- The third shrinks it to one, without a free permit to forget, and waits.
      ++ dispatch 5
      ++ serve 0 (.sendFailed "connection refused")
      ++ dispatch 2
      -- Two more jobs queue up behind the fourth, which grows the pool by a third permit.
      ++ submit 4 httpCall ++ submit 5 httpCall
      ++ dispatch 7)
    (by decide +kernel)

end InferenceGateway.Gateway
