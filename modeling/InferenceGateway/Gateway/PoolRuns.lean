import InferenceGateway.Gateway.ConcurrencyCap

/-! # The pool on its own

The pool under any sequence of its operations: `reconfigure`, one at a time, `acquire`, and the drop of a
permit. The permits in existence beyond the pool's counter are never taken back: a shrink that finds too
few free permits adds to them, and nothing else changes their number. So whether the permits are back at
the size of the pool once nobody holds one is decided by the shrinks alone.
-/

namespace InferenceGateway.Gateway

open Common

/-! ## The operations as a transition system -/

/-- An operation on the pool. -/
inductive PoolAction
  | reconfigure (queueLen : ℕ)
  | acquire
  | drop
deriving DecidableEq, Repr

/-- One operation; an `acquire` that has to wait and a drop without a permit are not enabled. -/
def AdaptiveWorkerPool.step (p : AdaptiveWorkerPool) : PoolAction → Option AdaptiveWorkerPool
  | .reconfigure queueLen => some (p.reconfigure queueLen).1
  | .acquire => p.semaphore.acquire?.map fun semaphore => { p with semaphore := semaphore }
  | .drop =>
    if p.semaphore.outstanding = 0 then none
    else some { p with semaphore := p.semaphore.release }

/-- A pool with the given bounds and those who use it. -/
def poolSystem (minWorkers maxWorkers : ℕ) : System AdaptiveWorkerPool PoolAction where
  init p := p = AdaptiveWorkerPool.new minWorkers maxWorkers
  step := AdaptiveWorkerPool.step

/-- What a step of the gateway does to its pool is an operation of the pool, if anything. -/
theorem Step.pool_step {cfg : Config} {s t : State} {a : Action} (hi : PoolInv cfg s)
    (h : Step cfg s a t) : t.pool = s.pool ∨ ∃ b, s.pool.step b = some t.pool := by
  cases h.poolEffect with
  | none hp hh => exact .inl hp
  | resize ha hd hp hh => exact .inr ⟨.reconfigure s.queue.length, by rw [hp]; rfl⟩
  | @acquire semaphore hs hp hh =>
    refine .inr ⟨.acquire, ?_⟩
    rw [AdaptiveWorkerPool.step, hs, hp]
    rfl
  | release hp hh =>
    have hheld : s.pool.semaphore.outstanding ≠ 0 := by
      have := hi.held
      omega
    refine .inr ⟨.drop, ?_⟩
    rw [AdaptiveWorkerPool.step, if_neg hheld, hp]

/-- The pool of a gateway only ever is where its own operations lead. -/
theorem pool_reachable {cfg : Config} {s : State} (h : (gateway cfg).Reachable s) :
    (poolSystem cfg.minWorkers cfg.maxConcurrency).Reachable s.pool := by
  refine gateway_invariant
    (I := fun s => (poolSystem cfg.minWorkers cfg.maxConcurrency).Reachable s.pool) (.init rfl)
    (fun s a t hr hpool _ hs => ?_) h
  rcases hs.pool_step (poolInv_of_reachable hr) with hp | ⟨b, hb⟩
  · rwa [hp]
  · exact .step hpool trivial hb

/-! ## Shrinking -/

/-- The condition on an operation: a `reconfigure` that shrinks the pool finds enough free permits. -/
def shrinkFits (p : AdaptiveWorkerPool) : PoolAction → Bool
  | .reconfigure queueLen => p.current - p.plan queueLen ≤ p.semaphore.available
  | _ => true

/-- The permits in existence beyond the pool's counter. -/
def AdaptiveWorkerPool.excess (p : AdaptiveWorkerPool) : ℤ := p.semaphore.total - p.current

theorem excess_reconfigure (p : AdaptiveWorkerPool) (queueLen : ℕ) :
    (p.reconfigure queueLen).1.excess =
      p.excess + ((p.current - p.plan queueLen - p.semaphore.available : ℕ) : ℤ) := by
  unfold AdaptiveWorkerPool.excess Semaphore.total
  rw [AdaptiveWorkerPool.reconfigure_available, AdaptiveWorkerPool.reconfigure_outstanding,
    AdaptiveWorkerPool.reconfigure_current]
  omega

theorem excess_acquire {p q : AdaptiveWorkerPool} (h : p.step .acquire = some q) :
    q.excess = p.excess := by
  obtain ⟨semaphore, hs, rfl⟩ := Option.map_eq_some_iff.mp h
  obtain ⟨ha, ho⟩ := Semaphore.acquire?_eq_some.mp hs
  unfold AdaptiveWorkerPool.excess Semaphore.total
  dsimp only
  omega

theorem excess_drop {p q : AdaptiveWorkerPool} (h : p.step .drop = some q) : q.excess = p.excess := by
  simp only [AdaptiveWorkerPool.step] at h
  split at h
  · cases h
  · rename_i hheld
    cases h
    unfold AdaptiveWorkerPool.excess Semaphore.total
    rw [Semaphore.release_available, Semaphore.release_outstanding]
    dsimp only
    omega

/-- Operations that meet the condition keep the excess. -/
theorem excess_keep {p q : AdaptiveWorkerPool} {a : PoolAction} (h : p.step a = some q)
    (hfits : shrinkFits p a = true) : q.excess = p.excess := by
  cases a with
  | reconfigure queueLen =>
    cases h
    have hle : p.current - p.plan queueLen ≤ p.semaphore.available := of_decide_eq_true hfits
    rw [excess_reconfigure, Nat.sub_eq_zero_of_le hle]
    exact add_zero _
  | acquire => exact excess_acquire h
  | drop => exact excess_drop h

/-- A shrink that does not find enough free permits adds to the excess. -/
theorem excess_grow {p q : AdaptiveWorkerPool} {a : PoolAction} (h : p.step a = some q)
    (hfits : shrinkFits p a = false) : p.excess < q.excess := by
  cases a with
  | reconfigure queueLen =>
    cases h
    have hlt : p.semaphore.available < p.current - p.plan queueLen :=
      Nat.not_le.mp (of_decide_eq_false hfits)
    rw [excess_reconfigure]
    omega
  | acquire => cases hfits
  | drop => cases hfits

/-! ## Successive acquires -/

/-- `n` acquires in a row, without a drop between them. -/
def Semaphore.acquires : ℕ → Semaphore → Option Semaphore
  | 0, s => some s
  | n + 1, s => s.acquire?.bind (Semaphore.acquires n)

theorem Semaphore.acquires_isSome_iff (n : ℕ) (s : Semaphore) :
    (Semaphore.acquires n s).isSome = true ↔ n ≤ s.available := by
  induction n generalizing s with
  | zero => exact ⟨fun _ => Nat.zero_le _, fun _ => rfl⟩
  | succ n ih =>
    rw [Semaphore.acquires]
    unfold Semaphore.acquire?
    split
    · rename_i hzero
      rw [hzero]
      simp
    · rw [Option.bind_some, ih]
      dsimp only
      omega

/-- The permits are back at the size of the pool: as many are available as the counter says, and as many
successive acquires succeed. -/
def AdaptiveWorkerPool.PermitsBack (p : AdaptiveWorkerPool) : Prop :=
  p.semaphore.available = p.currentSize ∧
    ∀ n, (p.semaphore.acquires n).isSome = true ↔ n ≤ p.currentSize

theorem AdaptiveWorkerPool.permitsBack_iff {p : AdaptiveWorkerPool}
    (hidle : p.semaphore.outstanding = 0) : p.PermitsBack ↔ p.excess = 0 := by
  unfold PermitsBack excess Semaphore.total
  rw [hidle]
  constructor
  · rintro ⟨h, -⟩
    rw [h]
    exact sub_self _
  · intro h
    have havailable : p.semaphore.available = p.currentSize := by
      unfold currentSize
      omega
    refine ⟨havailable, fun n => ?_⟩
    rw [Semaphore.acquires_isSome_iff, havailable]

/-- In a state in which no permit is held, the permits are back at the size of the pool exactly if every
shrink on the way found enough free permits. -/
theorem permitsBack_iff_shrinkFits (minWorkers maxWorkers : ℕ) {as : List PoolAction}
    {p : AdaptiveWorkerPool}
    (hrun : (poolSystem minWorkers maxWorkers).run (.new minWorkers maxWorkers) as = some p)
    (hidle : p.semaphore.outstanding = 0) :
    p.PermitsBack ↔
      (poolSystem minWorkers maxWorkers).runIf shrinkFits (.new minWorkers maxWorkers) as = some p := by
  have hmeasure := System.runIf_iff_of_measure (g := shrinkFits) (m := AdaptiveWorkerPool.excess)
    (fun _ _ _ h hfits => excess_keep h hfits) (fun _ _ _ h hfits => excess_grow h hfits) hrun
  have hstart : (AdaptiveWorkerPool.new minWorkers maxWorkers).excess = 0 := by
    unfold AdaptiveWorkerPool.excess Semaphore.total
    rw [AdaptiveWorkerPool.new_semaphore, AdaptiveWorkerPool.new_current, Semaphore.new_available,
      Semaphore.new_outstanding]
    omega
  rw [AdaptiveWorkerPool.permitsBack_iff hidle, hmeasure, hstart]

/-- A pool of one to four workers grows to four, and shrinks again when all of them are done. -/
theorem permitsBack_iff_shrinkFits_four :
    ∃ p, (poolSystem 1 4).Reachable p ∧ p.semaphore.outstanding = 0 ∧ p.currentSize = 1 ∧
      p.PermitsBack := by
  have hrun : ((poolSystem 1 4).runIf shrinkFits (.new 1 4)
      ([PoolAction.reconfigure 6] ++ List.replicate 4 PoolAction.acquire ++ List.replicate 4 PoolAction.drop
        ++ [PoolAction.reconfigure 0])).map
      (fun p => (p.semaphore.outstanding, p.currentSize)) = some (0, 1) := by
    decide +kernel
  obtain ⟨p, hp, hsize⟩ := Option.map_eq_some_iff.mp hrun
  obtain ⟨hidle, hone⟩ := Prod.mk.inj hsize
  have hreachable : (poolSystem 1 4).ReachableVia (fun p a => shrinkFits p a = true) (.new 1 4) :=
    .init rfl
  exact ⟨p, (hreachable.runIf hp).reachable, hidle, hone,
    (permitsBack_iff_shrinkFits 1 4 (System.run_of_runIf hp) hidle).mpr hp⟩

/-- The pool grows to four and shrinks while all four workers are busy. When they are done, four permits are
available for a pool of one. -/
theorem permits_outlive_shrink :
    ∃ p, (poolSystem 1 4).Reachable p ∧ p.semaphore.outstanding = 0 ∧ p.currentSize = 1 ∧
      p.semaphore.available = 4 ∧ (p.semaphore.acquires 4).isSome = true := by
  have hreachable : (poolSystem 1 4).Reachable (.new 1 4) := .init rfl
  exact hreachable.exists_of_run
    (fun p => p.semaphore.outstanding = 0 ∧ p.currentSize = 1 ∧ p.semaphore.available = 4 ∧
      (p.semaphore.acquires 4).isSome = true)
    ([PoolAction.reconfigure 6] ++ List.replicate 4 PoolAction.acquire ++ [PoolAction.reconfigure 0]
      ++ List.replicate 4 PoolAction.drop)
    (by decide +kernel)

end InferenceGateway.Gateway
