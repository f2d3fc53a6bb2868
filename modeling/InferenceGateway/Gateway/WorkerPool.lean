import Mathlib

/-! # The adaptive worker pool

Reference: `worker_pool.rs`.

The pool is a `tokio::sync::Semaphore` next to a counter of the permits the pool is meant to have. The
two are changed by separate operations, and `forget_permits` can only remove permits that nobody
holds, so the counter and the number of permits in existence may drift apart.

The numbers here have no limits, and `addPermits` goes on where `add_permits` panics because the semaphore
would hold more than `MAX_PERMITS`. `PoolLimits` says in which runs that makes no difference, and the racing
calls of `RacingPool` do panic.
-/

namespace InferenceGateway.Gateway

/-! ## The semaphore -/

/-- `Semaphore::MAX_PERMITS`, `usize::MAX >> 3` on a 64-bit target. -/
def MAX_PERMITS : ℕ := 2 ^ 61 - 1

/-- `tokio::sync::Semaphore`. Only `available` is a field of the real semaphore; `outstanding` counts
the `OwnedSemaphorePermit`s that were handed out and not dropped yet. -/
structure Semaphore where
  available : ℕ
  outstanding : ℕ
deriving DecidableEq, Repr

namespace Semaphore

/-- `Semaphore::new`. -/
def new (permits : ℕ) : Semaphore := ⟨permits, 0⟩

/-- `add_permits`. -/
def addPermits (s : Semaphore) (n : ℕ) : Semaphore := { s with available := s.available + n }

/-- `forget_permits`: removes `min n available` permits. -/
def forgetPermits (s : Semaphore) (n : ℕ) : Semaphore :=
  { s with available := s.available - min n s.available }

/-- `acquire_owned`; `none` while it has to wait. -/
def acquire? (s : Semaphore) : Option Semaphore :=
  if s.available = 0 then none
  else some ⟨s.available - 1, s.outstanding + 1⟩

/-- Dropping an `OwnedSemaphorePermit`. -/
def release (s : Semaphore) : Semaphore := ⟨s.available + 1, s.outstanding - 1⟩

/-- All permits in existence. -/
def total (s : Semaphore) : ℕ := s.available + s.outstanding

@[simp] theorem new_available (n : ℕ) : (new n).available = n := rfl
@[simp] theorem new_outstanding (n : ℕ) : (new n).outstanding = 0 := rfl
@[simp] theorem release_available (s : Semaphore) : s.release.available = s.available + 1 := rfl
@[simp] theorem release_outstanding (s : Semaphore) :
    s.release.outstanding = s.outstanding - 1 := rfl

theorem acquire?_eq_some {s t : Semaphore} :
    s.acquire? = some t ↔
      s.available = t.available + 1 ∧ t.outstanding = s.outstanding + 1 := by
  rcases s with ⟨a, o⟩
  rcases t with ⟨a', o'⟩
  simp only [acquire?]
  split
  · simp only [reduceCtorEq, false_iff]; omega
  · simp only [Option.some.injEq, mk.injEq]; omega

end Semaphore

/-! ## The pool -/

/-- Rust's `Ord::clamp`. -/
def clamp (x lo hi : ℕ) : ℕ := if x < lo then lo else if hi < x then hi else x

/-- The configured bounds of a pool, as `AdaptiveWorkerPool::new` leaves them. -/
structure PoolBounds where
  minWorkers : ℕ
  maxWorkers : ℕ
  one_le_min : 1 ≤ minWorkers
  min_le_max : minWorkers ≤ maxWorkers

/-- The clamping of `AdaptiveWorkerPool::new`. -/
def PoolBounds.new (minWorkers maxWorkers : ℕ) : PoolBounds where
  minWorkers := max (min minWorkers (max maxWorkers 1)) 1
  maxWorkers := max maxWorkers 1
  one_le_min := le_max_right _ _
  min_le_max := by omega

/-- `AdaptiveWorkerPool`. -/
structure AdaptiveWorkerPool where
  bounds : PoolBounds
  semaphore : Semaphore
  current : ℕ

namespace AdaptiveWorkerPool

/-- `AdaptiveWorkerPool::new`. -/
def new (minWorkers maxWorkers : ℕ) : AdaptiveWorkerPool :=
  let bounds := PoolBounds.new minWorkers maxWorkers
  { bounds, semaphore := Semaphore.new bounds.minWorkers, current := bounds.minWorkers }

/-- `plan`: one worker for about two queued jobs, within the bounds. -/
def plan (p : AdaptiveWorkerPool) (queueLen : ℕ) : ℕ :=
  let base := p.bounds.minWorkers
  let extra := queueLen / 2
  clamp (base + extra) p.bounds.minWorkers p.bounds.maxWorkers

/-- The permit change of one round of the loop in `reconfigure`. -/
def adjustPermits (s : Semaphore) (desired current : ℕ) : Semaphore :=
  let delta : ℤ := desired - current
  if 0 < delta then s.addPermits delta.toNat else s.forgetPermits (-delta).toNat

/-- `reconfigure`, called by the dispatcher alone: nobody else writes `current`, so the
`compare_exchange` of the first round succeeds. -/
def reconfigure (p : AdaptiveWorkerPool) (queueLen : ℕ) : AdaptiveWorkerPool × ℕ :=
  let desired := p.plan queueLen
  if desired = p.current then (p, desired)
  else
    ({ p with
        semaphore := adjustPermits p.semaphore desired p.current
        current := desired },
      desired)

/-- `current_size`. -/
def currentSize (p : AdaptiveWorkerPool) : ℕ := p.current

/-- `max_size`. -/
def maxSize (p : AdaptiveWorkerPool) : ℕ := p.bounds.maxWorkers

/-! ### What the operations do -/

theorem min_le_plan (p : AdaptiveWorkerPool) (q : ℕ) : p.bounds.minWorkers ≤ p.plan q := by
  have := p.bounds.min_le_max
  simp only [plan, clamp]
  split <;> [exact le_rfl; split <;> omega]

theorem plan_le_max (p : AdaptiveWorkerPool) (q : ℕ) : p.plan q ≤ p.bounds.maxWorkers := by
  have := p.bounds.min_le_max
  simp only [plan, clamp]
  split <;> [omega; split <;> omega]

/-- The scaling policy without its never-taken lower clamp. -/
theorem plan_eq (p : AdaptiveWorkerPool) (q : ℕ) :
    p.plan q = min p.bounds.maxWorkers (p.bounds.minWorkers + q / 2) := by
  have := p.bounds.min_le_max
  simp only [plan, clamp]
  split <;> [omega; split <;> omega]

@[simp] theorem adjustPermits_outstanding (s : Semaphore) (d c : ℕ) :
    (adjustPermits s d c).outstanding = s.outstanding := by
  simp only [adjustPermits]
  split <;> rfl

/-- Growing adds the difference; shrinking takes it away as far as free permits reach, which is what
subtraction on `ℕ` does. -/
@[simp] theorem adjustPermits_available (s : Semaphore) (d c : ℕ) :
    (adjustPermits s d c).available = s.available + (d - c) - (c - d) := by
  simp only [adjustPermits]
  split
  · simp only [Semaphore.addPermits]; omega
  · simp only [Semaphore.forgetPermits]; omega

@[simp] theorem reconfigure_snd (p : AdaptiveWorkerPool) (q : ℕ) :
    (p.reconfigure q).2 = p.plan q := by
  simp only [reconfigure]
  split <;> rfl

@[simp] theorem reconfigure_bounds (p : AdaptiveWorkerPool) (q : ℕ) :
    (p.reconfigure q).1.bounds = p.bounds := by
  simp only [reconfigure]
  split <;> rfl

@[simp] theorem reconfigure_maxSize (p : AdaptiveWorkerPool) (q : ℕ) :
    (p.reconfigure q).1.maxSize = p.maxSize := by
  rw [maxSize, reconfigure_bounds, maxSize]

@[simp] theorem reconfigure_current (p : AdaptiveWorkerPool) (q : ℕ) :
    (p.reconfigure q).1.current = p.plan q := by
  simp only [reconfigure]
  split
  · rename_i h; exact h.symm
  · rfl

@[simp] theorem reconfigure_outstanding (p : AdaptiveWorkerPool) (q : ℕ) :
    (p.reconfigure q).1.semaphore.outstanding = p.semaphore.outstanding := by
  simp only [reconfigure]
  split
  · rfl
  · exact adjustPermits_outstanding _ _ _

@[simp] theorem reconfigure_available (p : AdaptiveWorkerPool) (q : ℕ) :
    (p.reconfigure q).1.semaphore.available =
      p.semaphore.available + (p.plan q - p.current) - (p.current - p.plan q) := by
  simp only [reconfigure]
  split
  · rename_i h
    rw [h]
    dsimp only
    omega
  · exact adjustPermits_available _ _ _

@[simp] theorem new_bounds (lo hi : ℕ) : (new lo hi).bounds = PoolBounds.new lo hi := rfl
@[simp] theorem new_semaphore (lo hi : ℕ) :
    (new lo hi).semaphore = Semaphore.new (PoolBounds.new lo hi).minWorkers := rfl
@[simp] theorem new_current (lo hi : ℕ) :
    (new lo hi).current = (PoolBounds.new lo hi).minWorkers := rfl

/-- The configured example of the unit test `grows_and_shrinks_with_queue`. -/
example : ((new 1 4).reconfigure 6).2 = 4 ∧ (((new 1 4).reconfigure 6).1.reconfigure 0).2 = 1 := by
  decide

end AdaptiveWorkerPool

end InferenceGateway.Gateway
