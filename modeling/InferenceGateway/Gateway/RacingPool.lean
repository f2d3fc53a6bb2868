import InferenceGateway.Common.Threads
import InferenceGateway.Gateway.WorkerPool

/-! # Racing reconfigures

Reference: `worker_pool.rs`.

Any number of calls of `reconfigure` on one pool, step by step: a call loads the counter, changes the
permits and only then tries to exchange the counter. An attempt whose exchange fails has already moved its
permits and the retry does not take them back; a shrink that finds too few free permits moves fewer than
it records. Both add to a leak, and once all calls have returned the free permits are off the counter by
exactly the leak.

Calls end whatever the schedule: an exchange fails only because another call's exchange has succeeded, and
that call returns.
-/

namespace InferenceGateway.Gateway

open Common

/-! ## The calls -/

/-- Where a call of `reconfigure` stands. -/
inductive CallPhase
  | called
  /-- In the loop with the value of the counter last read, before the permit change. -/
  | adjusting (current : ℕ)
  /-- Before the `compare_exchange`. `moved` is what the permit change did to the free permits, which
  `forget_permits` returns and the code ignores. -/
  | exchanging (current : ℕ) (moved : ℤ)
  | returned (size : ℕ)
  /-- `add_permits` has panicked, with `moved` permits added before. -/
  | panicked (moved : ℕ)
deriving DecidableEq, Repr

/-- The call can still take steps. -/
def CallPhase.isActive : CallPhase → Bool
  | .returned _ => false
  | .panicked _ => false
  | _ => true

/-- A call of `reconfigure`. -/
structure ReconfigureCall where
  queueLen : ℕ
  phase : CallPhase := .called
deriving DecidableEq, Repr

/-- The head of the loop. -/
def loopHead (desired current : ℕ) : CallPhase :=
  if desired = current then .returned desired else .adjusting current

/-- The permits in a semaphore after `add_permits` of too many: it refuses more than `MAX_PERMITS` at once,
and otherwise adds them before it panics over their number. -/
def addedInPanic (n : ℕ) : ℕ := if MAX_PERMITS < n then 0 else n

/-- The next atomic step of a call. `add_permits` panics when the semaphore would hold more than
`MAX_PERMITS`. -/
def ReconfigureCall.step (p : AdaptiveWorkerPool) (c : ReconfigureCall) :
    Option (AdaptiveWorkerPool × ReconfigureCall) :=
  let desired := p.plan c.queueLen
  match c.phase with
  | .called => some (p, { c with phase := loopHead desired p.current })
  | .adjusting current =>
    if current < desired ∧ MAX_PERMITS < p.semaphore.available + (desired - current) then
      let moved := addedInPanic (desired - current)
      some ({ p with semaphore := p.semaphore.addPermits moved }, { c with phase := .panicked moved })
    else
      let semaphore := AdaptiveWorkerPool.adjustPermits p.semaphore desired current
      some ({ p with semaphore := semaphore },
        { c with phase := .exchanging current (semaphore.available - p.semaphore.available) })
  | .exchanging current _ =>
    if p.current = current then
      some ({ p with current := desired }, { c with phase := .returned desired })
    else some (p, { c with phase := loopHead desired p.current })
  | .returned _ => none
  | .panicked _ => none

/-- The start: a pool and calls with the given queue lengths. -/
def calls (p : AdaptiveWorkerPool) (queueLens : List ℕ) : Threads AdaptiveWorkerPool ReconfigureCall :=
  ⟨p, queueLens.map fun queueLen => { queueLen := queueLen }⟩

/-- Calls that race on a pool. -/
def racing (p : AdaptiveWorkerPool) (queueLens : List ℕ) :
    System (Threads AdaptiveWorkerPool ReconfigureCall) ℕ :=
  threadSystem (fun s => s = calls p queueLens) ReconfigureCall.step

section Racing

variable {p p' p₀ : AdaptiveWorkerPool} {c c' : ReconfigureCall} {queueLens : List ℕ}
  {s t : Threads AdaptiveWorkerPool ReconfigureCall}

/-- What a step of a call can be. -/
inductive CallStep (p : AdaptiveWorkerPool) (c : ReconfigureCall) :
    AdaptiveWorkerPool → ReconfigureCall → Prop
  | load (h : c.phase = .called) :
      CallStep p c p { c with phase := loopHead (p.plan c.queueLen) p.current }
  | panic {current : ℕ} (h : c.phase = .adjusting current) (hgrow : current < p.plan c.queueLen)
      (hfull : MAX_PERMITS < p.semaphore.available + (p.plan c.queueLen - current)) :
      CallStep p c
        { p with semaphore := p.semaphore.addPermits (addedInPanic (p.plan c.queueLen - current)) }
        { c with phase := .panicked (addedInPanic (p.plan c.queueLen - current)) }
  | adjust {current : ℕ} {semaphore : Semaphore} (h : c.phase = .adjusting current)
      (hs : semaphore = AdaptiveWorkerPool.adjustPermits p.semaphore (p.plan c.queueLen) current) :
      CallStep p c { p with semaphore := semaphore }
        { c with phase := .exchanging current (semaphore.available - p.semaphore.available) }
  | exchange {current : ℕ} {moved : ℤ} (h : c.phase = .exchanging current moved)
      (hc : p.current = current) :
      CallStep p c { p with current := p.plan c.queueLen }
        { c with phase := .returned (p.plan c.queueLen) }
  | retry {current : ℕ} {moved : ℤ} (h : c.phase = .exchanging current moved)
      (hc : p.current ≠ current) :
      CallStep p c p { c with phase := loopHead (p.plan c.queueLen) p.current }

theorem callStep_of_step (h : c.step p = some (p', c')) : CallStep p c p' c' := by
  unfold ReconfigureCall.step at h
  cases hphase : c.phase with
  | called =>
    simp only [hphase, Option.some.injEq, Prod.mk.injEq] at h
    obtain ⟨rfl, rfl⟩ := h
    exact .load hphase
  | adjusting current =>
    simp only [hphase] at h
    split at h
    · rename_i hfull
      simp only [Option.some.injEq, Prod.mk.injEq] at h
      obtain ⟨rfl, rfl⟩ := h
      exact .panic hphase hfull.1 hfull.2
    · simp only [Option.some.injEq, Prod.mk.injEq] at h
      obtain ⟨rfl, rfl⟩ := h
      exact .adjust hphase rfl
  | exchanging current moved =>
    simp only [hphase] at h
    split at h
    · rename_i hc
      simp only [Option.some.injEq, Prod.mk.injEq] at h
      obtain ⟨rfl, rfl⟩ := h
      exact .exchange hphase hc
    · rename_i hc
      simp only [Option.some.injEq, Prod.mk.injEq] at h
      obtain ⟨rfl, rfl⟩ := h
      exact .retry hphase hc
  | returned size | panicked =>
    simp only [hphase, reduceCtorEq] at h

/-- A call that has not ended can always move. -/
theorem step_isSome (p : AdaptiveWorkerPool) (hc : c.phase.isActive = true) : (c.step p).isSome := by
  unfold ReconfigureCall.step
  cases hphase : c.phase with
  | called => rfl
  | adjusting current =>
    dsimp only
    split <;> rfl
  | exchanging current moved =>
    dsimp only
    split <;> rfl
  | returned size | panicked =>
    rw [hphase] at hc
    cases hc

theorem racing_step {i : ℕ} (h : (racing p₀ queueLens).step s i = some t) :
    ∃ c p' c', s.locals[i]? = some c ∧ CallStep s.shared c p' c' ∧ t = ⟨p', s.locals.set i c'⟩ := by
  obtain ⟨c, p', c', hi, hstep, rfl⟩ := Threads.stepOf_eq_some_iff.mp h
  exact ⟨c, p', c', hi, callStep_of_step hstep, rfl⟩

/-! ## Every call ends -/

/-- How far a call is from its end: a call that has read an old value of the counter has to retry. -/
def ReconfigureCall.weight (counter : ℕ) (c : ReconfigureCall) : ℕ :=
  match c.phase with
  | .called => 3
  | .adjusting current => if counter = current then 2 else 4
  | .exchanging current _ => if counter = current then 1 else 3
  | .returned _ => 0
  | .panicked _ => 0

/-- The calls that have not ended. -/
def activeCalls (s : Threads AdaptiveWorkerPool ReconfigureCall) : ℕ :=
  s.locals.countP fun c => c.phase.isActive

/-- The steps that are left at most. A successful exchange ends a call and may cost each of the others a
retry. -/
def stepsLeft (s : Threads AdaptiveWorkerPool ReconfigureCall) : ℕ :=
  activeCalls s ^ 2 + (s.locals.map (ReconfigureCall.weight s.shared.current)).sum

theorem weight_loopHead (desired counter queueLen : ℕ) :
    ReconfigureCall.weight counter ⟨queueLen, loopHead desired counter⟩ ≤ 2 := by
  unfold ReconfigureCall.weight loopHead
  by_cases h : desired = counter
  · rw [if_pos h]
    exact Nat.zero_le 2
  · rw [if_neg h]
    simp only [if_true, le_refl]

/-- A change of the counter costs a call that has not ended at most one retry. -/
theorem weight_le (counter counter' : ℕ) (c : ReconfigureCall) :
    c.weight counter' ≤ c.weight counter + 2 * if c.phase.isActive then 1 else 0 := by
  rcases c with ⟨queueLen, _ | current | ⟨current, moved⟩ | _ | _⟩
  · exact Nat.le_add_right 3 _
  · show (if counter' = current then 2 else 4) ≤ (if counter = current then 2 else 4) + 2
    split_ifs <;> omega
  · show (if counter' = current then 1 else 3) ≤ (if counter = current then 1 else 3) + 2
    split_ifs <;> omega
  · exact le_rfl
  · exact le_rfl

theorem isActive_of_weight {counter : ℕ} (h : 0 < c.weight counter) : c.phase.isActive = true := by
  unfold ReconfigureCall.weight at h
  rcases hphase : c.phase with _ | _ | _ | _ | _
  · rfl
  · rfl
  · rfl
  · simp [hphase] at h
  · simp [hphase] at h

/-- A step that leaves the counter alone takes weight from its call and ends it or not. -/
theorem stepsLeft_lt_of_counter {i : ℕ} (hi : s.locals[i]? = some c)
    (hcounter : p'.current = s.shared.current) (hweight : c'.weight s.shared.current < c.weight s.shared.current) :
    stepsLeft ⟨p', s.locals.set i c'⟩ < stepsLeft s := by
  have hactive := isActive_of_weight (Nat.zero_lt_of_lt hweight)
  have hsum := natSum_map_set hi c' (ReconfigureCall.weight s.shared.current)
  have hcount := countP_set_add hi c' fun c => c.phase.isActive
  rw [hactive, if_pos rfl] at hcount
  have hle : (s.locals.set i c').countP (fun c => c.phase.isActive) ≤ activeCalls s := by
    unfold activeCalls
    split at hcount <;> omega
  have hsq := Nat.pow_le_pow_left hle 2
  unfold stepsLeft
  rw [hcounter]
  exact Nat.add_lt_add_of_le_of_lt hsq (by dsimp only; omega)

/-- A step that changes the counter ends its call. -/
theorem stepsLeft_lt_of_exchange {i : ℕ} (hi : s.locals[i]? = some c) (hactive : c.phase.isActive = true)
    (hweight : 0 < c.weight s.shared.current) (hended : c'.phase.isActive = false)
    (hzero : c'.weight s.shared.current = 0) :
    stepsLeft ⟨p', s.locals.set i c'⟩ < stepsLeft s := by
  have hcount := countP_set_add hi c' fun c => c.phase.isActive
  rw [hactive, hended, if_pos rfl, if_neg Bool.false_ne_true, Nat.add_zero (List.countP _ _)] at hcount
  have hsum := natSum_map_set hi c' (ReconfigureCall.weight s.shared.current)
  rw [hzero, Nat.add_zero] at hsum
  have hothers : ((s.locals.set i c').map (ReconfigureCall.weight p'.current)).sum ≤
      ((s.locals.set i c').map (ReconfigureCall.weight s.shared.current)).sum
        + 2 * (s.locals.set i c').countP fun c => c.phase.isActive := by
    refine (List.sum_le_sum fun c _ => weight_le s.shared.current p'.current c).trans_eq ?_
    rw [List.sum_map_add, List.sum_map_mul_left, natSum_map_ite_eq_countP]
  unfold stepsLeft activeCalls
  generalize (s.locals.set i c').countP (fun c => c.phase.isActive) = rest at *
  rw [← hcount]
  have hsq : (rest + 1) ^ 2 = rest ^ 2 + 2 * rest + 1 := by ring
  dsimp only
  omega

theorem stepsLeft_lt {i : ℕ} (hs : (racing p₀ queueLens).step s i = some t) :
    stepsLeft t < stepsLeft s := by
  obtain ⟨c, p', c', hi, hstep, rfl⟩ := racing_step hs
  have hload := weight_loopHead (s.shared.plan c.queueLen) s.shared.current c.queueLen
  cases hstep with
  | load h =>
    refine stepsLeft_lt_of_counter hi rfl ?_
    have hcalled : c.weight s.shared.current = 3 := by
      unfold ReconfigureCall.weight
      rw [h]
    omega
  | panic h | adjust h =>
    refine stepsLeft_lt_of_counter hi rfl ?_
    unfold ReconfigureCall.weight
    rw [h]
    dsimp only
    split_ifs <;> omega
  | retry h hc =>
    refine stepsLeft_lt_of_counter hi rfl ?_
    have hstale : c.weight s.shared.current = 3 := by
      unfold ReconfigureCall.weight
      rw [h]
      exact if_neg hc
    omega
  | exchange h hc =>
    -- One call fewer is active, and each of the others may have become stale.
    refine stepsLeft_lt_of_exchange hi ?_ ?_ rfl rfl
    · rw [h]
      rfl
    · unfold ReconfigureCall.weight
      rw [h]
      exact Nat.lt_of_lt_of_eq Nat.zero_lt_one (if_pos hc).symm

/-! ## The permits that are left over -/

/-- What an exchange adds to the leak: when it fails, all permits that its attempt has moved, and when it
succeeds, the difference between these and the change of the counter. -/
def addLeak (s : Threads AdaptiveWorkerPool ReconfigureCall) (i : ℕ) (leak : ℤ) : ℤ :=
  match s.locals[i]? with
  | some ⟨queueLen, .exchanging current moved⟩ =>
    if s.shared.current = current then leak + (moved - (s.shared.plan queueLen - current))
    else leak + moved
  | _ => leak

/-- The permits that a call has moved and not entered into the counter. -/
def ReconfigureCall.pending (c : ReconfigureCall) : ℤ :=
  match c.phase with
  | .exchanging _ moved => moved
  | .panicked moved => moved
  | _ => 0

/-- How far the free permits are off the counter. -/
def AdaptiveWorkerPool.drift (p : AdaptiveWorkerPool) : ℤ := p.semaphore.available - p.current

theorem pending_loopHead (desired counter queueLen : ℕ) :
    ReconfigureCall.pending ⟨queueLen, loopHead desired counter⟩ = 0 := by
  unfold ReconfigureCall.pending loopHead
  by_cases h : desired = counter
  · rw [if_pos h]
  · rw [if_neg h]

theorem addLeak_of_exchanging {i : ℕ} {current : ℕ} {moved : ℤ} (hi : s.locals[i]? = some c)
    (h : c.phase = .exchanging current moved) (leak : ℤ) :
    addLeak s i leak = if s.shared.current = current then
      leak + (moved - (s.shared.plan c.queueLen - current)) else leak + moved := by
  rcases c with ⟨queueLen, phase⟩
  obtain rfl : phase = .exchanging current moved := h
  unfold addLeak
  rw [hi]

theorem addLeak_of_not_exchanging {i : ℕ} (hi : s.locals[i]? = some c)
    (h : ∀ current moved, c.phase ≠ .exchanging current moved) (leak : ℤ) :
    addLeak s i leak = leak := by
  rcases c with ⟨queueLen, phase⟩
  unfold addLeak
  rw [hi]
  cases phase with
  | exchanging current moved => exact absurd rfl (h current moved)
  | _ => rfl

/-- The drift is the one at the start, the leak and what is pending. -/
def Balanced (p₀ : AdaptiveWorkerPool) (s : Threads AdaptiveWorkerPool ReconfigureCall) (leak : ℤ) : Prop :=
  s.shared.drift = p₀.drift + leak + (s.locals.map ReconfigureCall.pending).sum

theorem pending_of_returned {size : ℕ} (h : c.phase = .returned size) : c.pending = 0 := by
  unfold ReconfigureCall.pending
  rw [h]

theorem pending_of_exchanging {current : ℕ} {moved : ℤ} (h : c.phase = .exchanging current moved) :
    c.pending = moved := by
  unfold ReconfigureCall.pending
  rw [h]

theorem Balanced.step {leak : ℤ} {i : ℕ} (hb : Balanced p₀ s leak)
    (hs : (racing p₀ queueLens).step s i = some t) : Balanced p₀ t (addLeak s i leak) := by
  obtain ⟨c, p', c', hi, hstep, rfl⟩ := racing_step hs
  unfold Balanced at hb ⊢
  rw [sum_map_set hi]
  generalize (s.locals.map ReconfigureCall.pending).sum = pending at hb ⊢
  generalize p₀.drift = drift at hb ⊢
  unfold AdaptiveWorkerPool.drift at hb ⊢
  have hload := pending_loopHead (s.shared.plan c.queueLen) s.shared.current c.queueLen
  cases hstep with
  | load h =>
    have hbefore : c.pending = 0 := by rw [ReconfigureCall.pending, h]
    rw [addLeak_of_not_exchanging hi (by rw [h]; rintro _ _ ⟨⟩), hbefore, hload]
    dsimp only
    omega
  | panic h =>
    have hbefore : c.pending = 0 := by rw [ReconfigureCall.pending, h]
    rw [addLeak_of_not_exchanging hi (by rw [h]; rintro _ _ ⟨⟩), hbefore]
    dsimp only [ReconfigureCall.pending, Semaphore.addPermits]
    omega
  | @adjust current semaphore h hsem =>
    have hbefore : c.pending = 0 := by rw [ReconfigureCall.pending, h]
    rw [addLeak_of_not_exchanging hi (by rw [h]; rintro _ _ ⟨⟩), hbefore, pending_of_exchanging rfl]
    dsimp only
    omega
  | exchange h hc =>
    have hended : ReconfigureCall.pending ⟨c.queueLen, .returned (s.shared.plan c.queueLen)⟩ = 0 := rfl
    rw [addLeak_of_exchanging hi h, if_pos hc, pending_of_exchanging h, hended]
    dsimp only
    omega
  | retry h hc =>
    rw [addLeak_of_exchanging hi h, if_neg hc, pending_of_exchanging h, hload]
    dsimp only
    omega

theorem balanced_of_reachable {leak : ℤ}
    (h : ((racing p₀ queueLens).withHistory 0 addLeak).Reachable (s, leak)) : Balanced p₀ s leak := by
  refine h.invariant (I := fun q => Balanced p₀ q.1 q.2) ?_ ?_
  · rintro ⟨s, leak⟩ ⟨hs, hleak⟩
    obtain rfl : s = calls p₀ queueLens := hs
    obtain rfl : leak = 0 := hleak
    have hnone : ((calls p₀ queueLens).locals.map ReconfigureCall.pending).sum = 0 := by
      refine List.sum_eq_zero fun z hz => ?_
      obtain ⟨c, hc, rfl⟩ := List.mem_map.mp hz
      obtain ⟨queueLen, -, rfl⟩ := List.mem_map.mp hc
      rfl
    show p₀.drift = p₀.drift + 0 + ((calls p₀ queueLens).locals.map ReconfigureCall.pending).sum
    omega
  · rintro ⟨s, leak⟩ i ⟨t, leak'⟩ - hb - hstep
    obtain ⟨u, hu, heq⟩ := Option.map_eq_some_iff.mp hstep
    cases heq
    exact hb.step hu

/-! ## Steady runs -/

/-- The condition on a step: a permit change stays below the limit of the semaphore and finds the permits
that it is to remove, and an exchange finds the counter as its call has read it. -/
def steady (s : Threads AdaptiveWorkerPool ReconfigureCall) (i : ℕ) : Bool :=
  match s.locals[i]? with
  | some ⟨queueLen, .adjusting current⟩ =>
    (s.shared.plan queueLen ≤ current
      || s.shared.semaphore.available + (s.shared.plan queueLen - current) ≤ MAX_PERMITS)
      && current - s.shared.plan queueLen ≤ s.shared.semaphore.available
  | some ⟨_, .exchanging current _⟩ => s.shared.current = current
  | _ => true

/-- What a steady run keeps of a call. -/
def ReconfigureCall.Clean (bounds : PoolBounds) (c : ReconfigureCall) : Prop :=
  (∀ moved, c.phase ≠ .panicked moved) ∧ ∀ current moved, c.phase = .exchanging current moved →
    moved = min bounds.maxWorkers (bounds.minWorkers + c.queueLen / 2) - current

/-- What a steady run keeps. -/
structure SteadyInv (p₀ : AdaptiveWorkerPool) (s : Threads AdaptiveWorkerPool ReconfigureCall)
    (leak : ℤ) : Prop where
  bounds : s.shared.bounds = p₀.bounds
  leak : leak = 0
  clean : ∀ c ∈ s.locals, c.Clean p₀.bounds

theorem clean_loopHead (bounds : PoolBounds) (desired counter queueLen : ℕ) :
    ReconfigureCall.Clean bounds ⟨queueLen, loopHead desired counter⟩ := by
  unfold ReconfigureCall.Clean loopHead
  by_cases h : desired = counter
  · rw [if_pos h]
    exact ⟨by rintro _ ⟨⟩, by rintro _ _ ⟨⟩⟩
  · rw [if_neg h]
    exact ⟨by rintro _ ⟨⟩, by rintro _ _ ⟨⟩⟩

private theorem forall_mem_set {P : ReconfigureCall → Prop} (hs : ∀ c ∈ s.locals, P c) {i : ℕ} (hc : P c') :
    ∀ c ∈ s.locals.set i c', P c := by
  intro c hmem
  rcases List.mem_or_eq_of_mem_set hmem with hmem | rfl
  · exact hs c hmem
  · exact hc

theorem steady_adjusting {i current : ℕ} (hi : s.locals[i]? = some c) (h : c.phase = .adjusting current)
    (hsteady : steady s i = true) :
    (s.shared.plan c.queueLen ≤ current ∨
      s.shared.semaphore.available + (s.shared.plan c.queueLen - current) ≤ MAX_PERMITS) ∧
      current - s.shared.plan c.queueLen ≤ s.shared.semaphore.available := by
  rcases c with ⟨queueLen, phase⟩
  obtain rfl : phase = .adjusting current := h
  unfold steady at hsteady
  rw [hi] at hsteady
  simpa using hsteady

theorem steady_exchanging {i current : ℕ} {moved : ℤ} (hi : s.locals[i]? = some c)
    (h : c.phase = .exchanging current moved) (hsteady : steady s i = true) :
    s.shared.current = current := by
  rcases c with ⟨queueLen, phase⟩
  obtain rfl : phase = .exchanging current moved := h
  unfold steady at hsteady
  rw [hi] at hsteady
  simpa using hsteady

theorem SteadyInv.step {leak : ℤ} {i : ℕ} (hinv : SteadyInv p₀ s leak) (hsteady : steady s i = true)
    (hs : (racing p₀ queueLens).step s i = some t) : SteadyInv p₀ t (addLeak s i leak) := by
  obtain ⟨c, p', c', hi, hstep, rfl⟩ := racing_step hs
  have hc := hinv.clean c (List.mem_of_getElem? hi)
  have hplan := s.shared.plan_eq c.queueLen
  rw [hinv.bounds] at hplan
  cases hstep with
  | load h =>
    rw [addLeak_of_not_exchanging hi (by rw [h]; rintro _ _ ⟨⟩)]
    exact ⟨hinv.bounds, hinv.leak, forall_mem_set hinv.clean (clean_loopHead _ _ _ _)⟩
  | panic h hgrow hfull =>
    have := (steady_adjusting hi h hsteady).1
    omega
  | @adjust current semaphore h hsem =>
    rw [addLeak_of_not_exchanging hi (by rw [h]; rintro _ _ ⟨⟩)]
    refine ⟨hinv.bounds, hinv.leak, forall_mem_set hinv.clean ⟨by rintro _ ⟨⟩, ?_⟩⟩
    rintro _ _ ⟨⟩
    have hfits := (steady_adjusting hi h hsteady).2
    rw [hsem, AdaptiveWorkerPool.adjustPermits_available, ← hplan]
    omega
  | @exchange current moved h hcurrent =>
    have hmoved := hc.2 current moved h
    rw [addLeak_of_exchanging hi h, if_pos hcurrent]
    refine ⟨hinv.bounds, ?_, forall_mem_set hinv.clean ⟨by rintro _ ⟨⟩, by rintro _ _ ⟨⟩⟩⟩
    rw [hinv.leak, hmoved, hplan]
    omega
  | retry h hcurrent => exact absurd (steady_exchanging hi h hsteady) hcurrent

theorem steadyInv_of_reachable {leak : ℤ}
    (h : ((racing p₀ queueLens).withHistory 0 addLeak).ReachableVia (fun q i => steady q.1 i = true)
      (s, leak)) : SteadyInv p₀ s leak := by
  refine h.invariant (I := fun q => SteadyInv p₀ q.1 q.2) ?_ ?_
  · rintro ⟨s, leak⟩ ⟨hs, hleak⟩
    obtain rfl : s = calls p₀ queueLens := hs
    refine ⟨rfl, hleak, fun c hc => ?_⟩
    obtain ⟨queueLen, -, rfl⟩ := List.mem_map.mp hc
    exact ⟨by rintro _ ⟨⟩, by rintro _ _ ⟨⟩⟩
  · rintro ⟨s, leak⟩ i ⟨t, leak'⟩ - hinv hsteady hstep
    obtain ⟨u, hu, heq⟩ := Option.map_eq_some_iff.mp hstep
    cases heq
    exact hinv.step hsteady hu

/-! ## The law -/

/-- Every call has ended. -/
def AllEnded (s : Threads AdaptiveWorkerPool ReconfigureCall) : Prop :=
  ∀ c ∈ s.locals, c.phase.isActive = false

instance (s : Threads AdaptiveWorkerPool ReconfigureCall) : Decidable (AllEnded s) :=
  inferInstanceAs (Decidable (∀ c ∈ s.locals, c.phase.isActive = false))

/-- Every call has returned. -/
def AllReturned (s : Threads AdaptiveWorkerPool ReconfigureCall) : Prop :=
  ∀ c ∈ s.locals, ∃ size, c.phase = .returned size

theorem stepsLeft_calls (p : AdaptiveWorkerPool) (queueLens : List ℕ) :
    stepsLeft (calls p queueLens) = queueLens.length ^ 2 + 3 * queueLens.length := by
  have hcount : activeCalls (calls p queueLens) = queueLens.length := by
    unfold activeCalls calls
    rw [List.countP_map]
    exact List.countP_eq_length.mpr fun _ _ => rfl
  have hsum : ((calls p queueLens).locals.map (ReconfigureCall.weight p.current)).sum =
      3 * queueLens.length := by
    unfold calls
    rw [List.map_map]
    show (queueLens.map fun _ => 3).sum = 3 * queueLens.length
    rw [List.map_const', List.sum_replicate, smul_eq_mul, Nat.mul_comm]
  unfold stepsLeft
  rw [hcount]
  exact congrArg _ hsum

/-- Calls of `reconfigure` that race on a pool end under every schedule. When all have returned, the free
permits equal the counter exactly if the drift at the start and the leak of the exchanges cancel out. In a
run whose steps are all steady nothing leaks and no call panics. -/
theorem racing_reconfigures (p₀ : AdaptiveWorkerPool) (queueLens : List ℕ) :
    (∀ schedule s, (racing p₀ queueLens).run (calls p₀ queueLens) schedule = some s →
      schedule.length ≤ queueLens.length ^ 2 + 3 * queueLens.length) ∧
    (∀ s leak, ((racing p₀ queueLens).withHistory 0 addLeak).Reachable (s, leak) →
      (∀ i c, s.locals[i]? = some c → c.phase.isActive = true →
        ((racing p₀ queueLens).step s i).isSome) ∧
      (AllReturned s →
        (s.shared.semaphore.available = s.shared.currentSize ↔ p₀.drift + leak = 0))) ∧
    ∀ s leak, ((racing p₀ queueLens).withHistory 0 addLeak).ReachableVia
        (fun q i => steady q.1 i = true) (s, leak) →
      leak = 0 ∧ (AllEnded s → AllReturned s) := by
  refine ⟨?_, ?_, ?_⟩
  · intro schedule s hrun
    have hlen := System.run_length_le (fun s i t => stepsLeft_lt) hrun
    rw [stepsLeft_calls] at hlen
    omega
  · intro s leak h
    refine ⟨fun i c hi hc => Threads.stepOf_isSome hi (step_isSome s.shared hc), fun hreturned => ?_⟩
    have hpending : (s.locals.map ReconfigureCall.pending).sum = 0 := by
      refine List.sum_eq_zero fun z hz => ?_
      obtain ⟨c, hc, rfl⟩ := List.mem_map.mp hz
      obtain ⟨size, hsize⟩ := hreturned c hc
      exact pending_of_returned hsize
    have hbalance := balanced_of_reachable h
    unfold Balanced at hbalance
    rw [hpending] at hbalance
    have hdrift : s.shared.drift = s.shared.semaphore.available - s.shared.currentSize := rfl
    omega
  · intro s leak h
    have hinv := steadyInv_of_reachable h
    refine ⟨hinv.leak, fun hended c hc => ?_⟩
    have hactive := hended c hc
    have hclean := (hinv.clean c hc).1
    cases hphase : c.phase with
    | returned size => exact ⟨size, rfl⟩
    | panicked moved => exact absurd hphase (hclean moved)
    | _ =>
      rw [hphase] at hactive
      cases hactive

end Racing

theorem racing_init (p : AdaptiveWorkerPool) (queueLens : List ℕ) :
    (racing p queueLens).Reachable (calls p queueLens) :=
  .init rfl

/-- A pool grows under one call and shrinks under the next. -/
theorem racing_reconfigures_in_turn :
    ∃ s, (racing (.new 1 4) [6, 0]).Reachable s ∧ AllReturned s ∧
      s.shared.semaphore.available = s.shared.currentSize := by
  obtain ⟨⟨s, leak⟩, h, hended⟩ :=
    (.init ⟨rfl, rfl⟩ : ((racing (.new 1 4) [6, 0]).withHistory 0 addLeak).ReachableVia
      (fun q i => steady q.1 i = true) (calls (.new 1 4) [6, 0], 0)).exists_of_runIf
      (fun q => AllEnded q.1) [0, 0, 0, 1, 1, 1] (by decide +kernel)
  have hlaw := racing_reconfigures (.new 1 4) [6, 0]
  obtain ⟨hleak, hreturned⟩ := hlaw.2.2 s leak h
  refine ⟨s, h.reachable.of_withHistory, hreturned hended, ?_⟩
  rw [(hlaw.2.1 s leak h.reachable).2 (hreturned hended), hleak]
  rfl

/-- Two calls load the counter, both grow the pool by three permits, and the exchange of the second one
fails: seven permits are free where the counter says four. -/
theorem racing_reconfigures_leaks :
    ∃ s, (racing (.new 1 4) [6, 6]).Reachable s ∧ AllReturned s ∧
      s.shared.semaphore.available = 7 ∧ s.shared.currentSize = 4 := by
  obtain ⟨s, h, hlocals, hsize⟩ := (racing_init (.new 1 4) [6, 6]).exists_of_run
    (fun s => s.locals = [⟨6, .returned 4⟩, ⟨6, .returned 4⟩] ∧
      s.shared.semaphore.available = 7 ∧ s.shared.currentSize = 4)
    [0, 1, 0, 1, 0, 1] (by decide +kernel)
  refine ⟨s, h, fun c hc => ?_, hsize⟩
  rw [hlocals] at hc
  simp only [List.mem_cons, List.not_mem_nil, or_false, or_self] at hc
  exact ⟨4, by rw [hc]⟩

end InferenceGateway.Gateway
