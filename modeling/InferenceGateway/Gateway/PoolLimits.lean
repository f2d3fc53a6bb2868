import InferenceGateway.Common.Usize
import InferenceGateway.Gateway.Custody
import InferenceGateway.Gateway.PoolInvariants

/-! # The pool's arithmetic on machine integers

Reference: `worker_pool.rs` on a 64-bit platform; `Config::from_env`, `parse_env_usize` and the first lines of
`main` in `main.rs`.

What startup accepts keeps every number of the pool's own arithmetic far from the limits of its type. The
ceiling of the semaphore is another matter: `Semaphore::new` checks the minimum against it and nothing checks
the maximum, and permits that a shrink could not forget come on top of what the pool grows by. So
`add_permits` panics in some runs. What decides is what the configuration and the queue ask for, what the
earlier shrinks of the run have left behind, and how many workers are running: the permits in existence are
the size of the pool and what was left behind (`LogInv.permits`).
-/

namespace InferenceGateway.Gateway

open Common

/-! ## The pool on machine integers -/

/-- `AdaptiveWorkerPool`, with the permits available in its semaphore. -/
structure UsizePool where
  minWorkers : UInt64
  maxWorkers : UInt64
  current : UInt64
  available : ℕ
deriving DecidableEq

/-- `Semaphore::new`. -/
def semaphoreNew (permits : UInt64) : Except Panic ℕ :=
  if MAX_PERMITS < permits.toNat then .error .assertion else .ok permits.toNat

/-- `Semaphore::add_permits`. -/
def addPermits (available : ℕ) (n : UInt64) : Except Panic ℕ :=
  if MAX_PERMITS < available + n.toNat then .error .assertion else .ok (available + n.toNat)

/-- `Semaphore::forget_permits`. -/
def forgetPermits (available : ℕ) (n : UInt64) : ℕ := available - min n.toNat available

namespace UsizePool

/-- `AdaptiveWorkerPool::new`. -/
def new (minWorkers maxWorkers : UInt64) : Except Panic UsizePool := do
  let maxWorkers := max maxWorkers 1
  let minWorkers := max (min minWorkers maxWorkers) 1
  let available ← semaphoreNew minWorkers
  return { minWorkers, maxWorkers, current := minWorkers, available }

/-- `plan`. -/
def plan (p : UsizePool) (queueLen : UInt64) : Except Panic UInt64 := do
  let base := p.minWorkers
  let extra := queueLen / 2
  usizeClamp (← usizeAdd base extra) p.minWorkers p.maxWorkers

/-- The permits after one round of the loop in `reconfigure`. -/
def adjustPermits (available : ℕ) (desired current : UInt64) : Except Panic ℕ := do
  let delta ← isizeSub desired.toInt64 current.toInt64
  if 0 < delta then addPermits available delta.toUInt64
  else return forgetPermits available (← isizeNeg delta).toUInt64

/-- `reconfigure`, called by the dispatcher alone. -/
def reconfigure (p : UsizePool) (queueLen : UInt64) : Except Panic (UsizePool × UInt64) := do
  let desired ← p.plan queueLen
  if desired = p.current then return (p, desired)
  else
    let available ← adjustPermits p.available desired p.current
    return ({ p with available, current := desired }, desired)

end UsizePool

/-- A pool on machine integers. -/
def AdaptiveWorkerPool.onMachine (p : AdaptiveWorkerPool) : UsizePool where
  minWorkers := .ofNat p.bounds.minWorkers
  maxWorkers := .ofNat p.bounds.maxWorkers
  current := .ofNat p.current
  available := p.semaphore.available

/-- The call of `reconfigure` computes what it computes on unbounded integers: the addition does not
overflow, the casts to `isize` are exact, the new size is within the bounds, and nothing panics. -/
structure ReconfiguresSafely (p : AdaptiveWorkerPool) (queueLen : ℕ) : Prop where
  add : p.bounds.minWorkers + queueLen / 2 < 2 ^ 64
  desired : (UInt64.ofNat (p.plan queueLen)).toInt64.toInt = p.plan queueLen
  current : (UInt64.ofNat p.current).toInt64.toInt = p.current
  min_le : p.bounds.minWorkers ≤ (p.reconfigure queueLen).1.current
  le_max : (p.reconfigure queueLen).1.current ≤ p.bounds.maxWorkers
  returns : p.onMachine.reconfigure (.ofNat queueLen) =
    .ok ((p.reconfigure queueLen).1.onMachine, .ofNat (p.reconfigure queueLen).2)

/-! ## Startup -/

/-- `parse_env_usize`. -/
def parseEnvUsize (env : String → Option String) (name : String) (default : UInt64) : UInt64 :=
  match env name with
  | some value =>
    match parseUsize (trimWhiteSpace value.toList) with
    | some parsed => if 0 < parsed then parsed else default
    | none => default
  | none => default

/-- The environment configures the gateway so, and neither the channel nor the pool that `main` makes
panics. -/
structure Config.Starts (cfg : Config) (env : String → Option String) : Prop where
  maxConcurrency : cfg.maxConcurrency = (parseEnvUsize env "MAX_CONCURRENCY" 4).toNat
  minWorkers : cfg.minWorkers = (parseEnvUsize env "MIN_CONCURRENCY" 1).toNat
  queueCapacity : cfg.queueCapacity = (parseEnvUsize env "QUEUE_CAPACITY" 100).toNat
  channel : cfg.queueCapacity ≤ MAX_PERMITS
  pool : ∃ p, UsizePool.new (.ofNat cfg.minWorkers) (.ofNat cfg.maxConcurrency) = .ok p

/-! ## One call -/

/-- A call that grows the pool adds permits up to the ceiling of the semaphore at most. -/
def GrowthFits (p : AdaptiveWorkerPool) (queueLen : ℕ) : Prop :=
  p.plan queueLen ≤ p.current ∨ p.semaphore.available + (p.plan queueLen - p.current) ≤ MAX_PERMITS

instance (p : AdaptiveWorkerPool) (queueLen : ℕ) : Decidable (GrowthFits p queueLen) :=
  inferInstanceAs (Decidable (_ ∨ _))

/-- Growing checks the ceiling, shrinking does not. -/
theorem adjustPermits_onMachine {desired current : ℕ} (hdesired : desired < 2 ^ 63)
    (hcurrent : current < 2 ^ 63) (available : ℕ) :
    UsizePool.adjustPermits available (.ofNat desired) (.ofNat current) =
      if desired ≤ current ∨ available + (desired - current) ≤ MAX_PERMITS then
        .ok (available + (desired - current) - (current - desired))
      else .error .assertion := by
  obtain ⟨delta, hsub, hdelta⟩ := isizeSub_ofNat hdesired hcurrent
  have hpos : 0 < delta ↔ current < desired := by
    rw [Int64.lt_iff_toInt_lt, hdelta]
    show (0 : ℤ) < _ ↔ _
    omega
  rw [UsizePool.adjustPermits, hsub]
  show (if 0 < delta then _ else _) = _
  by_cases hgrow : current < desired
  · have hcast : delta.toUInt64.toNat = desired - current := by
      have := toNat_toUInt64 (x := delta) (by omega)
      omega
    rw [if_pos (hpos.mpr hgrow), addPermits, hcast]
    by_cases hfits : available + (desired - current) ≤ MAX_PERMITS
    · rw [if_neg (not_lt.mpr hfits), if_pos (.inr hfits)]
      congr 1
      omega
    · rw [if_pos (not_le.mp hfits), if_neg (by omega)]
  · obtain ⟨n, hneg, hn⟩ := isizeNeg_of_neg (x := delta) (by omega) (by omega)
    have hcast : n.toUInt64.toNat = current - desired := by
      have := toNat_toUInt64 (x := n) (by omega)
      omega
    rw [if_neg (hpos.not.mpr hgrow), hneg, if_pos (.inl (not_lt.mp hgrow))]
    show Except.ok (forgetPermits available n.toUInt64) = _
    rw [forgetPermits, hcast]
    congr 1
    omega

/-- The numbers of a call are far from the limits. -/
structure InLimits (p : AdaptiveWorkerPool) (queueLen : ℕ) : Prop where
  max : p.bounds.maxWorkers < 2 ^ 64
  queue : queueLen < 2 ^ 64
  size : p.bounds.minWorkers + queueLen / 2 < 2 ^ 63
  current : p.current < 2 ^ 63

section

variable {p : AdaptiveWorkerPool} {queueLen : ℕ} (h : InLimits p queueLen)
include h

theorem InLimits.plan_lt : p.plan queueLen < 2 ^ 63 := by
  have hsize := h.size
  rw [AdaptiveWorkerPool.plan_eq]
  omega

theorem plan_onMachine : p.onMachine.plan (.ofNat queueLen) = .ok (.ofNat (p.plan queueLen)) := by
  have hmin : p.bounds.minWorkers < 2 ^ 64 := p.bounds.min_le_max.trans_lt h.max
  have hsize : p.bounds.minWorkers + queueLen / 2 < 2 ^ 64 := h.size.trans (by decide)
  have hextra : UInt64.ofNat queueLen / 2 = .ofNat (queueLen / 2) :=
    (UInt64.ofNat_div h.queue (by decide)).symm
  have hclamp : ¬UInt64.ofNat p.bounds.maxWorkers < .ofNat p.bounds.minWorkers := by
    rw [ofNat_lt_ofNat_iff h.max hmin]
    exact not_lt.mpr p.bounds.min_le_max
  rw [UsizePool.plan, AdaptiveWorkerPool.onMachine]
  dsimp only
  rw [hextra, usizeAdd_ofNat hsize]
  show usizeClamp _ _ _ = _
  rw [usizeClamp, if_neg hclamp, AdaptiveWorkerPool.plan, clamp]
  simp only [ofNat_lt_ofNat_iff hsize hmin, ofNat_lt_ofNat_iff h.max hsize]
  split
  · rfl
  · split <;> rfl

/-- A call computes what it computes on unbounded integers, or runs into the ceiling. -/
theorem reconfigure_onMachine :
    p.onMachine.reconfigure (.ofNat queueLen) =
      if GrowthFits p queueLen then
        .ok ((p.reconfigure queueLen).1.onMachine, .ofNat (p.reconfigure queueLen).2)
      else .error .assertion := by
  have hplan := h.plan_lt
  have hcurrent := h.current
  have heq : UInt64.ofNat (p.plan queueLen) = p.onMachine.current ↔ p.plan queueLen = p.current :=
    ofNat_eq_ofNat_iff (by omega) (by omega)
  have hmachine : (p.reconfigure queueLen).1.onMachine =
      { p.onMachine with
        available := p.semaphore.available + (p.plan queueLen - p.current) - (p.current - p.plan queueLen)
        current := .ofNat (p.plan queueLen) } := by
    rw [AdaptiveWorkerPool.onMachine, AdaptiveWorkerPool.onMachine,
      AdaptiveWorkerPool.reconfigure_bounds, AdaptiveWorkerPool.reconfigure_current,
      AdaptiveWorkerPool.reconfigure_available]
  rw [UsizePool.reconfigure, plan_onMachine h, AdaptiveWorkerPool.reconfigure_snd]
  show (if UInt64.ofNat (p.plan queueLen) = p.onMachine.current then _ else _) = _
  by_cases hsame : p.plan queueLen = p.current
  · rw [if_pos (heq.mpr hsame), if_pos (show GrowthFits p queueLen from .inl hsame.le),
      AdaptiveWorkerPool.reconfigure, if_pos hsame]
    rfl
  · rw [if_neg (heq.not.mpr hsame)]
    show (UsizePool.adjustPermits p.semaphore.available (.ofNat (p.plan queueLen))
      (.ofNat p.current) >>= _) = _
    rw [adjustPermits_onMachine hplan hcurrent, hmachine]
    by_cases hfits : GrowthFits p queueLen
    · rw [if_pos hfits, if_pos (show _ ∨ _ from hfits)]
      rfl
    · rw [if_neg hfits, if_neg (show ¬(_ ∨ _) from hfits)]
      rfl

/-- The ceiling is all that can go wrong. -/
theorem reconfiguresSafely_iff : ReconfiguresSafely p queueLen ↔ GrowthFits p queueLen := by
  constructor
  · intro hsafe
    by_contra hfits
    have hreturns := hsafe.returns
    rw [reconfigure_onMachine h, if_neg hfits] at hreturns
    cases hreturns
  · intro hfits
    exact
      { add := h.size.trans (by decide)
        desired := toInt_toInt64_ofNat h.plan_lt
        current := toInt_toInt64_ofNat h.current
        min_le := by
          rw [AdaptiveWorkerPool.reconfigure_current]
          exact p.min_le_plan _
        le_max := by
          rw [AdaptiveWorkerPool.reconfigure_current]
          exact p.plan_le_max _
        returns := by rw [reconfigure_onMachine h, if_pos hfits] }

end

/-! ### The pool that startup makes -/

theorem new_onMachine {minWorkers maxWorkers : ℕ} (hmin : minWorkers < 2 ^ 64)
    (hmax : maxWorkers < 2 ^ 64) :
    UsizePool.new (.ofNat minWorkers) (.ofNat maxWorkers) =
      if (PoolBounds.new minWorkers maxWorkers).minWorkers ≤ MAX_PERMITS then
        .ok (AdaptiveWorkerPool.new minWorkers maxWorkers).onMachine
      else .error .assertion := by
  have hone : (1 : UInt64) = .ofNat 1 := rfl
  have hbound : max maxWorkers 1 < 2 ^ 64 := by omega
  have hclamped : max (min minWorkers (max maxWorkers 1)) 1 < 2 ^ 64 := by omega
  have hbounds : (PoolBounds.new minWorkers maxWorkers).minWorkers =
      max (min minWorkers (max maxWorkers 1)) 1 := rfl
  rw [UsizePool.new, hone, max_ofNat hmax (by decide), min_ofNat hmin hbound,
    max_ofNat (by omega) (by decide), semaphoreNew, toNat_ofNat_of_lt hclamped, hbounds]
  by_cases hle : max (min minWorkers (max maxWorkers 1)) 1 ≤ MAX_PERMITS
  · rw [if_neg (not_lt.mpr hle), if_pos hle]
    rfl
  · rw [if_pos (not_le.mp hle), if_neg hle]
    rfl

theorem Config.Starts.min_le_ceiling {cfg : Config} {env : String → Option String}
    (hstart : cfg.Starts env) :
    (PoolBounds.new cfg.minWorkers cfg.maxConcurrency).minWorkers ≤ MAX_PERMITS := by
  obtain ⟨p, hp⟩ := hstart.pool
  have hmin : cfg.minWorkers < 2 ^ 64 := hstart.minWorkers ▸ UInt64.toNat_lt _
  have hmax : cfg.maxConcurrency < 2 ^ 64 := hstart.maxConcurrency ▸ UInt64.toNat_lt _
  by_contra hle
  rw [new_onMachine hmin hmax, if_neg hle] at hp
  cases hp

/-! ## Every call of a run -/

/-- A call of `reconfigure`, with the pool, the length of the queue and the running workers that it finds. -/
structure PoolCall where
  pool : AdaptiveWorkerPool
  queueLen : ℕ
  running : ℕ

/-- The calls of `reconfigure` in the order in which they are made. -/
def poolCalls (s : State) (a : Action) (calls : List PoolCall) : List PoolCall :=
  match a, s.dispatcher with
  | .dispatcher, .resizing _ => calls ++ [⟨s.pool, s.queue.length, s.running⟩]
  | _, _ => calls

/-- The gateway with the calls of `reconfigure` so far. -/
def loggedGateway (cfg : Config) : System (State × List PoolCall) Action :=
  (gateway cfg).withHistory [] poolCalls

/-- The size that the pool is to have with so many jobs in the queue. -/
def plannedSize (cfg : Config) (queueLen : ℕ) : ℕ :=
  let bounds := PoolBounds.new cfg.minWorkers cfg.maxConcurrency
  min bounds.maxWorkers (bounds.minWorkers + queueLen / 2)

/-- The permits that a call is to forget and cannot, because workers hold them. -/
def PoolCall.shortfall (cfg : Config) (call : PoolCall) : ℕ :=
  call.pool.current - plannedSize cfg call.queueLen - call.pool.semaphore.available

/-- What all the calls of a run have left behind. -/
def shortfalls (cfg : Config) (calls : List PoolCall) : ℕ := (calls.map (PoolCall.shortfall cfg)).sum

/-- The condition on a call: if it is to grow the pool, the new size and what the earlier calls have left
behind are above the ceiling by no more permits than workers hold. -/
def BelowCeiling (cfg : Config) (earlier : List PoolCall) (call : PoolCall) : Prop :=
  plannedSize cfg call.queueLen ≤ call.pool.current ∨
    plannedSize cfg call.queueLen + shortfalls cfg earlier ≤ MAX_PERMITS + call.running

variable {cfg : Config} {s t : State} {a : Action}

/-- The pool's counter is bounded by what the queue can ask for. -/
structure SizeInv (cfg : Config) (s : State) : Prop where
  pool : PoolInv cfg s
  custody : CustodyInv cfg s
  size : s.pool.current ≤ s.pool.bounds.minWorkers + cfg.queueCapacity / 2

theorem SizeInv.init (cfg : Config) : SizeInv cfg (initState cfg) :=
  ⟨.init cfg, .init cfg, Nat.le_add_right _ _⟩

theorem SizeInv.step (hi : SizeInv cfg s) (h : Step cfg s a t) : SizeInv cfg t := by
  refine ⟨hi.pool.step h, hi.custody.step h, ?_⟩
  have hsize := hi.size
  cases h.poolEffect with
  | none hp | acquire _ hp | release hp =>
    rw [hp]
    exact hsize
  | resize _ _ hp =>
    have hcapacity := hi.custody.capacity
    rw [hp, AdaptiveWorkerPool.reconfigure_current, AdaptiveWorkerPool.reconfigure_bounds,
      AdaptiveWorkerPool.plan_eq]
    omega

theorem poolCalls_of_resizing {job : Job} (hd : s.dispatcher = .resizing job) (calls : List PoolCall) :
    poolCalls s .dispatcher calls = calls ++ [⟨s.pool, s.queue.length, s.running⟩] := by
  unfold poolCalls
  rw [hd]

theorem poolCalls_of_not_resizing (h : ¬(a = .dispatcher ∧ ∃ job, s.dispatcher = .resizing job))
    (calls : List PoolCall) : poolCalls s a calls = calls := by
  unfold poolCalls
  split
  · exact absurd ⟨rfl, _, ‹_›⟩ h
  · rfl

theorem Step.pool_of_resizing (h : Step cfg s .dispatcher t) {job : Job} (hd : s.dispatcher = .resizing job) :
    t.pool = (s.pool.reconfigure s.queue.length).1 := by
  have hstep := h.step_eq
  simp only [Gateway.step, dispatcherStep, hd] at hstep
  cases hstep
  rfl

/-- What a call finds behind the earlier calls of a run. -/
structure CallInv (cfg : Config) (earlier : List PoolCall) (call : PoolCall) : Prop where
  bounds : call.pool.bounds = PoolBounds.new cfg.minWorkers cfg.maxConcurrency
  floor : call.pool.bounds.minWorkers ≤ call.pool.current
  size : call.pool.current ≤ call.pool.bounds.minWorkers + cfg.queueCapacity / 2
  queue : call.queueLen ≤ cfg.queueCapacity
  held : call.pool.semaphore.outstanding = call.running
  permits : call.pool.semaphore.total = call.pool.current + shortfalls cfg earlier

/-- The permits in existence are the size of the pool and what was left behind. -/
structure LogInv (cfg : Config) (s : State × List PoolCall) : Prop where
  size : SizeInv cfg s.1
  permits : s.1.pool.semaphore.total = s.1.pool.current + shortfalls cfg s.2
  calls : ∀ earlier call later, s.2 = earlier ++ call :: later → CallInv cfg earlier call

theorem LogInv.init (cfg : Config) : LogInv cfg (initState cfg, []) where
  size := .init cfg
  permits := rfl
  calls earlier call later h := by
    cases earlier <;> cases h

theorem AdaptiveWorkerPool.plan_eq_plannedSize {p : AdaptiveWorkerPool} {queueLen : ℕ}
    (h : p.bounds = PoolBounds.new cfg.minWorkers cfg.maxConcurrency) :
    p.plan queueLen = plannedSize cfg queueLen := by
  rw [plan_eq, h, plannedSize]

theorem LogInv.step {s u : State × List PoolCall} (hi : LogInv cfg s)
    (h : (loggedGateway cfg).step s a = some u) : LogInv cfg u := by
  obtain ⟨t, ht, rfl⟩ := Option.map_eq_some_iff.mp h
  have hstep := step_eq_some_iff.mp ht
  have hbounds := hi.size.pool.bounds
  have hheld := hi.size.pool.held
  have hpermits := hi.permits
  unfold Semaphore.total at hpermits
  by_cases hres : a = .dispatcher ∧ ∃ job, s.1.dispatcher = .resizing job
  · obtain ⟨rfl, job, hd⟩ := hres
    have hpool := hstep.pool_of_resizing hd
    have hplan : s.1.pool.plan s.1.queue.length = plannedSize cfg s.1.queue.length :=
      AdaptiveWorkerPool.plan_eq_plannedSize hbounds
    refine ⟨hi.size.step hstep, ?_, ?_⟩
    · dsimp only
      rw [poolCalls_of_resizing hd, hpool, Semaphore.total, AdaptiveWorkerPool.reconfigure_available,
        AdaptiveWorkerPool.reconfigure_outstanding, AdaptiveWorkerPool.reconfigure_current, hplan, shortfalls,
        List.map_append, List.sum_append, List.map_singleton, List.sum_singleton, PoolCall.shortfall]
      unfold shortfalls at hpermits
      dsimp only
      omega
    · intro earlier call later hlog
      dsimp only at hlog
      rw [poolCalls_of_resizing hd] at hlog
      rcases append_singleton_eq_append_cons hlog with ⟨rfl, rfl⟩ | ⟨later', hlog⟩
      · -- The call that is being made.
        refine ⟨hbounds, hi.size.pool.min_le, hi.size.size, hi.size.custody.capacity, ?_, hi.permits⟩
        dsimp only
        rw [hheld, State.holders, hd]
        rfl
      · exact hi.calls earlier call later' hlog
  · have hcalls := poolCalls_of_not_resizing hres s.2
    refine ⟨hi.size.step hstep, ?_, ?_⟩
    · dsimp only
      rw [hcalls]
      cases hstep.poolEffect with
      | none hp => rw [hp, hi.permits]
      | resize ha hd => exact absurd ⟨ha, _, hd⟩ hres
      | acquire hs hp =>
        -- A permit changes sides, so the total stays.
        obtain ⟨havailable, houtstanding⟩ := Semaphore.acquire?_eq_some.mp hs
        rw [hp]
        dsimp only [Semaphore.total]
        omega
      | release hp hh =>
        rw [hp]
        dsimp only [Semaphore.total, Semaphore.release]
        omega
    · dsimp only
      rw [hcalls]
      exact hi.calls

/-! ### When the calls are safe -/

theorem Config.Starts.inLimits {env : String → Option String} (hstart : cfg.Starts env)
    {earlier : List PoolCall} {call : PoolCall} (h : CallInv cfg earlier call) :
    InLimits call.pool call.queueLen := by
  have hmin := hstart.min_le_ceiling
  have hmax : cfg.maxConcurrency < 2 ^ 64 := hstart.maxConcurrency ▸ UInt64.toNat_lt _
  have hqueue := h.queue.trans hstart.channel
  have hsize := h.size
  have hchannel := hstart.channel
  have hceiling : MAX_PERMITS = 2 ^ 61 - 1 := rfl
  rw [← h.bounds] at hmin
  refine ⟨?_, by omega, by omega, by omega⟩
  rw [h.bounds, PoolBounds.new]
  dsimp only
  omega

/-- A call is safe exactly if it meets the condition. -/
theorem CallInv.safe_iff {env : String → Option String} (hstart : cfg.Starts env) {earlier : List PoolCall}
    {call : PoolCall} (h : CallInv cfg earlier call) :
    ReconfiguresSafely call.pool call.queueLen ↔ BelowCeiling cfg earlier call := by
  have hpermits := h.permits
  have hheld := h.held
  unfold Semaphore.total at hpermits
  rw [reconfiguresSafely_iff (hstart.inLimits h), GrowthFits, BelowCeiling,
    AdaptiveWorkerPool.plan_eq_plannedSize h.bounds]
  omega

/-- A member of a list stands behind the members before it. -/
theorem LogInv.callInv {s : State × List PoolCall} (hi : LogInv cfg s) {call : PoolCall} (h : call ∈ s.2) :
    ∃ earlier later, s.2 = earlier ++ call :: later ∧ CallInv cfg earlier call := by
  obtain ⟨earlier, later, hlog⟩ := List.append_of_mem h
  exact ⟨earlier, later, hlog, hi.calls earlier call later hlog⟩

/-- In every run of a gateway that starts, all calls of `reconfigure` are safe exactly if each that grows the
pool is to reach a size which, together with what the earlier calls of the run could not forget, is above the
ceiling of the semaphore by no more than the number of running workers. So they are if the maximum is within
the ceiling and every shrink of the run finds its permits, and in every run of a pool of fixed size. -/
theorem reconfigures_safely_iff (env : String → Option String) (cfg : Config) (hstart : cfg.Starts env)
    {as : List Action} {t : State × List PoolCall}
    (hrun : (loggedGateway cfg).run (initState cfg, []) as = some t) :
    ((∀ call ∈ t.2, ReconfiguresSafely call.pool call.queueLen) ↔
      ∀ earlier call later, t.2 = earlier ++ call :: later → BelowCeiling cfg earlier call) ∧
    ((PoolBounds.new cfg.minWorkers cfg.maxConcurrency).maxWorkers ≤ MAX_PERMITS →
      (∀ call ∈ t.2, call.shortfall cfg = 0) →
        ∀ call ∈ t.2, ReconfiguresSafely call.pool call.queueLen) ∧
    ((PoolBounds.new cfg.minWorkers cfg.maxConcurrency).minWorkers =
        (PoolBounds.new cfg.minWorkers cfg.maxConcurrency).maxWorkers →
      ∀ call ∈ t.2, ReconfiguresSafely call.pool call.queueLen) := by
  have hi : LogInv cfg t := System.run_preserves (fun _ _ _ hi hs => hi.step hs) (.init cfg) hrun
  refine ⟨⟨fun hsafe earlier call later hlog => ?_, fun hbelow call hcall => ?_⟩,
    fun hmax hfinds call hcall => ?_, fun hfixed call hcall => ?_⟩
  · have hcall : call ∈ t.2 := hlog ▸ List.mem_append_right _ (List.mem_cons_self ..)
    exact ((hi.calls earlier call later hlog).safe_iff hstart).mp (hsafe call hcall)
  · obtain ⟨earlier, later, hlog, hinv⟩ := hi.callInv hcall
    exact (hinv.safe_iff hstart).mpr (hbelow earlier call later hlog)
  · obtain ⟨earlier, later, hlog, hinv⟩ := hi.callInv hcall
    have hnone : shortfalls cfg earlier = 0 := by
      refine List.sum_eq_zero fun n hn => ?_
      obtain ⟨call', hcall', rfl⟩ := List.mem_map.mp hn
      exact hfinds call' (hlog ▸ List.mem_append_left _ hcall')
    have hsize : plannedSize cfg call.queueLen ≤ _ := min_le_left _ _
    exact (hinv.safe_iff hstart).mpr (.inr (by omega))
  · obtain ⟨earlier, later, hlog, hinv⟩ := hi.callInv hcall
    have hsize : plannedSize cfg call.queueLen ≤ _ := min_le_left _ _
    have hcurrent := hinv.floor
    rw [hinv.bounds] at hcurrent
    exact (hinv.safe_iff hstart).mpr (.inl (by omega))

/-! ### Concrete runs -/

/-- A gateway with a queue of a hundred places, which is the default. -/
def defaultQueue (minWorkers maxConcurrency : ℕ) : Config :=
  { scenarioConfig minWorkers maxConcurrency .infer silentDecoder with queueCapacity := 100 }

/-- The default configuration, and four jobs of which the first grows the pool from one worker to two. -/
theorem reconfigures_safely_default :
    ∃ t, (loggedGateway (defaultQueue 1 4)).run (initState (defaultQueue 1 4), [])
        (submit 0 httpCall ++ submit 1 httpCall ++ submit 2 httpCall ++ submit 3 httpCall ++ dispatch 7) =
          some t ∧
      t.2.map (fun call => (call.pool.current, call.queueLen, (call.pool.reconfigure call.queueLen).2)) =
        [(1, 3, 2)] ∧
      ∀ call ∈ t.2, ReconfiguresSafely call.pool call.queueLen := by
  have hstart : (defaultQueue 1 4).Starts fun _ => none :=
    ⟨rfl, rfl, rfl, by decide +kernel, _, new_onMachine (by decide) (by decide)⟩
  have hrun : ((loggedGateway (defaultQueue 1 4)).run (initState (defaultQueue 1 4), [])
      (submit 0 httpCall ++ submit 1 httpCall ++ submit 2 httpCall ++ submit 3 httpCall ++ dispatch 7)).map
      (fun t => (t.2.map fun call =>
        (call.pool.current, call.queueLen, (call.pool.reconfigure call.queueLen).2),
        t.2.map fun call => call.shortfall (defaultQueue 1 4))) = some ([(1, 3, 2)], [0]) := by
    decide +kernel
  obtain ⟨t, ht, hlog⟩ := Option.map_eq_some_iff.mp hrun
  obtain ⟨hcalls, hshortfalls⟩ := Prod.mk.inj hlog
  refine ⟨t, ht, hcalls, (reconfigures_safely_iff _ _ hstart ht).2.1 (by decide) fun call hcall => ?_⟩
  have hmem : call.shortfall (defaultQueue 1 4) ∈ [0] := hshortfalls ▸ List.mem_map_of_mem hcall
  exact List.mem_singleton.mp hmem

/-- As many workers at least as a semaphore can hold, and one more at most. -/
def ceilingEnv (name : String) : Option String :=
  if name = "MIN_CONCURRENCY" then some "2305843009213693951"
  else if name = "MAX_CONCURRENCY" then some " +2305843009213693952 "
  else none

/-- The gateway starts. Of three jobs the first finds two behind it, and the pool tries to grow. -/
theorem growth_panics_at_ceiling :
    (defaultQueue (2 ^ 61 - 1) (2 ^ 61)).Starts ceilingEnv ∧
    ∃ t, (loggedGateway (defaultQueue (2 ^ 61 - 1) (2 ^ 61))).run
        (initState (defaultQueue (2 ^ 61 - 1) (2 ^ 61)), [])
        (submit 0 httpCall ++ submit 1 httpCall ++ submit 2 httpCall ++ dispatch 2) = some t ∧
      t.2.map (fun call => call.pool.onMachine.reconfigure (.ofNat call.queueLen)) = [.error .assertion] ∧
      ¬∀ call ∈ t.2, ReconfiguresSafely call.pool call.queueLen := by
  refine ⟨⟨by decide +kernel, by decide +kernel, by decide +kernel, by decide +kernel, _,
    new_onMachine (by decide) (by decide)⟩, ?_⟩
  have hrun : ((loggedGateway (defaultQueue (2 ^ 61 - 1) (2 ^ 61))).run
      (initState (defaultQueue (2 ^ 61 - 1) (2 ^ 61)), [])
      (submit 0 httpCall ++ submit 1 httpCall ++ submit 2 httpCall ++ dispatch 2)).map
      (fun t => t.2.map fun call => call.pool.onMachine.reconfigure (.ofNat call.queueLen)) =
        some [.error .assertion] := by
    decide +kernel
  obtain ⟨t, ht, hcalls⟩ := Option.map_eq_some_iff.mp hrun
  refine ⟨t, ht, hcalls, fun hsafe => ?_⟩
  obtain ⟨call, hcall, hpanic⟩ : ∃ call ∈ t.2,
      call.pool.onMachine.reconfigure (.ofNat call.queueLen) = .error .assertion :=
    List.mem_map.mp (hcalls ▸ List.mem_singleton.mpr rfl)
  rw [(hsafe call hcall).returns] at hpanic
  cases hpanic

end InferenceGateway.Gateway
