import InferenceGateway.Common.Progress
import InferenceGateway.Gateway.Answers
import InferenceGateway.Gateway.Backlog
import InferenceGateway.Gateway.Custody

/-! # The gateway comes to rest

A request causes a bounded number of steps: twelve of its handler, seven of the dispatcher and four of its
worker. Every step takes one of them away, so without arrivals the gateway cannot run for ever. Nor can it
get stuck: a handler always has its timer, a worker its call, and the dispatcher only ever waits for a
permit behind workers that run. So it drains. While the core does not answer, the handlers still do.
-/

namespace InferenceGateway.Gateway

open Common

variable {cfg : Config} {s t : State} {a : Action}

/-! ## Work -/

/-- The steps that a handler takes at most. -/
def Handler.remaining (h : Handler) : ℕ :=
  match h.phase with
  | .validating => 12
  | .enqueueing _ => 11
  | .beginning _ pending => pending.length + 8
  | .waiting _ => 7
  | .finishing pending _ => pending.length + 1
  | .done _ => 0
  | .dropped => 0

/-- The steps that the dispatcher and a worker take for a job in the queue. -/
def jobWork : ℕ := 11

/-- The steps of a handler and of the job that it may still send. -/
def Handler.work (h : Handler) : ℕ := h.remaining + if h.pastSend then 0 else jobWork

/-- The steps that a worker takes at most. -/
def Worker.work (w : Worker) : ℕ :=
  match w.phase with
  | .spawned => 4
  | .calling => 3
  | .returned _ => 2
  | .delivered _ => 1
  | .panicked => 1
  | .finished _ => 0

/-- The steps that the dispatcher and a worker take for the job in hand. -/
def DispatcherPhase.work : DispatcherPhase → ℕ
  | .receiving => 0
  | .resizing _ => 10
  | .publishing _ pending => pending.length + 7
  | .acquiring _ => 6
  | .spawning _ => 5

/-- The steps that are left without arrivals. -/
def State.work (s : State) : ℕ :=
  (s.handlers.map Handler.work).sum + jobWork * s.queue.length + s.dispatcher.work
    + (s.workers.map Worker.work).sum

/-- A step that nothing outside the gateway starts. -/
def Action.isInternal : Action → Bool
  | .arrive _ => false
  | .syncRegistry _ _ => false
  | _ => true

/-- What comes in with a step: the steps of a new request, and the step itself if it is not internal. -/
def Action.gain : Action → ℕ
  | .arrive _ => 24
  | .syncRegistry _ _ => 1
  | _ => 0

/-- A handler that has work is replaced by one with less of it. -/
private theorem sum_work_set_lt {i : ℕ} {h h' : Handler} (hi : s.handlers[i]? = some h)
    (hlt : h'.work < h.work) :
    ((s.handlers.set i h').map Handler.work).sum < (s.handlers.map Handler.work).sum := by
  have := natSum_map_set hi h' Handler.work
  omega

/-- Channels are no work. -/
private theorem sum_work_onChannel (s : State) (i : ℕ) (f : Oneshot → Oneshot) :
    ((s.onChannel i f).handlers.map Handler.work).sum = (s.handlers.map Handler.work).sum :=
  congrArg List.sum (map_modify_of_eq _ _ fun _ => rfl)

private theorem sum_work_setWorker {j : ℕ} {w w' : Worker} (hj : s.workers[j]? = some w)
    (hlt : w'.work < w.work) :
    ((s.workers.set j w').map Worker.work).sum < (s.workers.map Worker.work).sum := by
  have := natSum_map_set hj w' Worker.work
  omega

/-- A step of a handler that stays where the rest of the gateway does not look. -/
private theorem work_lt_of_handler {i : ℕ} {h h' : Handler} (hi : s.handlers[i]? = some h)
    (hh : t.handlers = s.handlers.set i h') (hq : t.queue = s.queue) (hd : t.dispatcher = s.dispatcher)
    (hw : t.workers = s.workers) (hlt : h'.work < h.work) : t.work < s.work := by
  have := sum_work_set_lt hi hlt
  rw [State.work, State.work, hh, hq, hd, hw]
  omega

/-- A step of a worker, which may change a channel besides. -/
private theorem work_lt_of_worker {j : ℕ} {w w' : Worker} (hj : s.workers[j]? = some w)
    (hh : (t.handlers.map Handler.work).sum = (s.handlers.map Handler.work).sum)
    (hq : t.queue = s.queue) (hd : t.dispatcher = s.dispatcher) (hw : t.workers = s.workers.set j w')
    (hlt : w'.work < w.work) : t.work < s.work := by
  have := sum_work_setWorker hj hlt
  rw [State.work, State.work, hh, hq, hd, hw]
  omega

/-- Every internal step takes work away. -/
theorem Step.work_lt (h : Step cfg s a t) (ha : a.isInternal = true) : t.work < s.work := by
  cases h with
  | arrive | syncRegistry => cases ha
  | validateKnown _ hi hp | validateUnknown _ hi hp | reject hi hp | recordBegin hi hp | wait hi hp
  | recordFinish hi hp | answer hi hp | elapse hi hp | drop hi hp =>
    refine work_lt_of_handler hi rfl rfl rfl rfl ?_
    simp [Handler.work, Handler.remaining, Handler.pastSend, hp, jobWork, Handler.resume,
      Metrics.noteValidationError, Metrics.noteQueueFull, Metrics.finishRequest]
  | poll _ hi hp =>
    refine work_lt_of_handler hi rfl rfl rfl rfl ?_
    simp [Handler.work, Handler.remaining, Handler.pastSend, hp, Handler.resume, Metrics.finishRequest]
  | @accept i h id hi hp =>
    -- The work of the job moves from the handler to the queue.
    have hset := natSum_map_set hi { h with phase := .beginning id Metrics.beginRequest } Handler.work
    have hbefore : h.work = 22 := by simp [Handler.work, Handler.remaining, Handler.pastSend, hp, jobWork]
    have hafter : Handler.work { h with phase := .beginning id Metrics.beginRequest } = 10 := rfl
    simp only [State.work, State.setHandler, List.length_append, List.length_singleton, jobWork]
    omega
  | recv hd hq =>
    simp only [State.work, hd, hq, DispatcherPhase.work, List.length_cons, jobWork]
    omega
  | resize hd | publish hd | published hd | acquire hd =>
    simp only [State.work, hd, DispatcherPhase.work, Metrics.setPoolWorkers, List.length_cons,
      List.length_nil]
    omega
  | spawn hd =>
    simp only [State.work, hd, DispatcherPhase.work, List.map_append, List.map_singleton,
      List.sum_append, List.sum_singleton, Worker.work]
    omega
  | start hj hp | coreReturns _ hj hp | release hj hp | releasePanicked hj hp =>
    exact work_lt_of_worker hj rfl rfl rfl rfl (by simp [Worker.work, hp])
  | deliver hj hp =>
    exact work_lt_of_worker hj (sum_work_onChannel _ _ _) rfl rfl rfl (by simp [Worker.work, hp])
  | panic hj hp =>
    refine work_lt_of_worker hj (sum_work_onChannel _ _ _) rfl rfl rfl ?_
    rcases hp with hp | hp | ⟨result, hp⟩ <;> simp [Worker.work, hp]

/-- A request brings in the work of a new handler. -/
theorem Step.work_le_gain (h : Step cfg s a t) : t.work + 1 ≤ s.work + a.gain := by
  cases ha : a.isInternal with
  | true =>
    have := h.work_lt ha
    omega
  | false =>
    cases h with
    | arrive call =>
      simp only [State.work, List.map_append, List.map_singleton, List.sum_append, List.sum_singleton,
        Handler.work, Handler.remaining, Handler.pastSend, jobWork, Action.gain]
      simp only [Bool.false_eq_true, if_false]
      omega
    | syncRegistry => exact le_rfl
    | _ => cases ha

/-! ## Something is always left to do -/

/-- The gateway has nothing left to do: every handler has ended, every accepted job went to a worker, every
worker is gone and has returned its permit, and the pool is back at its minimum. -/
structure Drained (cfg : Config) (s : State) : Prop where
  handlers : ∀ h ∈ s.handlers, h.ended = true
  queue : s.queue = []
  dispatcher : s.dispatcher = .receiving
  startOrder : s.startOrder = s.accepted
  running : s.running = 0
  outstanding : s.pool.semaphore.outstanding = 0
  current : s.pool.current = (PoolBounds.new cfg.minWorkers cfg.maxConcurrency).minWorkers

/-- Once the parties are at rest, the rest follows. -/
theorem drained_of_rest (hs : (gateway cfg).Reachable s) (hhandlers : ∀ h ∈ s.handlers, h.ended = true)
    (hrunning : s.running = 0) (hrest : s.dispatcher = .receiving ∧ s.queue = []) : Drained cfg s := by
  obtain ⟨hd, hq⟩ := hrest
  have hinv := poolInv_of_reachable hs
  have horder := (custodyInv_of_reachable hs).order
  have hcurrent := current_le_plan hs
  have htaken : s.dispatcher.taken = 0 := by rw [hd]; rfl
  rw [hq, htaken, List.length_nil, AdaptiveWorkerPool.plan_zero] at hcurrent
  refine ⟨hhandlers, hq, hd, ?_, hrunning, ?_, ?_⟩
  · rw [← horder, State.jobs, hd, hq, State.startOrder]
    simp [DispatcherPhase.job]
  · rw [hinv.held, State.holders, hrunning, hd]
    rfl
  · rw [← hinv.bounds]
    exact le_antisymm hcurrent hinv.min_le

/-- Handler `i` has answered or was dropped, if it has come at all. -/
def State.Ended (s : State) (i : ℕ) : Prop := ∀ h, s.handlers[i]? = some h → h.ended = true

/-- The request and the sync that an action is, if it is one. -/
def Action.isArrival : Action → Bool
  | .arrive _ => true
  | _ => false

def Action.isSync : Action → Bool
  | .syncRegistry _ _ => true
  | _ => false

theorem sum_gain (as : List Action) :
    (as.map Action.gain).sum = 24 * as.countP Action.isArrival + as.countP Action.isSync := by
  induction as with
  | nil => rfl
  | cons a as ih =>
    rw [List.map_cons, List.sum_cons, ih, List.countP_cons, List.countP_cons]
    cases a <;> simp only [Action.gain, Action.isArrival, Action.isSync] <;> grind

/-- A request causes at most twenty-three steps besides its arrival, of all parties together. -/
theorem steps_per_request_le (cfg : Config) {as : List Action}
    (hrun : (gateway cfg).run (initState cfg) as = some t) :
    t.work + as.length ≤ 24 * as.countP Action.isArrival + as.countP Action.isSync := by
  have hpaid := System.potential_method (m := State.work) (fun _ => 1) Action.gain
    (fun _ _ _ ht => (step_eq_some_iff.mp ht).work_le_gain) hrun
  have hcost : (as.map fun _ => 1).sum = as.length := by simp
  have hzero : (initState cfg).work = 0 := rfl
  rwa [hcost, hzero, Nat.zero_add, sum_gain] at hpaid

/-- A request from its arrival to its answer. -/
def wholeRun : List Action :=
  submit 0 httpCall ++ recordOps 0 3 ++ dispatch 7 ++ serve 0 (.sendFailed "connection refused")
    ++ [.handler 0 (.poll 5)] ++ recordOps 0 6

/-- A request that is served takes all its steps. -/
theorem steps_per_request_le_whole :
    ∃ t, (gateway (scenarioConfig 1 1 .infer silentDecoder)).run
        (initState (scenarioConfig 1 1 .infer silentDecoder)) wholeRun = some t ∧
      wholeRun.length = 24 ∧ t.work + wholeRun.length ≤
        24 * wholeRun.countP Action.isArrival + wholeRun.countP Action.isSync := by
  have hrun : ((gateway (scenarioConfig 1 1 .infer silentDecoder)).run
      (initState (scenarioConfig 1 1 .infer silentDecoder)) wholeRun).isSome = true := by
    decide +kernel
  obtain ⟨t, ht⟩ := Option.isSome_iff_exists.mp hrun
  exact ⟨t, ht, rfl, steps_per_request_le _ ht⟩

/-! ## The steps of one handler -/

/-- The steps that handler `i` takes at most, before it has come and after. -/
def State.remaining (s : State) (i : ℕ) : ℕ := (s.handlers[i]?.map Handler.remaining).getD 12

/-- A step of handler `i`. -/
def Action.isOf (i : ℕ) : Action → Bool
  | .handler k _ => k = i
  | _ => false

/-- Only a handler that has ended has no steps left. -/
theorem Handler.remaining_pos (h : Handler) (he : h.ended = false) : 0 < h.remaining := by
  cases hp : h.phase <;> simp_all [Handler.remaining, Handler.ended]

private theorem remaining_of_handler {i k : ℕ} {h h' : Handler} (hk : s.handlers[k]? = some h)
    (hh : t.handlers = s.handlers.set k h') (hlt : h'.remaining < h.remaining) {b : HandlerAction} :
    t.remaining i + (if Action.isOf i (.handler k b) then 1 else 0) ≤ s.remaining i := by
  rw [State.remaining, State.remaining, hh, Action.isOf]
  by_cases hki : k = i
  · subst hki
    rw [getElem?_set_of_some hk, hk]
    simpa using hlt
  · rw [List.getElem?_set_ne hki]
    simp [hki]

private theorem remaining_eq (hh : t.handlers.map Handler.remaining = s.handlers.map Handler.remaining)
    (i : ℕ) : t.remaining i = s.remaining i := by
  rw [State.remaining, ← List.getElem?_map, hh, List.getElem?_map, State.remaining]

/-- A step of handler `i` takes one of its steps away, and no other step touches them. -/
theorem Step.remaining_le (h : Step cfg s a t) (i : ℕ) :
    t.remaining i + (if a.isOf i then 1 else 0) ≤ s.remaining i := by
  cases h with
  | validateKnown _ hi hp | validateUnknown _ hi hp | accept hi hp | reject hi hp | recordBegin hi hp
  | wait hi hp | recordFinish hi hp | answer hi hp | elapse hi hp | drop hi hp =>
    refine remaining_of_handler hi rfl ?_
    simp [Handler.remaining, hp, Handler.resume, Metrics.noteValidationError, Metrics.noteQueueFull,
      Metrics.beginRequest, Metrics.finishRequest]
  | poll _ hi hp =>
    refine remaining_of_handler hi rfl ?_
    simp [Handler.remaining, hp, Handler.resume, Metrics.finishRequest]
  | arrive call =>
    -- What the handler brings with it is what it was reckoned with before.
    simp only [State.remaining, Action.isOf, List.getElem?_append]
    split
    · exact le_rfl
    · rename_i hi
      rw [List.getElem?_eq_none (Nat.le_of_not_lt hi), List.getElem?_singleton]
      split <;> exact le_rfl
  | deliver | panic =>
    refine (remaining_eq (map_modify_of_eq _ _ ?_) i).le
    exact fun _ => rfl
  | recv | resize | publish | published | acquire | spawn | start | coreReturns | release
  | releasePanicked | syncRegistry => exact le_rfl

/-- In any run a handler takes at most twelve steps, and until it has ended it can take the next one without
waiting for anybody: so it ends in every run in which it gets its turns. -/
theorem handler_waitFree (cfg : Config) {as : List Action}
    (hrun : (gateway cfg).run (initState cfg) as = some t) (i : ℕ) :
    as.countP (Action.isOf i) ≤ 12 ∧
      ∀ h, t.handlers[i]? = some h → h.ended = false →
        as.countP (Action.isOf i) < 12 ∧
          ∃ a u, a ≠ HandlerAction.drop ∧ (gateway cfg).step t (.handler i a) = some u := by
  have hpaid := System.potential_method (m := fun s => s.remaining i)
    (fun a => if Action.isOf i a then 1 else 0) (fun _ => 0)
    (fun _ _ _ ht => (step_eq_some_iff.mp ht).remaining_le i) hrun
  rw [natSum_map_ite_eq_countP] at hpaid
  have hzero : (as.map fun _ => 0).sum = 0 := by simp
  have hinit : (initState cfg).remaining i = 12 := rfl
  refine ⟨by omega, fun h hi he => ?_⟩
  obtain ⟨a, u, ha, hu⟩ := handler_enabled cfg hi he
  refine ⟨?_, a, u, ha, step_eq_some_iff.mpr hu⟩
  have hleft : t.remaining i = h.remaining := by rw [State.remaining, hi]; rfl
  have hpos := h.remaining_pos he
  omega

/-- The handler of a request that is served takes all its steps. -/
theorem handler_waitFree_whole :
    ∃ t, (gateway (scenarioConfig 1 1 .infer silentDecoder)).run
        (initState (scenarioConfig 1 1 .infer silentDecoder)) wholeRun = some t ∧
      wholeRun.countP (Action.isOf 0) = 12 ∧ t.Ended 0 := by
  have hrun : ((gateway (scenarioConfig 1 1 .infer silentDecoder)).run
      (initState (scenarioConfig 1 1 .infer silentDecoder)) wholeRun).isSome = true := by
    decide +kernel
  obtain ⟨t, ht⟩ := Option.isSome_iff_exists.mp hrun
  have hcount : wholeRun.countP (Action.isOf 0) = 12 := by decide
  refine ⟨t, ht, hcount, fun h hi => ?_⟩
  by_contra he
  have := ((handler_waitFree _ ht 0).2 h hi (Bool.eq_false_of_not_eq_true he)).1
  omega

end InferenceGateway.Gateway
