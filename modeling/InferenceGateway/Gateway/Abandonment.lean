import InferenceGateway.Common.Lists
import InferenceGateway.Common.Refinement
import InferenceGateway.Gateway.Scenario

/-! # Clients that leave

A handler that has sent its job waits, times out, is dropped when its client disconnects, or answers. The
queue, the dispatcher, the pool and the workers notice none of it: a worker sends its result into the
channel whether or not somebody still listens. So all that handlers do after `try_send` can be left out of
a run, and the jobs are dispatched and the core is called as before. Nothing that a client does takes its
job back.
-/

namespace InferenceGateway.Gateway

open Common

variable {cfg : Config}

/-- The phase as far as it matters to the rest of the gateway: a handler that has called `try_send` is as
good as dropped. -/
def HandlerPhase.unattended : HandlerPhase → HandlerPhase
  | .validating => .validating
  | .enqueueing requestId => .enqueueing requestId
  | _ => .dropped

/-- A handler as far as it matters to the rest of the gateway. -/
def Handler.unattended (h : Handler) : Handler where
  call := h.call
  phase := h.phase.unattended

/-- The gateway without what handlers do after `try_send`. -/
def State.unattended (s : State) : State :=
  { s with
    handlers := s.handlers.map Handler.unattended
    metrics := {}
    recorded := [] }

/-- A step that is not one of a handler after its `try_send`. -/
def Action.isServing : Action → Bool
  | .handler _ (.validate _) => true
  | .handler _ .trySend => true
  | .handler _ _ => false
  | _ => true

@[simp] theorem HandlerPhase.unattended_unattended (phase : HandlerPhase) :
    phase.unattended.unattended = phase.unattended := by
  cases phase <;> rfl

@[simp] theorem Handler.unattended_comp_unattended :
    Handler.unattended ∘ Handler.unattended = Handler.unattended := by
  funext h
  simp [Handler.unattended]

theorem State.unattended_setHandler (s : State) (i : ℕ) {h h' : Handler}
    (hsame : h.unattended = h'.unattended) :
    (s.setHandler i h).unattended = (s.unattended.setHandler i h').unattended := by
  simp [State.setHandler, State.unattended, List.map_set, hsame]

theorem State.unattended_onChannel (s : State) (i : ℕ) (f : Oneshot → Oneshot) :
    (s.onChannel i f).unattended = s.unattended := by
  rw [State.unattended, State.onChannel, State.unattended]
  dsimp only
  rw [map_modify_of_eq]
  exact fun _ => rfl

/-! ## Steps that are not seen -/

private theorem unattended_of_handler {s t : State} {i : ℕ} {h h' : Handler} (hi : s.handlers[i]? = some h)
    (hh : t = { s with handlers := s.handlers.set i h', metrics := t.metrics, recorded := t.recorded })
    (hsame : h'.unattended = h.unattended) : t.unattended = s.unattended := by
  rw [hh]
  simp only [State.unattended, map_set_of_eq hi hsame]

/-- After `try_send`, the steps of a handler change nothing else. -/
theorem unattended_of_not_isServing {s t : State} {a : Action} (ha : a.isServing = false)
    (h : Step cfg s a t) : t.unattended = s.unattended := by
  cases h with
  | recordBegin hi hp | wait hi hp | recordFinish hi hp | answer hi hp | poll _ hi hp | elapse hi hp
  | drop hi hp =>
    refine unattended_of_handler hi rfl ?_
    simp [Handler.unattended, HandlerPhase.unattended, hp, Handler.resume]
  | _ => cases ha

/-! ## Steps that see nothing of it -/

/-- What a serving step of a handler does does not depend on the others. -/
theorem unattended_handlerStep (s : State) (i : ℕ) (h : Handler) {a : HandlerAction}
    (ha : Action.isServing (.handler i a) = true) :
    (handlerStep cfg s i h a).map State.unattended =
      (handlerStep cfg s.unattended i h.unattended a).map State.unattended := by
  rw [handlerStep_eq, handlerStep_eq]
  obtain ⟨call, phase, channel, stamped, awaited⟩ := h
  cases a with
  | validate fresh =>
    cases phase with
    | validating =>
      have hh : Handler.unattended { call, phase := .validating, channel, stamped, awaited } =
        { call, phase := .validating } := rfl
      rw [hh]
      simp only [frontEndStep]
      rw [show s.unattended.registry = s.registry from rfl]
      by_cases hm : s.registry.contains call.model = true
      · rw [if_pos hm, if_pos hm]
        exact congrArg some (s.unattended_setHandler i rfl)
      · rw [if_neg hm, if_neg hm]
        exact congrArg some (s.unattended_setHandler i rfl)
    | _ => rfl
  | trySend =>
    cases phase with
    | enqueueing requestId =>
      have hh : Handler.unattended { call, phase := .enqueueing requestId, channel, stamped, awaited } =
        { call, phase := .enqueueing requestId } := rfl
      rw [hh]
      simp only [frontEndStep]
      rw [show s.unattended.queue = s.queue from rfl]
      -- Either branch changes the handler, and besides it what is the same on both sides.
      by_cases hq : s.queue.length < cfg.queueCapacity
      · rw [if_pos hq, if_pos hq]
        simp [State.unattended, State.setHandler, Handler.unattended, HandlerPhase.unattended, List.map_set]
      · rw [if_neg hq, if_neg hq]
        simp [State.unattended, State.setHandler, Handler.unattended, HandlerPhase.unattended, List.map_set]
    | _ => rfl
  | _ => cases ha

theorem unattended_dispatcherStep (s : State) :
    (dispatcherStep s).map State.unattended = (dispatcherStep s.unattended).map State.unattended := by
  obtain ⟨registry, queue, pool, dispatcher, workers, handlers, metrics, accepted, rejected, coreCalls,
    recorded⟩ := s
  cases dispatcher with
  | receiving =>
    cases queue with
    | nil => rfl
    | cons job rest => simp [dispatcherStep, State.unattended]
  | resizing job => simp [dispatcherStep, State.unattended]
  | publishing job pending => cases pending <;> simp [dispatcherStep, State.unattended]
  | acquiring job =>
    simp only [dispatcherStep, State.unattended]
    cases pool.semaphore.acquire? with
    | none => rfl
    | some semaphore => simp [State.unattended]
  | spawning job => simp [dispatcherStep, State.unattended]

theorem unattended_workerStep (s : State) (j : ℕ) (w : Worker) (a : WorkerAction) :
    (workerStep cfg s j w a).map State.unattended =
      (workerStep cfg s.unattended j w a).map State.unattended := by
  have hset (w : Worker) : (s.setWorker j w).unattended = (s.unattended.setWorker j w).unattended := by
    simp [State.setWorker, State.unattended]
  obtain ⟨job, phase, coreReply⟩ := w
  cases a with
  | start =>
    cases phase with
    | spawned => simp [workerStep, State.setWorker, State.unattended]
    | _ => rfl
  | coreReturns reply =>
    cases phase with
    | calling => exact congrArg some (hset _)
    | _ => rfl
  | deliver =>
    cases phase with
    | returned result =>
      simp only [workerStep, Option.map_some, State.unattended_onChannel, hset]
    | _ => rfl
  | panic =>
    cases phase with
    | spawned | calling | returned =>
      simp only [workerStep, Option.map_some, State.unattended_onChannel, hset]
    | _ => rfl
  | release =>
    cases phase with
    | delivered | panicked => simp [workerStep, State.setWorker, State.releasePermit, State.unattended]
    | _ => rfl

/-- A serving step does not depend on what handlers do after `try_send`. -/
theorem unattended_step (s : State) {a : Action} (ha : a.isServing = true) :
    (step cfg s a).map State.unattended = (step cfg s.unattended a).map State.unattended := by
  cases a with
  | arrive call => simp [step, State.unattended]
  | handler i a =>
    have hget : s.unattended.handlers[i]? = (s.handlers[i]?).map Handler.unattended := List.getElem?_map
    simp only [step, hget]
    cases s.handlers[i]? with
    | none => rfl
    | some h => exact unattended_handlerStep s i h ha
  | dispatcher => exact unattended_dispatcherStep s
  | worker j a =>
    have hget : s.unattended.workers = s.workers := rfl
    simp only [step, hget]
    cases s.workers[j]? with
    | none => rfl
    | some w => exact unattended_workerStep s j w a
  | syncRegistry models aliases =>
    simp only [step]
    split
    · simp [State.unattended]
    · rfl

/-! ## Main result -/

/-- Leave out of a run everything that handlers do after `try_send`: waiting, timing out, being dropped,
answering. What is left is a run that accepts, rejects, dispatches and serves the same jobs in the same
order, with the same pool, and makes the same calls of the core with the same outcomes. -/
theorem abandonment_unseen (cfg : Config) {as : List Action} {t : State}
    (hrun : (gateway cfg).run (initState cfg) as = some t) :
    ∃ t', (gateway cfg).run (initState cfg) (as.filter Action.isServing) = some t' ∧
      t'.accepted = t.accepted ∧ t'.rejected = t.rejected ∧ t'.queue = t.queue ∧
      t'.dispatcher = t.dispatcher ∧ t'.pool = t.pool ∧ t'.workers = t.workers ∧
      t'.coreCalls = t.coreCalls := by
  obtain ⟨t', ht', hsame⟩ := System.run_erase State.unattended Action.isServing
    (fun _ _ _ ha ht => unattended_of_not_isServing ha (step_eq_some_iff.mp ht))
    (fun s s' _ ha hs => (unattended_step s ha).trans (hs ▸ (unattended_step s' ha).symm)) rfl hrun
  have hfield {β : Type} (f : State → β) : f t'.unattended = f t.unattended := congrArg f hsame
  exact ⟨t', ht', hfield State.accepted, hfield State.rejected, hfield State.queue,
    hfield State.dispatcher, hfield State.pool, hfield State.workers, hfield State.coreCalls⟩

/-- Handler 0 is dropped before its job is dispatched and handler 1 times out: both jobs are served. -/
theorem abandonment_unseen_two :
    ∃ t t', (gateway (scenarioConfig 1 1 .infer silentDecoder)).run
        (initState (scenarioConfig 1 1 .infer silentDecoder))
        (submit 0 httpCall ++ submit 1 grpcCall ++ recordOps 0 3 ++ [.handler 0 .drop] ++ dispatch 7
          ++ recordOps 1 3 ++ [.handler 1 .elapse] ++ serve 0 (.sendFailed "connection refused")
          ++ dispatch 7 ++ serve 1 (.sendFailed "connection refused")) = some t ∧
      (gateway (scenarioConfig 1 1 .infer silentDecoder)).run
        (initState (scenarioConfig 1 1 .infer silentDecoder))
        (submit 0 httpCall ++ submit 1 grpcCall ++ dispatch 7 ++ serve 0 (.sendFailed "connection refused")
          ++ dispatch 7 ++ serve 1 (.sendFailed "connection refused")) = some t' ∧
      t'.workers = t.workers ∧ t'.coreCalls = t.coreCalls ∧ t.coreCalls.length = 2 := by
  have hrun : ((gateway (scenarioConfig 1 1 .infer silentDecoder)).run
      (initState (scenarioConfig 1 1 .infer silentDecoder))
      (submit 0 httpCall ++ submit 1 grpcCall ++ recordOps 0 3 ++ [.handler 0 .drop] ++ dispatch 7
        ++ recordOps 1 3 ++ [.handler 1 .elapse] ++ serve 0 (.sendFailed "connection refused")
        ++ dispatch 7 ++ serve 1 (.sendFailed "connection refused"))).map (fun t => t.coreCalls.length) =
      some 2 := by
    decide +kernel
  obtain ⟨t, ht, hcalls⟩ := Option.map_eq_some_iff.mp hrun
  obtain ⟨t', ht', -, -, -, -, -, hworkers, hsame⟩ := abandonment_unseen _ ht
  exact ⟨t, t', ht, ht', hworkers, hsame, hcalls⟩

end InferenceGateway.Gateway
