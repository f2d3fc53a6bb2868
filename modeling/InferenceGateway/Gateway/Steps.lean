import InferenceGateway.Gateway.System

/-! # The steps of the gateway, one by one

The two infer handlers touch the queue, their channel and the metrics in the same order and differ in ids
and answers only, so one step function with these as parameters serves for both (`handlerStep_eq`).

`Step` lists the transitions with their guards and effects; `step_eq_some_iff` shows that it is exactly
the executable `step`. Invariants are proved by cases on `Step` and never unfold `step`.
-/

namespace InferenceGateway.Gateway

open Common

/-! ## One step for both handlers -/

/-- The state of the handler after its await returned `awaited`, `elapsedMs` after it began. The
latency recorded for an expired timer is the timeout itself. -/
def Handler.resume (cfg : Config) (h : Handler) (requestId : String) (elapsedMs : UInt64)
    (awaited : Awaited) : Handler :=
  { h with
    phase := .finishing
      (Metrics.finishRequest awaited.outcome (awaited.latencyMs cfg.requestTimeoutSecs elapsedMs))
      (h.call.respond cfg.requestTimeoutSecs requestId awaited)
    channel := h.channel.dropReceiver
    awaited := some awaited }

/-- A step of handler `i`, which is `h`, whichever front end its call came in over. -/
def frontEndStep (cfg : Config) (s : State) (i : ℕ) (h : Handler) :
    HandlerAction → Option State
  | .validate fresh =>
    match h.phase with
    | .validating =>
      if s.registry.contains h.call.model then
        let requestId := h.call.resolveRequestId cfg.uuid fresh
        some (s.setHandler i { h with phase := .enqueueing requestId, stamped := some requestId })
      else
        some (s.setHandler i
          { h with phase := .finishing Metrics.noteValidationError h.call.unknownModel })
    | _ => none
  | .trySend =>
    match h.phase with
    | .enqueueing requestId =>
      if s.queue.length < cfg.queueCapacity then
        some
          { s.setHandler i { h with phase := .beginning requestId Metrics.beginRequest } with
            queue := s.queue ++ [{ request := h.call.jobRequest requestId, responseTx := i }]
            accepted := s.accepted ++ [i] }
      else
        some
          { s.setHandler i
              { h with
                phase := .finishing Metrics.noteQueueFull (h.call.queueFull requestId)
                channel := h.channel.dropSender.dropReceiver } with
            rejected := s.rejected ++ [i] }
    | _ => none
  | .record =>
    match h.phase with
    | .beginning requestId (op :: ops) =>
      some (s.record i op { h with phase := .beginning requestId ops })
    | .beginning requestId [] => some (s.setHandler i { h with phase := .waiting requestId })
    | .finishing (op :: ops) reply => some (s.record i op { h with phase := .finishing ops reply })
    | .finishing [] reply => some (s.setHandler i { h with phase := .done reply })
    | _ => none
  | .poll elapsedMs =>
    match h.phase with
    | .waiting requestId =>
      match h.channel.poll with
      | some awaited => some (s.setHandler i (h.resume cfg requestId elapsedMs awaited))
      | none => none
    | _ => none
  | .elapse =>
    match h.phase with
    | .waiting requestId =>
      match h.channel.poll with
      | some _ => none
      | none => some (s.setHandler i (h.resume cfg requestId 0 .elapsed))
    | _ => none
  | .drop =>
    match h.phase with
    | .waiting _ =>
      some (s.setHandler i { h with phase := .dropped, channel := h.channel.dropReceiver })
    | _ => none

/-- The arms of both handlers count the same outcome under the same latency. -/
theorem InferHandler.finish_eq (requestTimeoutSecs : ℕ) (requestId : String) (elapsedMs : UInt64)
    (awaited : Awaited) :
    InferHandler.finish requestTimeoutSecs requestId elapsedMs awaited =
      (Metrics.finishRequest awaited.outcome (awaited.latencyMs requestTimeoutSecs elapsedMs),
        InferHandler.respond requestId awaited) := by
  rcases awaited with (errMsg | inferResp) | _ | _ <;> rfl

theorem GrpcInfer.finish_eq (requestTimeoutSecs : ℕ) (elapsedMs : UInt64) (awaited : Awaited) :
    GrpcInfer.finish requestTimeoutSecs elapsedMs awaited =
      (Metrics.finishRequest awaited.outcome (awaited.latencyMs requestTimeoutSecs elapsedMs),
        GrpcInfer.respond requestTimeoutSecs awaited) := by
  rcases awaited with (errMsg | inferResp) | _ | _ <;> rfl

section

variable {cfg : Config} {s : State} {i : ℕ} {h : Handler} {a : HandlerAction}

theorem inferHandlerStep_eq {call : HttpInferCall} (hcall : h.call = .http call) :
    inferHandlerStep cfg s i h call a = frontEndStep cfg s i h a := by
  obtain ⟨_, phase, channel, stamped, awaited⟩ := h
  cases hcall
  cases a with
  | validate fresh => rfl
  | trySend => rfl
  | record => rfl
  | poll elapsedMs =>
    cases phase with
    | waiting requestId =>
      cases hpoll : channel.poll with
      | none => simp only [inferHandlerStep, frontEndStep, hpoll]
      | some awaited =>
        simp only [inferHandlerStep, frontEndStep, hpoll, InferHandler.finish_eq, Handler.resume,
          InferCall.respond]
    | _ => rfl
  | elapse =>
    cases phase with
    | waiting requestId =>
      cases hpoll : channel.poll with
      | none =>
        simp only [inferHandlerStep, frontEndStep, hpoll, InferHandler.finish_eq, Handler.resume,
          InferCall.respond]
      | some awaited => simp only [inferHandlerStep, frontEndStep, hpoll]
    | _ => rfl
  | drop => rfl

theorem grpcInferStep_eq {protoReq : ProtoInferReq} (hcall : h.call = .grpc protoReq) :
    grpcInferStep cfg s i h protoReq a = frontEndStep cfg s i h a := by
  obtain ⟨_, phase, channel, stamped, awaited⟩ := h
  cases hcall
  cases a with
  | validate fresh => rfl
  | trySend => rfl
  | record => rfl
  | poll elapsedMs =>
    cases phase with
    | waiting requestId =>
      cases hpoll : channel.poll with
      | none => simp only [grpcInferStep, frontEndStep, hpoll]
      | some awaited =>
        simp only [grpcInferStep, frontEndStep, hpoll, GrpcInfer.finish_eq, Handler.resume, InferCall.respond]
    | _ => rfl
  | elapse =>
    cases phase with
    | waiting requestId =>
      cases hpoll : channel.poll with
      | none =>
        simp only [grpcInferStep, frontEndStep, hpoll, GrpcInfer.finish_eq, Handler.resume, InferCall.respond]
      | some awaited => simp only [grpcInferStep, frontEndStep, hpoll]
    | _ => rfl
  | drop => rfl

/-- Either handler takes the same steps. -/
theorem handlerStep_eq (cfg : Config) (s : State) (i : ℕ) (h : Handler) (a : HandlerAction) :
    handlerStep cfg s i h a = frontEndStep cfg s i h a := by
  unfold handlerStep
  split
  · exact inferHandlerStep_eq ‹_›
  · exact grpcInferStep_eq ‹_›

end

/-! ## The transitions -/

/-- The transitions of the gateway. -/
inductive Step (cfg : Config) (s : State) : Action → State → Prop
  | arrive (call : InferCall) :
      Step cfg s (.arrive call) { s with handlers := s.handlers ++ [{ call := call }] }
  | validateKnown {i : ℕ} {h : Handler} (fresh : Uuid) (hi : s.handlers[i]? = some h)
      (hp : h.phase = .validating) (hm : s.registry.contains h.call.model = true) :
      Step cfg s (.handler i (.validate fresh))
        (s.setHandler i
          { h with
            phase := .enqueueing (h.call.resolveRequestId cfg.uuid fresh)
            stamped := some (h.call.resolveRequestId cfg.uuid fresh) })
  | validateUnknown {i : ℕ} {h : Handler} (fresh : Uuid) (hi : s.handlers[i]? = some h)
      (hp : h.phase = .validating) (hm : s.registry.contains h.call.model = false) :
      Step cfg s (.handler i (.validate fresh))
        (s.setHandler i
          { h with phase := .finishing Metrics.noteValidationError h.call.unknownModel })
  | accept {i : ℕ} {h : Handler} {requestId : String} (hi : s.handlers[i]? = some h)
      (hp : h.phase = .enqueueing requestId) (hq : s.queue.length < cfg.queueCapacity) :
      Step cfg s (.handler i .trySend)
        { s.setHandler i { h with phase := .beginning requestId Metrics.beginRequest } with
          queue := s.queue ++ [{ request := h.call.jobRequest requestId, responseTx := i }]
          accepted := s.accepted ++ [i] }
  | reject {i : ℕ} {h : Handler} {requestId : String} (hi : s.handlers[i]? = some h)
      (hp : h.phase = .enqueueing requestId) (hq : cfg.queueCapacity ≤ s.queue.length) :
      Step cfg s (.handler i .trySend)
        { s.setHandler i
            { h with
              phase := .finishing Metrics.noteQueueFull (h.call.queueFull requestId)
              channel := h.channel.dropSender.dropReceiver } with
          rejected := s.rejected ++ [i] }
  | recordBegin {i : ℕ} {h : Handler} {requestId : String} {op : MetricOp} {ops : List MetricOp}
      (hi : s.handlers[i]? = some h) (hp : h.phase = .beginning requestId (op :: ops)) :
      Step cfg s (.handler i .record)
        (s.record i op { h with phase := .beginning requestId ops })
  | wait {i : ℕ} {h : Handler} {requestId : String} (hi : s.handlers[i]? = some h)
      (hp : h.phase = .beginning requestId []) :
      Step cfg s (.handler i .record) (s.setHandler i { h with phase := .waiting requestId })
  | recordFinish {i : ℕ} {h : Handler} {op : MetricOp} {ops : List MetricOp} {reply : Reply}
      (hi : s.handlers[i]? = some h) (hp : h.phase = .finishing (op :: ops) reply) :
      Step cfg s (.handler i .record) (s.record i op { h with phase := .finishing ops reply })
  | answer {i : ℕ} {h : Handler} {reply : Reply} (hi : s.handlers[i]? = some h)
      (hp : h.phase = .finishing [] reply) :
      Step cfg s (.handler i .record) (s.setHandler i { h with phase := .done reply })
  | poll {i : ℕ} {h : Handler} {requestId : String} {awaited : Awaited} (elapsedMs : UInt64)
      (hi : s.handlers[i]? = some h) (hp : h.phase = .waiting requestId)
      (hc : h.channel.poll = some awaited) :
      Step cfg s (.handler i (.poll elapsedMs))
        (s.setHandler i (h.resume cfg requestId elapsedMs awaited))
  | elapse {i : ℕ} {h : Handler} {requestId : String} (hi : s.handlers[i]? = some h)
      (hp : h.phase = .waiting requestId) (hc : h.channel.poll = none) :
      Step cfg s (.handler i .elapse) (s.setHandler i (h.resume cfg requestId 0 .elapsed))
  | drop {i : ℕ} {h : Handler} {requestId : String} (hi : s.handlers[i]? = some h)
      (hp : h.phase = .waiting requestId) :
      Step cfg s (.handler i .drop)
        (s.setHandler i { h with phase := .dropped, channel := h.channel.dropReceiver })
  | recv {job : Job} {rest : List Job} (hd : s.dispatcher = .receiving)
      (hq : s.queue = job :: rest) :
      Step cfg s .dispatcher { s with queue := rest, dispatcher := .resizing job }
  | resize {job : Job} (hd : s.dispatcher = .resizing job) :
      Step cfg s .dispatcher
        { s with
          pool := (s.pool.reconfigure s.queue.length).1
          dispatcher := .publishing job
            (Metrics.setPoolWorkers (s.pool.plan s.queue.length) s.pool.maxSize) }
  | publish {job : Job} {op : MetricOp} {ops : List MetricOp}
      (hd : s.dispatcher = .publishing job (op :: ops)) :
      Step cfg s .dispatcher
        { s with metrics := s.metrics.apply op, dispatcher := .publishing job ops }
  | published {job : Job} (hd : s.dispatcher = .publishing job []) :
      Step cfg s .dispatcher { s with dispatcher := .acquiring job }
  | acquire {job : Job} {semaphore : Semaphore} (hd : s.dispatcher = .acquiring job)
      (ha : s.pool.semaphore.acquire? = some semaphore) :
      Step cfg s .dispatcher
        { s with
          pool := { s.pool with semaphore := semaphore }
          dispatcher := .spawning job }
  | spawn {job : Job} (hd : s.dispatcher = .spawning job) :
      Step cfg s .dispatcher
        { s with workers := s.workers ++ [{ job := job }], dispatcher := .receiving }
  | start {j : ℕ} {w : Worker} (hj : s.workers[j]? = some w) (hp : w.phase = .spawned) :
      Step cfg s (.worker j .start)
        { s.setWorker j { w with phase := .calling } with
          coreCalls := s.coreCalls ++ [(w.job.responseTx, w.job.request)] }
  | coreReturns {j : ℕ} {w : Worker} (reply : CoreReply) (hj : s.workers[j]? = some w)
      (hp : w.phase = .calling) :
      Step cfg s (.worker j (.coreReturns reply))
        (s.setWorker j
          { w with
            phase := .returned
              (callInferenceCore cfg.decoder cfg.coreProtocol w.job.request reply)
            coreReply := some reply })
  | deliver {j : ℕ} {w : Worker} {result : JobResult} (hj : s.workers[j]? = some w)
      (hp : w.phase = .returned result) :
      Step cfg s (.worker j .deliver)
        ((s.setWorker j { w with phase := .delivered result }).onChannel w.job.responseTx
          fun ch => ch.send result)
  | panic {j : ℕ} {w : Worker} (hj : s.workers[j]? = some w)
      (hp : w.phase = .spawned ∨ w.phase = .calling ∨ ∃ result, w.phase = .returned result) :
      Step cfg s (.worker j .panic)
        ((s.setWorker j { w with phase := .panicked }).onChannel w.job.responseTx
          Oneshot.dropSender)
  | release {j : ℕ} {w : Worker} {result : JobResult} (hj : s.workers[j]? = some w)
      (hp : w.phase = .delivered result) :
      Step cfg s (.worker j .release)
        (s.setWorker j { w with phase := .finished (some result) }).releasePermit
  | releasePanicked {j : ℕ} {w : Worker} (hj : s.workers[j]? = some w) (hp : w.phase = .panicked) :
      Step cfg s (.worker j .release)
        (s.setWorker j { w with phase := .finished none }).releasePermit
  | syncRegistry (models : List ModelInfo) (aliases : List String)
      (hc : cfg.coreProtocol = .llamaChat) :
      Step cfg s (.syncRegistry models aliases)
        { s with registry := ModelRegistry.replaceAll models aliases }

variable {cfg : Config} {s t : State}

private theorem step_handler {i : ℕ} {h : Handler} {a : HandlerAction}
    (hi : s.handlers[i]? = some h) :
    step cfg s (.handler i a) = frontEndStep cfg s i h a := by
  simp only [step, hi, Option.bind_some, handlerStep_eq]

private theorem step_worker {j : ℕ} {w : Worker} {a : WorkerAction}
    (hj : s.workers[j]? = some w) :
    step cfg s (.worker j a) = workerStep cfg s j w a := by
  simp only [step, hj, Option.bind_some]

/-- Every listed transition is taken by `step`. -/
theorem Step.step_eq {a : Action} (h : Step cfg s a t) : step cfg s a = some t := by
  cases h with
  | arrive | recv | resize | publish | published | acquire | spawn | syncRegistry =>
    simp_all [step, dispatcherStep]
  | start hj | coreReturns _ hj | deliver hj | release hj | releasePanicked hj =>
    rw [step_worker hj]
    simp_all [workerStep]
  | panic hj hp =>
    rw [step_worker hj]
    rcases hp with hp | hp | ⟨result, hp⟩ <;> simp only [workerStep, hp]
  | reject hi hp hq =>
    rw [step_handler hi]
    simp only [frontEndStep, hp, if_neg (Nat.not_lt.mpr hq)]
  | validateKnown _ hi | validateUnknown _ hi | accept hi | recordBegin hi | wait hi
  | recordFinish hi | answer hi | poll _ hi | elapse hi | drop hi =>
    rw [step_handler hi]
    simp_all [frontEndStep]

private theorem Step.of_frontEndStep {i : ℕ} {h : Handler} {a : HandlerAction}
    (hi : s.handlers[i]? = some h) (hs : frontEndStep cfg s i h a = some t) :
    Step cfg s (.handler i a) t := by
  cases a with
  | validate fresh =>
    simp only [frontEndStep] at hs
    split at hs
    · split at hs <;> cases hs
      · exact .validateKnown fresh hi ‹_› ‹_›
      · exact .validateUnknown fresh hi ‹_› (Bool.eq_false_iff.mpr ‹_›)
    · cases hs
  | trySend =>
    simp only [frontEndStep] at hs
    split at hs
    · split at hs <;> cases hs
      · exact .accept hi ‹_› ‹_›
      · exact .reject hi ‹_› (Nat.not_lt.mp ‹_›)
    · cases hs
  | record =>
    simp only [frontEndStep] at hs
    split at hs <;> cases hs
    · exact .recordBegin hi ‹_›
    · exact .wait hi ‹_›
    · exact .recordFinish hi ‹_›
    · exact .answer hi ‹_›
  | poll elapsedMs =>
    simp only [frontEndStep] at hs
    split at hs
    · split at hs <;> cases hs
      exact .poll elapsedMs hi ‹_› ‹_›
    · cases hs
  | elapse =>
    simp only [frontEndStep] at hs
    split at hs
    · split at hs <;> cases hs
      exact .elapse hi ‹_› ‹_›
    · cases hs
  | drop =>
    simp only [frontEndStep] at hs
    split at hs <;> cases hs
    exact .drop hi ‹_›

private theorem Step.of_dispatcherStep (hs : dispatcherStep s = some t) :
    Step cfg s .dispatcher t := by
  simp only [dispatcherStep] at hs
  split at hs
  · split at hs <;> cases hs
    exact .recv ‹_› ‹_›
  · rename_i hd
    have h : Step cfg s .dispatcher _ := .resize hd
    cases hs
    simpa using h
  · cases hs; exact .publish ‹_›
  · cases hs; exact .published ‹_›
  · obtain ⟨semaphore, ha, rfl⟩ := Option.map_eq_some_iff.mp hs
    exact .acquire ‹_› ha
  · cases hs; exact .spawn ‹_›

private theorem Step.of_workerStep {j : ℕ} {w : Worker} {a : WorkerAction}
    (hj : s.workers[j]? = some w) (hs : workerStep cfg s j w a = some t) :
    Step cfg s (.worker j a) t := by
  cases a with
  | start =>
    simp only [workerStep] at hs
    split at hs <;> cases hs
    exact .start hj ‹_›
  | coreReturns reply =>
    simp only [workerStep] at hs
    split at hs <;> cases hs
    exact .coreReturns reply hj ‹_›
  | deliver =>
    simp only [workerStep] at hs
    split at hs <;> cases hs
    exact .deliver hj ‹_›
  | panic =>
    simp only [workerStep] at hs
    split at hs <;> cases hs
    · exact .panic hj (.inl ‹_›)
    · exact .panic hj (.inr (.inl ‹_›))
    · exact .panic hj (.inr (.inr ⟨_, ‹_›⟩))
  | release =>
    simp only [workerStep] at hs
    split at hs <;> cases hs
    · exact .release hj ‹_›
    · exact .releasePanicked hj ‹_›

/-- The executable step takes exactly the listed transitions. -/
theorem step_eq_some_iff {a : Action} : step cfg s a = some t ↔ Step cfg s a t := by
  refine ⟨fun hs => ?_, Step.step_eq⟩
  cases a with
  | arrive call => cases hs; exact .arrive call
  | handler i a =>
    obtain ⟨h, hi, hs⟩ := Option.bind_eq_some_iff.mp hs
    exact .of_frontEndStep hi ((handlerStep_eq cfg s i h a).symm.trans hs)
  | dispatcher => exact .of_dispatcherStep hs
  | worker j a =>
    obtain ⟨w, hj, hs⟩ := Option.bind_eq_some_iff.mp hs
    exact .of_workerStep hj hs
  | syncRegistry models aliases =>
    simp only [step] at hs
    split at hs <;> cases hs
    exact .syncRegistry models aliases ‹_›

/-- The invariant rule of the gateway, over the listed transitions. -/
theorem gateway_invariant {G : State → Action → Prop} {I : State → Prop}
    (hinit : I (initState cfg))
    (hstep : ∀ s a t, (gateway cfg).ReachableVia G s → I s → G s a → Step cfg s a t → I t)
    (h : (gateway cfg).ReachableVia G s) : I s :=
  h.invariant (fun _ hs => hs ▸ hinit)
    fun s a t hr hi hg hs => hstep s a t hr hi hg (step_eq_some_iff.mp hs)

end InferenceGateway.Gateway
