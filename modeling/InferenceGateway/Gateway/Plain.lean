import InferenceGateway.Gateway.Scenario

/-! # The gateway without its front ends

The HTTP and the gRPC handler read their requests and write their answers in different forms, and they
resolve the request id differently. Neither the form nor the id decides what a step does to the queue, the
pool, the metrics or another handler. `plain` takes them out of a state: what is left is a gateway with one
kind of request and one kind of answer, the status code.
-/

namespace InferenceGateway.Gateway

open Common

/-! ## Requests and replies without front end and id -/

/-- A request without its id. -/
def InferRequest.plain (req : InferRequest) : InferRequest := { req with requestId := none }

/-- The request of a call, as either handler decodes it. -/
def InferCall.request : InferCall → InferRequest
  | .http call => call.payload
  | .grpc protoReq => protoToRequest protoReq

/-- A call as an HTTP call without ids. -/
def InferCall.plain (call : InferCall) : InferCall :=
  .http { xRequestId := none, payload := call.request.plain }

/-- The HTTP status that corresponds to a gRPC code. -/
def GrpcCode.httpStatus : GrpcCode → UInt16
  | .invalidArgument => 400
  | .unavailable => 503
  | .internal => 500
  | .deadlineExceeded => 504

/-- The status of a reply, in terms of HTTP. -/
def Reply.httpStatus : Reply → UInt16
  | .http response => response.status
  | .grpc (.ok _) => 200
  | .grpc (.error status) => status.code.httpStatus

/-- A reply without anything but its status. -/
def Reply.plain (reply : Reply) : Reply :=
  .http { status := reply.httpStatus, body := .null, xRequestId := none }

/-- A response of the core without its id. -/
def InferResponse.plain (resp : InferResponse) : InferResponse := { resp with requestId := "" }

/-- A result without the id of its response. -/
def plainResult (result : JobResult) : JobResult := result.map InferResponse.plain

def Awaited.plain : Awaited → Awaited
  | .result r => .result (plainResult r)
  | .senderDropped => .senderDropped
  | .elapsed => .elapsed

def Job.plain (job : Job) : Job := { job with request := job.request.plain }

def Oneshot.plain (ch : Oneshot) : Oneshot := { ch with value := ch.value.map plainResult }

def HandlerPhase.plain : HandlerPhase → HandlerPhase
  | .validating => .validating
  | .enqueueing _ => .enqueueing ""
  | .beginning _ pending => .beginning "" pending
  | .waiting _ => .waiting ""
  | .finishing pending reply => .finishing pending reply.plain
  | .done reply => .done reply.plain
  | .dropped => .dropped

def Handler.plain (h : Handler) : Handler where
  call := h.call.plain
  phase := h.phase.plain
  channel := h.channel.plain
  stamped := none
  awaited := h.awaited.map Awaited.plain

def DispatcherPhase.plain : DispatcherPhase → DispatcherPhase
  | .receiving => .receiving
  | .resizing job => .resizing job.plain
  | .publishing job pending => .publishing job.plain pending
  | .acquiring job => .acquiring job.plain
  | .spawning job => .spawning job.plain

def WorkerPhase.plain : WorkerPhase → WorkerPhase
  | .spawned => .spawned
  | .calling => .calling
  | .returned result => .returned (plainResult result)
  | .delivered result => .delivered (plainResult result)
  | .panicked => .panicked
  | .finished result => .finished (result.map plainResult)

def Worker.plain (w : Worker) : Worker where
  job := w.job.plain
  phase := w.phase.plain
  coreReply := w.coreReply

/-- The gateway without front ends and ids. -/
def State.plain (s : State) : State where
  registry := s.registry
  queue := s.queue.map Job.plain
  pool := s.pool
  dispatcher := s.dispatcher.plain
  workers := s.workers.map Worker.plain
  handlers := s.handlers.map Handler.plain
  metrics := s.metrics
  accepted := s.accepted
  rejected := s.rejected
  coreCalls := s.coreCalls.map fun p => (p.1, p.2.plain)
  recorded := s.recorded

def HandlerAction.plain : HandlerAction → HandlerAction
  | .validate _ => .validate 0
  | a => a

def Action.plain : Action → Action
  | .arrive call => .arrive call.plain
  | .handler i a => .handler i a.plain
  | a => a

/-! ## What a step computes without them -/

@[simp] theorem InferRequest.plain_model (req : InferRequest) : req.plain.model = req.model := rfl

@[simp] theorem InferRequest.plain_plain (req : InferRequest) : req.plain.plain = req.plain := rfl

@[simp] theorem InferCall.plain_model (call : InferCall) : call.plain.model = call.model := by
  cases call <;> rfl

@[simp] theorem InferCall.plain_plain (call : InferCall) : call.plain.plain = call.plain := rfl

@[simp] theorem InferCall.plain_jobRequest (call : InferCall) (requestId : String) :
    (call.jobRequest requestId).plain = call.request.plain := by
  cases call <;> rfl

@[simp] theorem InferCall.request_plain (call : InferCall) : call.plain.request = call.request.plain := rfl

@[simp] theorem InferCall.plain_unknownModel (call : InferCall) :
    call.unknownModel.plain = .http { status := 400, body := .null, xRequestId := none } := by
  cases call <;> rfl

@[simp] theorem InferCall.plain_queueFull (call : InferCall) (requestId : String) :
    (call.queueFull requestId).plain = .http { status := 503, body := .null, xRequestId := none } := by
  cases call <;> rfl

/-- The status under which an await ends. -/
def Awaited.httpStatus : Awaited → UInt16
  | .result (.ok _) => 200
  | .result (.error _) => 500
  | .senderDropped => 500
  | .elapsed => 504

@[simp] theorem InferCall.plain_respond (call : InferCall) (requestTimeoutSecs : ℕ) (requestId : String)
    (awaited : Awaited) :
    (call.respond requestTimeoutSecs requestId awaited).plain =
      .http { status := awaited.httpStatus, body := .null, xRequestId := none } := by
  rcases awaited with (err | resp) | _ | _ <;> cases call <;> rfl

@[simp] theorem Awaited.plain_httpStatus (awaited : Awaited) :
    awaited.plain.httpStatus = awaited.httpStatus := by
  rcases awaited with (err | resp) | _ | _ <;> rfl

@[simp] theorem Awaited.plain_outcome (awaited : Awaited) : awaited.plain.outcome = awaited.outcome := by
  rcases awaited with (err | resp) | _ | _ <;> rfl

@[simp] theorem Awaited.plain_latencyMs (awaited : Awaited) (requestTimeoutSecs : ℕ)
    (elapsedMs : UInt64) :
    awaited.plain.latencyMs requestTimeoutSecs elapsedMs =
      awaited.latencyMs requestTimeoutSecs elapsedMs := by
  rcases awaited with (err | resp) | _ | _ <;> rfl

@[simp] theorem plainResult_plainResult (result : JobResult) :
    plainResult (plainResult result) = plainResult result := by
  cases result <;> rfl

@[simp] theorem Awaited.plain_plain (awaited : Awaited) : awaited.plain.plain = awaited.plain := by
  rcases awaited with (err | resp) | _ | _ <;> rfl

@[simp] theorem Awaited.plain_comp_plain : Awaited.plain ∘ Awaited.plain = Awaited.plain :=
  funext Awaited.plain_plain

@[simp] theorem Oneshot.plain_poll (ch : Oneshot) : ch.plain.poll = ch.poll.map Awaited.plain := by
  obtain ⟨value, txAlive, rxAlive⟩ := ch
  cases value with
  | some result => rfl
  | none => cases txAlive <;> rfl

/-- What a call of the core returns does not depend on the id of the request, but for the id of the
response. -/
theorem plainResult_callInferenceCore (decoder : CoreDecoder) (protocol : CoreProtocol)
    (req : InferRequest) (reply : CoreReply) :
    plainResult (callInferenceCore decoder protocol req.plain reply) =
      plainResult (callInferenceCore decoder protocol req reply) := by
  cases protocol with
  | infer => rfl
  | llamaChat =>
    rw [callInferenceCore, callInferenceCore, callLlamaChatProtocol, callLlamaChatProtocol]
    cases receive decoder.llamaChatResponse "failed to decode llama-server response: " reply with
    | error err => rfl
    | ok parsed => rfl

/-! ## Taking them away twice -/

@[simp] theorem Reply.plain_plain (reply : Reply) : reply.plain.plain = reply.plain := rfl

@[simp] theorem Job.plain_plain (job : Job) : job.plain.plain = job.plain := rfl

@[simp] theorem Oneshot.plain_plain (ch : Oneshot) : ch.plain.plain = ch.plain := by
  obtain ⟨value, txAlive, rxAlive⟩ := ch
  cases value with
  | none => rfl
  | some result => simp [Oneshot.plain]

@[simp] theorem Oneshot.plain_dropSender (ch : Oneshot) : ch.dropSender.plain = ch.plain.dropSender := rfl

@[simp] theorem Oneshot.plain_dropReceiver (ch : Oneshot) :
    ch.dropReceiver.plain = ch.plain.dropReceiver := rfl

theorem Oneshot.plain_send (ch : Oneshot) (result : JobResult) :
    (ch.send result).plain = ch.plain.send (plainResult result) := by
  obtain ⟨value, txAlive, rxAlive⟩ := ch
  cases rxAlive <;> rfl

@[simp] theorem HandlerPhase.plain_plain (phase : HandlerPhase) : phase.plain.plain = phase.plain := by
  cases phase <;> rfl

@[simp] theorem Handler.plain_plain (h : Handler) : h.plain.plain = h.plain := by
  simp [Handler.plain]

@[simp] theorem Handler.plain_comp_plain : Handler.plain ∘ Handler.plain = Handler.plain :=
  funext Handler.plain_plain

@[simp] theorem DispatcherPhase.plain_plain (d : DispatcherPhase) : d.plain.plain = d.plain := by
  cases d <;> rfl

@[simp] theorem WorkerPhase.plain_plain (phase : WorkerPhase) : phase.plain.plain = phase.plain := by
  cases phase with
  | finished result => cases result <;> simp [WorkerPhase.plain]
  | _ => simp [WorkerPhase.plain]

@[simp] theorem Worker.plain_plain (w : Worker) : w.plain.plain = w.plain := by
  simp [Worker.plain]

@[simp] theorem Worker.plain_comp_plain : Worker.plain ∘ Worker.plain = Worker.plain :=
  funext Worker.plain_plain

@[simp] theorem Worker.plain_new (job : Job) : Worker.plain { job := job } = { job := job.plain } := rfl

@[simp] theorem State.plain_plain (s : State) : s.plain.plain = s.plain := by
  simp [State.plain]

/-! ## One step -/

section

variable {cfg : Config} {s : State}

theorem State.plain_setHandler (s : State) (i : ℕ) (h : Handler) :
    (s.setHandler i h).plain = s.plain.setHandler i h.plain := by
  simp [State.setHandler, State.plain, List.map_set]

theorem State.plain_setWorker (s : State) (j : ℕ) (w : Worker) :
    (s.setWorker j w).plain = s.plain.setWorker j w.plain := by
  simp [State.setWorker, State.plain, List.map_set]

theorem State.plain_record (s : State) (i : ℕ) (op : MetricOp) (h : Handler) :
    (s.record i op h).plain = s.plain.record i op h.plain := by
  simp [State.record, State.plain, List.map_set]

theorem State.plain_releasePermit (s : State) : s.releasePermit.plain = s.plain.releasePermit := rfl

theorem State.plain_onChannel (s : State) (i : ℕ) {f g : Oneshot → Oneshot}
    (hfg : ∀ ch : Oneshot, (f ch).plain = g ch.plain) :
    (s.onChannel i f).plain = s.plain.onChannel i g := by
  have hcomm : ∀ h : Handler, Handler.plain { h with channel := f h.channel } =
      { h.plain with channel := g h.plain.channel } := by
    intro h
    simp [Handler.plain, hfg]
  simp only [State.onChannel, State.plain]
  congr 1
  apply List.ext_getElem?
  intro k
  simp only [List.getElem?_map, List.getElem?_modify]
  cases s.handlers[k]? with
  | none => rfl
  | some h =>
    by_cases hk : i = k
    · simp [hk, hcomm]
    · simp [hk]

/-- A handler step looks the same whether the ids and the front end are taken away before it or after
it. -/
theorem plain_handlerStep (i : ℕ) (h : Handler) (a : HandlerAction) :
    (handlerStep cfg s i h a).map State.plain =
      (handlerStep cfg s.plain i h.plain a.plain).map State.plain := by
  rw [handlerStep_eq, handlerStep_eq]
  obtain ⟨call, phase, channel, stamped, awaited⟩ := h
  cases a with
  | validate fresh =>
    cases phase with
    | validating =>
      simp only [frontEndStep, Handler.plain, HandlerPhase.plain, HandlerAction.plain,
        InferCall.plain_model]
      rw [show s.plain.registry = s.registry from rfl]
      split
      · simp [State.plain_setHandler, Handler.plain, HandlerPhase.plain]
      · simp [State.plain_setHandler, Handler.plain, HandlerPhase.plain]
    | _ => rfl
  | trySend =>
    cases phase with
    | enqueueing requestId =>
      simp only [frontEndStep, Handler.plain, HandlerPhase.plain, HandlerAction.plain]
      rw [show s.plain.queue.length = s.queue.length from List.length_map _]
      split
      · simp [State.plain, State.setHandler, Handler.plain, HandlerPhase.plain, Job.plain, List.map_set]
      · simp [State.plain, State.setHandler, Handler.plain, HandlerPhase.plain, List.map_set]
    | _ => rfl
  | record =>
    cases phase with
    | beginning requestId pending =>
      cases pending with
      | nil =>
        simp [frontEndStep, State.plain_setHandler, Handler.plain, HandlerPhase.plain, HandlerAction.plain]
      | cons op ops =>
        simp [frontEndStep, State.plain_record, Handler.plain, HandlerPhase.plain, HandlerAction.plain]
    | finishing pending reply =>
      cases pending with
      | nil =>
        simp [frontEndStep, State.plain_setHandler, Handler.plain, HandlerPhase.plain, HandlerAction.plain]
      | cons op ops =>
        simp [frontEndStep, State.plain_record, Handler.plain, HandlerPhase.plain, HandlerAction.plain]
    | _ => rfl
  | poll elapsedMs =>
    cases phase with
    | waiting requestId =>
      simp only [frontEndStep, Handler.plain, HandlerPhase.plain, HandlerAction.plain, Oneshot.plain_poll]
      cases channel.poll with
      | none => rfl
      | some r =>
        simp [State.plain_setHandler, Handler.resume, Handler.plain, HandlerPhase.plain]
    | _ => rfl
  | elapse =>
    cases phase with
    | waiting requestId =>
      simp only [frontEndStep, Handler.plain, HandlerPhase.plain, HandlerAction.plain, Oneshot.plain_poll]
      cases channel.poll with
      | none =>
        simp [State.plain_setHandler, Handler.resume, Handler.plain, HandlerPhase.plain]
      | some r => rfl
    | _ => rfl
  | drop =>
    cases phase with
    | waiting requestId =>
      simp [frontEndStep, State.plain_setHandler, Handler.plain, HandlerPhase.plain, HandlerAction.plain]
    | _ => rfl

theorem plain_dispatcherStep (s : State) :
    (dispatcherStep s).map State.plain = (dispatcherStep s.plain).map State.plain := by
  obtain ⟨registry, queue, pool, dispatcher, workers, handlers, metrics, accepted, rejected, coreCalls,
    recorded⟩ := s
  cases dispatcher with
  | receiving =>
    cases queue with
    | nil => rfl
    | cons job rest => simp [dispatcherStep, State.plain, DispatcherPhase.plain]
  | resizing job => simp [dispatcherStep, State.plain, DispatcherPhase.plain]
  | publishing job pending =>
    cases pending with
    | nil => simp [dispatcherStep, State.plain, DispatcherPhase.plain]
    | cons op ops => simp [dispatcherStep, State.plain, DispatcherPhase.plain]
  | acquiring job =>
    simp only [dispatcherStep, State.plain, DispatcherPhase.plain]
    cases pool.semaphore.acquire? with
    | none => rfl
    | some semaphore => simp [State.plain, DispatcherPhase.plain]
  | spawning job => simp [dispatcherStep, State.plain, DispatcherPhase.plain]

theorem plain_workerStep (j : ℕ) (w : Worker) (a : WorkerAction) :
    (workerStep cfg s j w a).map State.plain =
      (workerStep cfg s.plain j w.plain a).map State.plain := by
  obtain ⟨job, phase, coreReply⟩ := w
  have hsend (result : JobResult) (t : State) (i : ℕ) : (t.onChannel i fun ch => ch.send result).plain =
      t.plain.onChannel i fun ch => ch.send (plainResult result) :=
    t.plain_onChannel i fun ch => ch.plain_send result
  have hpanic : ∀ w w' : Worker, w.plain = w'.plain →
      ((s.setWorker j w).onChannel job.responseTx Oneshot.dropSender).plain =
        ((s.plain.setWorker j w').onChannel job.responseTx Oneshot.dropSender).plain := by
    intro w w' hw
    rw [State.plain_onChannel _ _ Oneshot.plain_dropSender,
      State.plain_onChannel _ _ Oneshot.plain_dropSender, State.plain_setWorker, State.plain_setWorker,
      State.plain_plain, hw]
  cases a with
  | start =>
    cases phase with
    | spawned =>
      simp [workerStep, State.plain, State.setWorker, Worker.plain, WorkerPhase.plain, List.map_set,
        Job.plain]
    | _ => rfl
  | coreReturns reply =>
    cases phase with
    | calling =>
      simp [workerStep, State.plain_setWorker, Worker.plain, WorkerPhase.plain, Job.plain,
        plainResult_callInferenceCore]
    | _ => rfl
  | deliver =>
    cases phase with
    | returned result =>
      simp only [workerStep, Worker.plain, WorkerPhase.plain, Option.map_some]
      rw [hsend, hsend, State.plain_setWorker, State.plain_setWorker, State.plain_plain,
        plainResult_plainResult]
      simp [Worker.plain, WorkerPhase.plain, Job.plain]
    | _ => rfl
  | panic =>
    cases phase with
    | spawned => exact congrArg some (hpanic _ _ (by simp [Worker.plain, WorkerPhase.plain]))
    | calling => exact congrArg some (hpanic _ _ (by simp [Worker.plain, WorkerPhase.plain]))
    | returned result => exact congrArg some (hpanic _ _ (by simp [Worker.plain, WorkerPhase.plain]))
    | _ => rfl
  | release =>
    cases phase with
    | delivered result =>
      simp [workerStep, State.plain_setWorker, State.plain_releasePermit, Worker.plain, WorkerPhase.plain]
    | panicked =>
      simp [workerStep, State.plain_setWorker, State.plain_releasePermit, Worker.plain, WorkerPhase.plain]
    | _ => rfl

/-- The ids and the front ends of a state and an action play no part in the step. -/
theorem plain_step (s : State) (a : Action) :
    (step cfg s a).map State.plain = (step cfg s.plain a.plain).map State.plain := by
  cases a with
  | arrive call => simp [step, State.plain, Action.plain, Handler.plain, HandlerPhase.plain, Oneshot.plain]
  | handler i a =>
    have hget : s.plain.handlers[i]? = (s.handlers[i]?).map Handler.plain := List.getElem?_map
    simp only [step, Action.plain, hget]
    cases s.handlers[i]? with
    | none => rfl
    | some h => exact plain_handlerStep i h a
  | dispatcher => exact plain_dispatcherStep s
  | worker j a =>
    have hget : s.plain.workers[j]? = (s.workers[j]?).map Worker.plain := List.getElem?_map
    simp only [step, Action.plain, hget]
    cases s.workers[j]? with
    | none => rfl
    | some w => exact plain_workerStep j w a
  | syncRegistry models aliases =>
    simp only [step, Action.plain]
    split
    · simp [State.plain]
    · rfl

theorem plain_step_congr {s s' : State} {a a' : Action} (hs : s.plain = s'.plain)
    (ha : a.plain = a'.plain) :
    ((gateway cfg).step s a).map State.plain = ((gateway cfg).step s' a').map State.plain := by
  show (step cfg s a).map State.plain = (step cfg s' a').map State.plain
  rw [plain_step s a, plain_step s' a', hs, ha]

end

end InferenceGateway.Gateway
