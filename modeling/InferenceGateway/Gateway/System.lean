import InferenceGateway.Common.Transition
import InferenceGateway.Gateway.Handlers
import InferenceGateway.Gateway.Registry
import InferenceGateway.Gateway.WorkerPool

/-! # The gateway as a transition system

Reference: `main.rs` (`infer_handler`, `dispatcher_loop`, the worker task) and `grpc.rs`
(`GrpcInferenceService::infer`).

The parties are the infer handlers (one for each request, HTTP or gRPC), the single dispatcher and the
worker tasks; they share the bounded job queue, the worker pool, the metrics and the model registry.
A step is one access of one party to something shared: an operation on the queue or on a oneshot
channel, one atomic metric operation, one call of the pool. What a party computes between two such
accesses is part of the step. Any interleaving of the steps is a run.

`reconfigure` is one step: only the dispatcher writes the pool's counter, and nobody reads it between
the permit change and the `compare_exchange`.
-/

namespace InferenceGateway.Gateway

open Common

/-- The configuration of a gateway process and the third-party functions it calls. -/
structure Config where
  minWorkers : ℕ
  maxConcurrency : ℕ
  queueCapacity : ℕ
  requestTimeoutSecs : ℕ
  coreProtocol : CoreProtocol
  uuid : UuidCrate
  decoder : CoreDecoder

/-! ## Parties and shared objects -/

/-- A `tokio::sync::oneshot` channel: the value sent and not taken by a dropped receiver, and whether
each end still exists. -/
structure Oneshot where
  value : Option JobResult := none
  txAlive : Bool := true
  rxAlive : Bool := true

namespace Oneshot

/-- `Sender::send`, which consumes the sender; the value is lost if the receiver is gone. -/
def send (ch : Oneshot) (result : JobResult) : Oneshot :=
  { ch with value := if ch.rxAlive then some result else ch.value, txAlive := false }

/-- Dropping the sender without sending. -/
def dropSender (ch : Oneshot) : Oneshot := { ch with txAlive := false }

/-- Dropping the receiver. -/
def dropReceiver (ch : Oneshot) : Oneshot := { ch with rxAlive := false }

/-- Polling the receiver; `none` while it is pending. -/
def poll (ch : Oneshot) : Option Awaited :=
  match ch.value with
  | some result => some (.result result)
  | none => if ch.txAlive then none else some .senderDropped

end Oneshot

/-- `Job`. The sender half of the oneshot channel is named by the index of the handler that made the
channel. -/
structure Job where
  request : InferRequest
  responseTx : ℕ

/-- Where an infer handler stands. -/
inductive HandlerPhase
  /-- About to check the model name. -/
  | validating
  /-- The job is built; about to `try_send` it. -/
  | enqueueing (requestId : String)
  /-- Inside `begin_request`. -/
  | beginning (requestId : String) (pending : List MetricOp)
  /-- At the await on the worker's response. -/
  | waiting (requestId : String)
  /-- Inside the metrics update that precedes the answer. -/
  | finishing (pending : List MetricOp) (reply : Reply)
  /-- Returned its answer. -/
  | done (reply : Reply)
  /-- The handler future was dropped at its await. -/
  | dropped

/-- An infer handler. `channel` is the oneshot pair it makes for its job; `stamped` and `awaited` keep
the id it put on the job and what its await returned. -/
structure Handler where
  call : InferCall
  phase : HandlerPhase := .validating
  channel : Oneshot := {}
  stamped : Option String := none
  awaited : Option Awaited := none

/-- Where the dispatcher stands in its loop. -/
inductive DispatcherPhase
  /-- In `recv`. -/
  | receiving
  /-- Received a job; about to `reconfigure`. -/
  | resizing (job : Job)
  /-- Inside `set_pool_workers`. -/
  | publishing (job : Job) (pending : List MetricOp)
  /-- In `acquire`. -/
  | acquiring (job : Job)
  /-- Holds a permit; about to spawn the worker. -/
  | spawning (job : Job)

/-- Where a worker task stands. It holds its permit until it is `finished`. -/
inductive WorkerPhase
  /-- Spawned and not polled yet. -/
  | spawned
  /-- Inside `call_inference_core`. -/
  | calling
  /-- The call returned; about to send the result. -/
  | returned (result : JobResult)
  /-- Sent the result, to a receiver or into the void; about to drop the permit. -/
  | delivered (result : JobResult)
  /-- Unwinding: the sender is dropped, the permit not yet. -/
  | panicked
  /-- The task is gone; `none` after a panic. -/
  | finished (result : Option JobResult)

/-- A worker task, with what the core answered to its call. -/
structure Worker where
  job : Job
  phase : WorkerPhase := .spawned
  coreReply : Option CoreReply := none

/-- The whole gateway. Handlers and workers are listed in the order of their creation and stay listed
when they end. The last four fields are history and are read by no step. -/
structure State where
  registry : ModelRegistry
  queue : List Job
  pool : AdaptiveWorkerPool
  dispatcher : DispatcherPhase
  workers : List Worker
  handlers : List Handler
  metrics : Metrics
  /-- Handlers whose job `try_send` accepted, in that order. -/
  accepted : List ℕ
  /-- Handlers whose job `try_send` rejected. -/
  rejected : List ℕ
  /-- Invocations of `call_inference_core`: the job's handler and the request. -/
  coreCalls : List (ℕ × InferRequest)
  /-- Metric operations performed by handlers. -/
  recorded : List (ℕ × MetricOp)

namespace State

/-- Replace handler `i`. -/
def setHandler (s : State) (i : ℕ) (h : Handler) : State := { s with handlers := s.handlers.set i h }

/-- Replace worker `j`. -/
def setWorker (s : State) (j : ℕ) (w : Worker) : State := { s with workers := s.workers.set j w }

/-- Handler `i` performs a metric operation and becomes `h`. -/
def record (s : State) (i : ℕ) (op : MetricOp) (h : Handler) : State :=
  { s with
    metrics := s.metrics.apply op
    recorded := s.recorded ++ [(i, op)]
    handlers := s.handlers.set i h }

/-- Change the oneshot channel of handler `i` from the worker's side. -/
def onChannel (s : State) (i : ℕ) (f : Oneshot → Oneshot) : State :=
  { s with handlers := s.handlers.modify i fun h => { h with channel := f h.channel } }

/-- A permit is returned to the semaphore. -/
def releasePermit (s : State) : State :=
  { s with pool := { s.pool with semaphore := s.pool.semaphore.release } }

end State

/-! ## Actions -/

/-- The steps of an infer handler. -/
inductive HandlerAction
  /-- Check the model and build the job, with the UUID that `new_v4` would give. -/
  | validate (fresh : Uuid)
  /-- `try_send`. -/
  | trySend
  /-- The next atomic operation of the pending metrics update, or its end. -/
  | record
  /-- The await returns because the channel is ready, after `elapsedMs`. -/
  | poll (elapsedMs : UInt64)
  /-- The await returns because the timer fired. -/
  | elapse
  /-- The client is gone and the handler future is dropped. -/
  | drop

/-- The steps of a worker task. -/
inductive WorkerAction
  | start
  | coreReturns (reply : CoreReply)
  | deliver
  | panic
  | release

/-- One step of the gateway or of its environment. -/
inductive Action
  | arrive (call : InferCall)
  | handler (i : ℕ) (a : HandlerAction)
  | dispatcher
  | worker (j : ℕ) (a : WorkerAction)
  | syncRegistry (models : List ModelInfo) (aliases : List String)

/-! ## Steps -/

/-- A step of `infer_handler` on `call`, as handler `i`, which is `h`. -/
def inferHandlerStep (cfg : Config) (s : State) (i : ℕ) (h : Handler) (call : HttpInferCall) :
    HandlerAction → Option State
  | .validate fresh =>
    match h.phase with
    | .validating =>
      if s.registry.contains call.payload.model then
        let requestId := InferHandler.resolveRequestId cfg.uuid call fresh
        some (s.setHandler i { h with phase := .enqueueing requestId, stamped := some requestId })
      else
        some (s.setHandler i
          { h with
            phase := .finishing Metrics.noteValidationError
              (.http (InferHandler.unknownModel call.payload)) })
    | _ => none
  | .trySend =>
    match h.phase with
    | .enqueueing requestId =>
      if s.queue.length < cfg.queueCapacity then
        some
          { s.setHandler i { h with phase := .beginning requestId Metrics.beginRequest } with
            queue := s.queue ++ [{ request := InferHandler.jobRequest call requestId, responseTx := i }]
            accepted := s.accepted ++ [i] }
      else
        -- The job comes back in the error and is dropped with its sender; the early return drops
        -- the receiver.
        some
          { s.setHandler i
              { h with
                phase := .finishing Metrics.noteQueueFull (.http (InferHandler.queueFull requestId))
                channel := h.channel.dropSender.dropReceiver } with
            rejected := s.rejected ++ [i] }
    | _ => none
  | .record =>
    match h.phase with
    | .beginning requestId (op :: ops) =>
      some (s.record i op { h with phase := .beginning requestId ops })
    | .beginning requestId [] => some (s.setHandler i { h with phase := .waiting requestId })
    | .finishing (op :: ops) reply => some (s.record i op { h with phase := .finishing ops reply })
    | .finishing [] reply => some (s.setHandler i { h with phase := .done reply })
    | _ => none
  | .poll elapsedMs =>
    match h.phase with
    | .waiting requestId =>
      match h.channel.poll with
      | some awaited =>
        let (pending, response) :=
          InferHandler.finish cfg.requestTimeoutSecs requestId elapsedMs awaited
        some (s.setHandler i
          { h with
            phase := .finishing pending (.http response)
            channel := h.channel.dropReceiver
            awaited := some awaited })
      | none => none
    | _ => none
  | .elapse =>
    match h.phase with
    | .waiting requestId =>
      -- `timeout` polls the receiver first, so the timer only counts while that is pending.
      match h.channel.poll with
      | some _ => none
      | none =>
        let (pending, response) := InferHandler.finish cfg.requestTimeoutSecs requestId 0 .elapsed
        some (s.setHandler i
          { h with
            phase := .finishing pending (.http response)
            channel := h.channel.dropReceiver
            awaited := some .elapsed })
    | _ => none
  | .drop =>
    match h.phase with
    | .waiting _ =>
      some (s.setHandler i { h with phase := .dropped, channel := h.channel.dropReceiver })
    | _ => none

/-- A step of `GrpcInferenceService::infer` on `protoReq`, as handler `i`, which is `h`. -/
def grpcInferStep (cfg : Config) (s : State) (i : ℕ) (h : Handler) (protoReq : ProtoInferReq) :
    HandlerAction → Option State
  | .validate fresh =>
    match h.phase with
    | .validating =>
      if s.registry.contains protoReq.model then
        let requestId := GrpcInfer.resolveRequestId cfg.uuid protoReq fresh
        some (s.setHandler i { h with phase := .enqueueing requestId, stamped := some requestId })
      else
        some (s.setHandler i
          { h with
            phase := .finishing Metrics.noteValidationError
              (.grpc (GrpcInfer.unknownModel protoReq)) })
    | _ => none
  | .trySend =>
    match h.phase with
    | .enqueueing requestId =>
      if s.queue.length < cfg.queueCapacity then
        some
          { s.setHandler i { h with phase := .beginning requestId Metrics.beginRequest } with
            queue := s.queue ++ [{ request := GrpcInfer.jobRequest protoReq requestId, responseTx := i }]
            accepted := s.accepted ++ [i] }
      else
        some
          { s.setHandler i
              { h with
                phase := .finishing Metrics.noteQueueFull (.grpc GrpcInfer.queueFull)
                channel := h.channel.dropSender.dropReceiver } with
            rejected := s.rejected ++ [i] }
    | _ => none
  | .record =>
    match h.phase with
    | .beginning requestId (op :: ops) =>
      some (s.record i op { h with phase := .beginning requestId ops })
    | .beginning requestId [] => some (s.setHandler i { h with phase := .waiting requestId })
    | .finishing (op :: ops) reply => some (s.record i op { h with phase := .finishing ops reply })
    | .finishing [] reply => some (s.setHandler i { h with phase := .done reply })
    | _ => none
  | .poll elapsedMs =>
    match h.phase with
    | .waiting _ =>
      match h.channel.poll with
      | some awaited =>
        let (pending, reply) := GrpcInfer.finish cfg.requestTimeoutSecs elapsedMs awaited
        some (s.setHandler i
          { h with
            phase := .finishing pending (.grpc reply)
            channel := h.channel.dropReceiver
            awaited := some awaited })
      | none => none
    | _ => none
  | .elapse =>
    match h.phase with
    | .waiting _ =>
      match h.channel.poll with
      | some _ => none
      | none =>
        let (pending, reply) := GrpcInfer.finish cfg.requestTimeoutSecs 0 .elapsed
        some (s.setHandler i
          { h with
            phase := .finishing pending (.grpc reply)
            channel := h.channel.dropReceiver
            awaited := some .elapsed })
    | _ => none
  | .drop =>
    match h.phase with
    | .waiting _ =>
      some (s.setHandler i { h with phase := .dropped, channel := h.channel.dropReceiver })
    | _ => none

/-- A step of handler `i`, which is `h`: the call came in over one of the two front ends. -/
def handlerStep (cfg : Config) (s : State) (i : ℕ) (h : Handler) (a : HandlerAction) : Option State :=
  match h.call with
  | .http call => inferHandlerStep cfg s i h call a
  | .grpc protoReq => grpcInferStep cfg s i h protoReq a

/-- A step of `dispatcher_loop`. -/
def dispatcherStep (s : State) : Option State :=
  match s.dispatcher with
  | .receiving =>
    match s.queue with
    | job :: rest => some { s with queue := rest, dispatcher := .resizing job }
    | [] => none
  | .resizing job =>
    let (pool, poolSize) := s.pool.reconfigure s.queue.length
    some
      { s with
        pool := pool
        dispatcher := .publishing job (Metrics.setPoolWorkers poolSize pool.maxSize) }
  | .publishing job (op :: ops) =>
    some { s with metrics := s.metrics.apply op, dispatcher := .publishing job ops }
  | .publishing job [] => some { s with dispatcher := .acquiring job }
  | .acquiring job =>
    s.pool.semaphore.acquire?.map fun semaphore =>
      { s with pool := { s.pool with semaphore := semaphore }, dispatcher := .spawning job }
  | .spawning job =>
    some { s with workers := s.workers ++ [{ job := job }], dispatcher := .receiving }

/-- A step of worker `j`, which is `w`. -/
def workerStep (cfg : Config) (s : State) (j : ℕ) (w : Worker) : WorkerAction → Option State
  | .start =>
    match w.phase with
    | .spawned =>
      some
        { s.setWorker j { w with phase := .calling } with
          coreCalls := s.coreCalls ++ [(w.job.responseTx, w.job.request)] }
    | _ => none
  | .coreReturns reply =>
    match w.phase with
    | .calling =>
      let result := callInferenceCore cfg.decoder cfg.coreProtocol w.job.request reply
      some (s.setWorker j { w with phase := .returned result, coreReply := some reply })
    | _ => none
  | .deliver =>
    match w.phase with
    | .returned result =>
      some ((s.setWorker j { w with phase := .delivered result }).onChannel w.job.responseTx
        fun ch => ch.send result)
    | _ => none
  | .panic =>
    match w.phase with
    | .spawned | .calling | .returned _ =>
      some ((s.setWorker j { w with phase := .panicked }).onChannel w.job.responseTx
        Oneshot.dropSender)
    | _ => none
  | .release =>
    match w.phase with
    | .delivered result => some (s.setWorker j { w with phase := .finished (some result) }).releasePermit
    | .panicked => some (s.setWorker j { w with phase := .finished none }).releasePermit
    | _ => none

/-- One step of the gateway. -/
def step (cfg : Config) (s : State) : Action → Option State
  | .arrive call => some { s with handlers := s.handlers ++ [{ call := call }] }
  | .handler i a => (s.handlers[i]?).bind fun h => handlerStep cfg s i h a
  | .dispatcher => dispatcherStep s
  | .worker j a => (s.workers[j]?).bind fun w => workerStep cfg s j w a
  | .syncRegistry models aliases =>
    -- The sync task only exists in llama-chat mode.
    if cfg.coreProtocol = .llamaChat then
      some { s with registry := ModelRegistry.replaceAll models aliases }
    else none

/-- The state in which `main` starts the dispatcher and the servers. -/
def initState (cfg : Config) : State :=
  let pool := AdaptiveWorkerPool.new cfg.minWorkers cfg.maxConcurrency
  { registry := ModelRegistry.default
    queue := []
    pool := pool
    dispatcher := .receiving
    workers := []
    handlers := []
    metrics := (Metrics.setPoolWorkers pool.currentSize pool.maxSize).foldl Metrics.apply {}
    accepted := []
    rejected := []
    coreCalls := []
    recorded := [] }

/-- The gateway as a transition system. -/
def gateway (cfg : Config) : System State Action where
  init s := s = initState cfg
  step := step cfg

end InferenceGateway.Gateway
