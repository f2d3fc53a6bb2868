import InferenceGateway.Gateway.Plain

/-! # Two front ends, one gateway

A request has the same effect on the gateway over HTTP and over gRPC, whatever else is going on, and the
core is asked the same for it. The one thing in which the two handlers differ before the answer is where
they take the id of the job from: the HTTP handler from a header, the gRPC handler from the request itself.
So an id in the body of an HTTP request is lost.
-/

namespace InferenceGateway.Gateway

open Common

variable {cfg : Config} {s : State}

/-! ## Runs with another front end -/

/-- Two calls with the same model, input and options. -/
structure InferCall.SameRequest (call call' : InferCall) : Prop where
  model : call.request.model = call'.request.model
  input : call.request.input = call'.request.input
  options : call.request.options = call'.request.options

theorem InferCall.SameRequest.plain_eq {call call' : InferCall} (h : call.SameRequest call') :
    call.plain = call'.plain := by
  simp only [InferCall.plain, InferRequest.plain, h.model, h.input, h.options]

/-- An action and the one that takes its place when some requests come in over another front end or with
another id. -/
inductive Action.Replaced : Action → Action → Prop
  | arrive {call call' : InferCall} (h : call.SameRequest call') :
      Replaced (.arrive call) (.arrive call')
  | validate (i : ℕ) (fresh fresh' : Uuid) :
      Replaced (.handler i (.validate fresh)) (.handler i (.validate fresh'))
  | same (a : Action) : Replaced a a

theorem Action.Replaced.plain_eq {a a' : Action} (h : a.Replaced a') : a.plain = a'.plain := by
  cases h with
  | arrive h => exact congrArg Action.arrive h.plain_eq
  | validate i fresh fresh' => rfl
  | same a => rfl

/-- The status under which a handler ended. -/
def Handler.exitStatus (h : Handler) : Option UInt16 :=
  match h.phase with
  | .done reply => some reply.httpStatus
  | _ => none

theorem Handler.plain_exitStatus (h : Handler) : h.plain.exitStatus = h.exitStatus := by
  obtain ⟨call, phase, channel, stamped, awaited⟩ := h
  cases phase <;> rfl

/-- The queues agree up to the ids of their jobs, the metrics agree, and the handlers that have answered
did so under corresponding codes. -/
structure State.Agrees (s s' : State) : Prop where
  queue : s.queue.map Job.plain = s'.queue.map Job.plain
  metrics : s.metrics = s'.metrics
  exits : s.handlers.map Handler.exitStatus = s'.handlers.map Handler.exitStatus

theorem State.agrees_of_plain_eq {s s' : State} (h : s.plain = s'.plain) : s.Agrees s' := by
  have hexit : Handler.exitStatus ∘ Handler.plain = Handler.exitStatus :=
    funext Handler.plain_exitStatus
  constructor
  · show s.plain.queue = s'.plain.queue
    rw [h]
  · show s.plain.metrics = s'.plain.metrics
    rw [h]
  · have hhandlers : s.handlers.map Handler.plain = s'.handlers.map Handler.plain := by
      show s.plain.handlers = s'.plain.handlers
      rw [h]
    have hmap := congrArg (List.map Handler.exitStatus) hhandlers
    rwa [List.map_map, List.map_map, hexit] at hmap

theorem map_plain_of_replaced {as as' : List Action} (has : List.Forall₂ Action.Replaced as as') :
    as.map Action.plain = as'.map Action.plain := by
  induction has with
  | nil => rfl
  | cons h _ ih => rw [List.map_cons, List.map_cons, h.plain_eq, ih]

/-- With some requests replaced, a run stays a run, to a state that is the same without the front ends. -/
theorem exists_run_of_replaced {as as' : List Action} (has : List.Forall₂ Action.Replaced as as')
    (hrun : (gateway cfg).run (initState cfg) as = some s) :
    ∃ s', (gateway cfg).run (initState cfg) as' = some s' ∧ s.plain = s'.plain := by
  have hlook : ((gateway cfg).run (initState cfg) as).map State.plain =
      ((gateway cfg).run (initState cfg) as').map State.plain :=
    System.run_map_congr (fun _ _ _ _ hs ha => plain_step_congr hs ha) rfl (map_plain_of_replaced has)
  rw [hrun, Option.map_some, eq_comm, Option.map_eq_some_iff] at hlook
  obtain ⟨s', hs', hplain⟩ := hlook
  exact ⟨s', hs', hplain.symm⟩

/-- Requests may come in over the other front end: every run stays a run, and after each number of steps
the two states agree. -/
theorem front_ends_agree (cfg : Config) {as as' : List Action}
    (has : List.Forall₂ Action.Replaced as as') {t : State}
    (hrun : (gateway cfg).run (initState cfg) as = some t) (k : ℕ) :
    ∃ s s', (gateway cfg).run (initState cfg) (as.take k) = some s ∧
      (gateway cfg).run (initState cfg) (as'.take k) = some s' ∧ s.Agrees s' := by
  obtain ⟨s, hs⟩ := System.exists_run_take hrun k
  obtain ⟨s', hs', hplain⟩ := exists_run_of_replaced (List.forall₂_take k has) hs
  exact ⟨s, s', hs, hs', State.agrees_of_plain_eq hplain⟩

/-- The served request of a run, and the same run with that request over gRPC. -/
def servedRun (call : InferCall) : List Action :=
  submit 0 call ++ recordOps 0 3 ++ dispatch 7 ++ serve 0 (.sendFailed "connection refused")
    ++ [.handler 0 (.poll 7)] ++ recordOps 0 6

/-- A request that the core cannot serve, over HTTP and over gRPC. -/
theorem front_ends_agree_served :
    ∃ s s', (gateway (scenarioConfig 1 1 .infer silentDecoder)).run
        (initState (scenarioConfig 1 1 .infer silentDecoder)) (servedRun httpCall) = some s ∧
      (gateway (scenarioConfig 1 1 .infer silentDecoder)).run
        (initState (scenarioConfig 1 1 .infer silentDecoder)) (servedRun grpcCall) = some s' ∧
      s.Agrees s' ∧ s.handlers.map Handler.exitStatus = [some 500] := by
  have hreplaced : List.Forall₂ Action.Replaced (servedRun httpCall) (servedRun grpcCall) :=
    .cons (.arrive ⟨rfl, rfl, rfl⟩) (List.forall₂_same.mpr fun a _ => .same a)
  have hexit : ((gateway (scenarioConfig 1 1 .infer silentDecoder)).run
      (initState (scenarioConfig 1 1 .infer silentDecoder)) (servedRun httpCall)).map
        (fun s => s.handlers.map Handler.exitStatus) = some [some 500] := by
    decide +kernel
  obtain ⟨t, ht, hstatus⟩ := Option.map_eq_some_iff.mp hexit
  obtain ⟨s, s', hs, hs', hagrees⟩ :=
    front_ends_agree (scenarioConfig 1 1 .infer silentDecoder) hreplaced ht (servedRun httpCall).length
  rw [List.take_length, ht, Option.some.injEq] at hs
  subst hs
  exact ⟨t, s', ht, hs', hagrees, hstatus⟩

/-! ## What the core is asked -/

/-- A request to the core without the id of its job, which only the body of `call_infer_protocol` has. -/
def CoreRequest.plain (request : CoreRequest) : CoreRequest :=
  match request.body with
  | .infer req => { request with body := .infer req.plain }
  | .chat _ => request

/-- The requests that were sent to the core, in their order. -/
def State.asked (cfg : Config) (coreUrl : String) (s : State) : List CoreRequest :=
  s.coreCalls.map fun call => coreRequest coreUrl cfg.coreProtocol call.2

/-- Without the ids, what is sent for a job is what is sent for the job without its id. -/
theorem coreRequest_plain (coreUrl : String) (protocol : CoreProtocol) (req : InferRequest) :
    (coreRequest coreUrl protocol req).plain = (coreRequest coreUrl protocol req.plain).plain := by
  cases protocol <;> rfl

/-- A body of `call_llama_chat_protocol` has no id. -/
theorem coreRequest_llamaChat_plain (coreUrl : String) (req : InferRequest) :
    (coreRequest coreUrl .llamaChat req).plain = coreRequest coreUrl .llamaChat req := rfl

theorem State.map_plain_asked (cfg : Config) (coreUrl : String) (s : State) :
    (s.asked cfg coreUrl).map CoreRequest.plain = (s.plain.asked cfg coreUrl).map CoreRequest.plain := by
  simp only [State.asked, State.plain, List.map_map]
  exact List.map_congr_left fun call _ => coreRequest_plain coreUrl cfg.coreProtocol call.2

/-- Requests may come in over the other front end: the core is asked the same, in the same order, up to the
ids of the jobs, and without exception if it is a chat server. -/
theorem core_asked_alike (cfg : Config) (coreUrl : String) {as as' : List Action}
    (has : List.Forall₂ Action.Replaced as as') {t : State}
    (hrun : (gateway cfg).run (initState cfg) as = some t) :
    ∃ t', (gateway cfg).run (initState cfg) as' = some t' ∧
      (t.asked cfg coreUrl).map CoreRequest.plain = (t'.asked cfg coreUrl).map CoreRequest.plain ∧
      (cfg.coreProtocol = .llamaChat → t.asked cfg coreUrl = t'.asked cfg coreUrl) := by
  obtain ⟨t', ht', hplain⟩ := exists_run_of_replaced has hrun
  have hasked : (t.asked cfg coreUrl).map CoreRequest.plain = (t'.asked cfg coreUrl).map CoreRequest.plain := by
    rw [t.map_plain_asked, hplain, ← t'.map_plain_asked]
  refine ⟨t', ht', hasked, fun hcfg => ?_⟩
  have hfixed (s : State) : (s.asked cfg coreUrl).map CoreRequest.plain = s.asked cfg coreUrl := by
    rw [State.asked, hcfg, List.map_map]
    exact List.map_congr_left fun call _ => coreRequest_llamaChat_plain coreUrl call.2
  rw [← hfixed t, hasked, hfixed t']

/-- What a chat server is sent for a greeting. -/
def chatGreeting : CoreRequest where
  url := "http://127.0.0.1:8080/v1/chat/completions"
  body := .chat
    { model := "llama-7b"
      messages := [{ role := "user", content := "Hello world" }]
      maxTokens := none
      temperature := none
      topP := none }

/-- A chat server is asked the same for the greeting over HTTP and over gRPC. -/
theorem core_asked_alike_served :
    ∃ t, (gateway (scenarioConfig 1 1 .llamaChat silentDecoder)).run
        (initState (scenarioConfig 1 1 .llamaChat silentDecoder)) (servedRun grpcCall) = some t ∧
      t.asked (scenarioConfig 1 1 .llamaChat silentDecoder) "http://127.0.0.1:8080/" = [chatGreeting] := by
  have hreplaced : List.Forall₂ Action.Replaced (servedRun httpCall) (servedRun grpcCall) :=
    .cons (.arrive ⟨rfl, rfl, rfl⟩) (List.forall₂_same.mpr fun a _ => .same a)
  have hcalled : ((gateway (scenarioConfig 1 1 .llamaChat silentDecoder)).run
      (initState (scenarioConfig 1 1 .llamaChat silentDecoder)) (servedRun httpCall)).map
        (State.asked (scenarioConfig 1 1 .llamaChat silentDecoder) "http://127.0.0.1:8080/") =
      some [chatGreeting] := by
    decide +kernel
  obtain ⟨s, hs, hasked⟩ := Option.map_eq_some_iff.mp hcalled
  obtain ⟨t, ht, -, hsame⟩ :=
    core_asked_alike (scenarioConfig 1 1 .llamaChat silentDecoder) "http://127.0.0.1:8080/" hreplaced hs
  exact ⟨t, ht, (hsame rfl).symm.trans hasked⟩

/-! ## The job of a request -/

/-- A request over HTTP, without an `x-request-id` header. -/
def InferRequest.overHttp (req : InferRequest) : InferCall :=
  .http { xRequestId := none, payload := req }

/-- The request over gRPC, where an id that is not sent is the empty string. -/
def InferRequest.overGrpc (req : InferRequest) : InferCall :=
  .grpc
    { model := req.model
      input := req.input
      options := req.options.map fun o =>
        { maxTokens := o.maxTokens, temperature := o.temperature, topP := o.topP }
      requestId := req.requestId.getD "" }

/-- A request arrives as the next handler and gets as far as `try_send`. -/
def enter (s : State) (call : InferCall) (fresh : Uuid) : List Action :=
  [.arrive call, .handler s.handlers.length (.validate fresh), .handler s.handlers.length .trySend]

/-- The request puts `job` behind the queue. -/
def Enqueues (cfg : Config) (s : State) (call : InferCall) (fresh : Uuid) (job : Job) : Prop :=
  ∃ t, (gateway cfg).run s (enter s call fresh) = some t ∧ t.queue = s.queue ++ [job]

/-- If the model is known and the queue has room, the request is enqueued under the id that its handler
resolves. -/
theorem run_enter {call : InferCall} (fresh : Uuid) (hmodel : s.registry.contains call.model = true)
    (hroom : s.queue.length < cfg.queueCapacity) :
    ∃ t, (gateway cfg).run s (enter s call fresh) = some t ∧
      t.queue = s.queue ++
        [{ request := call.jobRequest (call.resolveRequestId cfg.uuid fresh)
           responseTx := s.handlers.length }] := by
  simp [enter, System.run_cons, System.runIf, gateway, step, handlerStep_eq, frontEndStep, State.setHandler,
    hmodel, hroom]

theorem enqueues_iff (call : InferCall) (fresh : Uuid) (job : Job)
    (hmodel : s.registry.contains call.model = true) (hroom : s.queue.length < cfg.queueCapacity) :
    Enqueues cfg s call fresh job ↔
      job = { request := call.jobRequest (call.resolveRequestId cfg.uuid fresh)
              responseTx := s.handlers.length } := by
  obtain ⟨t, hrun, hqueue⟩ := run_enter fresh hmodel hroom
  constructor
  · rintro ⟨t', hrun', hqueue'⟩
    rw [hrun, Option.some.injEq] at hrun'
    rw [← hrun', hqueue, List.append_cancel_left_eq, List.singleton_inj] at hqueue'
    exact hqueue'.symm
  · rintro rfl
    exact ⟨t, hrun, hqueue⟩

/-- The client sent an id with the request. -/
def InferRequest.SuppliesId (req : InferRequest) : Prop := ∃ id, req.requestId = some id ∧ id ≠ ""

/-- Both front ends enqueue the same job for a request, but for a fresh UUID in place of an id that the
client did not send. -/
def SameJobs (cfg : Config) (s : State) (req : InferRequest) : Prop :=
  ∀ fresh fresh', ∃ job job',
    Enqueues cfg s req.overHttp fresh job ∧ Enqueues cfg s req.overGrpc fresh' job' ∧
      job.request.model = job'.request.model ∧ job.request.input = job'.request.input ∧
      job.request.options = job'.request.options ∧
      (req.SuppliesId → job.request.requestId = job'.request.requestId) ∧
      (¬ req.SuppliesId → job.request.requestId = some (cfg.uuid.toString fresh) ∧
        job'.request.requestId = some (cfg.uuid.toString fresh'))

/-- Over HTTP, the job gets a fresh UUID whatever the body says. -/
theorem enqueues_overHttp_iff {req : InferRequest} {fresh : Uuid} {job : Job}
    (hmodel : s.registry.contains req.model = true) (hroom : s.queue.length < cfg.queueCapacity) :
    Enqueues cfg s req.overHttp fresh job ↔
      job = { request := { req with requestId := some (cfg.uuid.toString fresh) }
              responseTx := s.handlers.length } :=
  enqueues_iff req.overHttp fresh job hmodel hroom

/-- Over gRPC, the job gets the client's id if there is one. -/
theorem enqueues_overGrpc_iff {req : InferRequest} {fresh : Uuid} {job : Job}
    (hmodel : s.registry.contains req.model = true) (hroom : s.queue.length < cfg.queueCapacity) :
    Enqueues cfg s req.overGrpc fresh job ↔
      job =
        { request :=
            { req with
              requestId := some (if (req.requestId.getD "").isEmpty then cfg.uuid.toString fresh
                else req.requestId.getD "") }
          responseTx := s.handlers.length } := by
  have hoptions : ((req.options.map
      fun o => (⟨o.maxTokens, o.temperature, o.topP⟩ : ProtoInferOptions)).map
      fun o => (⟨o.maxTokens, o.temperature, o.topP⟩ : InferOptions)) = req.options := by
    cases req.options <;> rfl
  have hrequest (requestId : String) : req.overGrpc.jobRequest requestId =
      { req with requestId := some requestId } :=
    congrArg (fun options => (⟨req.model, req.input, options, some requestId⟩ : InferRequest)) hoptions
  have hiff := enqueues_iff req.overGrpc fresh job hmodel hroom
  rw [hrequest] at hiff
  exact hiff

/-- In a state with the model known and room in the queue, both front ends enqueue the same job exactly if
the client sent no id, or an empty one. -/
theorem sameJobs_iff (cfg : Config) {s : State} {req : InferRequest}
    (hmodel : s.registry.contains req.model = true) (hroom : s.queue.length < cfg.queueCapacity)
    (huuid : ∃ u v, cfg.uuid.toString u ≠ cfg.uuid.toString v) :
    SameJobs cfg s req ↔ req.requestId = none ∨ req.requestId = some "" := by
  have hsupplies : ¬ req.SuppliesId ↔ req.requestId = none ∨ req.requestId = some "" := by
    unfold InferRequest.SuppliesId
    cases req.requestId <;> simp
  rw [← hsupplies]
  constructor
  · intro hsame hid
    -- The HTTP handler stamps any fresh UUID, the gRPC handler the one id of the client.
    have hstamp (fresh : Uuid) : cfg.uuid.toString fresh = req.requestId.getD "" := by
      obtain ⟨job, job', hjob, hjob', -, -, -, hequal, -⟩ := hsame fresh 0
      have hids := hequal hid
      rw [(enqueues_overHttp_iff hmodel hroom).mp hjob, (enqueues_overGrpc_iff hmodel hroom).mp hjob']
        at hids
      obtain ⟨id, hsome, hne⟩ := hid
      rw [hsome, Option.getD_some, if_neg (by simpa using hne)] at hids
      rw [hsome]
      exact Option.some.inj hids
    obtain ⟨u, v, huv⟩ := huuid
    exact huv ((hstamp u).trans (hstamp v).symm)
  · intro hid fresh fresh'
    have hempty : (req.requestId.getD "").isEmpty = true := by
      rcases hsupplies.mp hid with h | h <;> rw [h] <;> rfl
    refine ⟨_, _, (enqueues_overHttp_iff hmodel hroom).mpr rfl,
      (enqueues_overGrpc_iff hmodel hroom).mpr rfl, rfl, rfl, rfl, fun h => absurd h hid,
      fun _ => ⟨rfl, ?_⟩⟩
    rw [if_pos hempty]

/-- A request with an id of its own. -/
def taggedRequest : InferRequest where
  model := "llama-7b"
  input := "hi"
  options := none
  requestId := some "req-1"

/-- Before any other request, a request without an id. -/
theorem sameJobs_iff_untagged :
    SameJobs (scenarioConfig 1 1 .infer silentDecoder) (initState (scenarioConfig 1 1 .infer silentDecoder))
      { taggedRequest with requestId := none } :=
  (sameJobs_iff (scenarioConfig 1 1 .infer silentDecoder) (by decide +kernel) (by decide +kernel)
    ⟨0, 1, by decide +kernel⟩).mpr (.inl rfl)

/-- The id `req-1` in the body of an HTTP request is lost. -/
theorem http_loses_client_id :
    (∀ fresh job, Enqueues (scenarioConfig 1 1 .infer silentDecoder)
        (initState (scenarioConfig 1 1 .infer silentDecoder)) taggedRequest.overHttp fresh job →
      job.request.requestId = some (canonicalUuid fresh)) ∧
    (∀ fresh job, Enqueues (scenarioConfig 1 1 .infer silentDecoder)
        (initState (scenarioConfig 1 1 .infer silentDecoder)) taggedRequest.overGrpc fresh job →
      job.request.requestId = some "req-1") ∧
    ¬ SameJobs (scenarioConfig 1 1 .infer silentDecoder)
      (initState (scenarioConfig 1 1 .infer silentDecoder)) taggedRequest := by
  have hmodel : (initState (scenarioConfig 1 1 .infer silentDecoder)).registry.contains
      taggedRequest.model = true := by decide +kernel
  have hroom : (initState (scenarioConfig 1 1 .infer silentDecoder)).queue.length <
      (scenarioConfig 1 1 .infer silentDecoder).queueCapacity := by decide +kernel
  refine ⟨fun fresh job h => ?_, fun fresh job h => ?_, fun hsame => ?_⟩
  · rw [(enqueues_overHttp_iff hmodel hroom).mp h]
    rfl
  · rw [(enqueues_overGrpc_iff hmodel hroom).mp h]
    exact congrArg some (if_neg (by decide +kernel))
  · obtain ⟨job, job', hjob, hjob', -, -, -, hequal, -⟩ := hsame 0 0
    have hids := hequal ⟨"req-1", rfl, by decide⟩
    rw [(enqueues_overHttp_iff hmodel hroom).mp hjob, (enqueues_overGrpc_iff hmodel hroom).mp hjob'] at hids
    exact absurd hids (by decide +kernel)

end InferenceGateway.Gateway
