import InferenceGateway.Gateway.Delivery
import InferenceGateway.Wire.Deployment

/-! # From a prompt to its answer

What holds of the gateway in front of the core in every run. A successful answer is computed by the core on
the prompt of the very client that gets it, though perhaps on a part of it, since the core does not wait for a
body that is not announced in its spelling. Where the HTTP client announces the body so, the answer says what
the core computes on the whole prompt.

There is one core for all, and it ends with the first exception. A `max_tokens` above the range of `int` is
such an end, and nobody who comes later is served.
-/

namespace InferenceGateway.Wire

open Common InferenceGateway.Core Gateway

variable {printer : F32Printer} {cfg : Config} {lib : StdFloat} {reader : ResponseReader}
  {d e : Deployment printer}

/-! ## Whose answer it is -/

/-- A worker whose call brought a response made the call over an exchange of its own, and the response is what
the core answered there. -/
theorem exchange_of_success (hinfer : cfg.coreProtocol = .infer)
    (hd : (deployment printer cfg lib reader).Reachable d) {j : ℕ} {w : Worker} {reply : CoreReply}
    (hj : d.state.workers[j]? = some w) (hreply : w.coreReply = some reply) {resp : InferResponse}
    (hresp : callInferenceCore cfg.decoder cfg.coreProtocol w.job.request reply = .ok resp) :
    ∃ (k : ℕ) (x : Exchange printer) (payload : StdString), d.exchanges[k]? = some (some x) ∧ x.worker = j ∧
      x.request = w.job.request ∧ x.Infers lib payload ∧ cfg.decoder.inferResponse payload = .ok resp := by
  have hlinked := linked_of_reachable hd
  rw [hinfer] at hresp
  obtain ⟨r, body, rfl, -, hbytes, hdecode⟩ := receive_eq_ok hresp
  rcases hlinked.answered j w _ hj hreply with hlacks | ⟨k, x, payload, hx, rfl, hinfers, hread⟩
  · rw [CoreReply.lacksBody, hbytes] at hlacks
    cases hlacks
  · have hline : bytes "HTTP/1.1 200 OK\r\n" = bytes "HTTP/1.1 200 OK" ++ crlf := by decide +kernel
    rw [hline] at hread
    obtain rfl := reader.body_eq .ok hread.symm hbytes
    obtain ⟨w', hw', hrequest⟩ := hlinked.called k x hx
    rw [hj] at hw'
    cases hw'
    exact ⟨k, x, body, hx, rfl, hrequest.symm, hinfers, hdecode⟩

/-- What a handler was told is the core's answer to its own request. -/
theorem exchange_of_awaited (hinfer : cfg.coreProtocol = .infer)
    (hd : (deployment printer cfg lib reader).Reachable d) {i : ℕ} {h : Handler}
    (hi : d.state.handlers[i]? = some h) {resp : InferResponse} (ha : h.awaited = some (.result (.ok resp))) :
    ∃ (requestId : String) (k j : ℕ) (x : Exchange printer) (w : Worker) (payload : StdString),
      h.stamped = some requestId ∧ d.exchanges[k]? = some (some x) ∧ x.worker = j ∧
      d.state.workers[j]? = some w ∧ w.job = { request := h.call.jobRequest requestId, responseTx := i } ∧
      x.request = h.call.jobRequest requestId ∧ x.Infers lib payload ∧
      cfg.decoder.inferResponse payload = .ok resp := by
  have hs := state_reachable hd
  obtain ⟨requestId, hid⟩ := ((answersInv_of_reachable hs).accounted i h hi).exists_stamped ha
  obtain ⟨j, w, reply, hj, hjob, hreply, hresp⟩ := origin_of_awaited hs hi hid ha
  rw [← show w.job.request = h.call.jobRequest requestId by rw [hjob]] at hresp
  obtain ⟨k, x, payload, hx, hworker, hrequest, hinfers, hdecode⟩ :=
    exchange_of_success hinfer hd hj hreply hresp.symm
  exact ⟨requestId, k, j, x, w, payload, hid, hx, hworker, hj, hjob, by rw [hrequest, hjob], hinfers, hdecode⟩

/-! ### A prompt on its way -/

/-- An HTTP client that hands out what stands behind the header block, and tells the status 200 from others. -/
def plainReader : ResponseReader where
  read sent :=
    match after headerEnd sent with
    | none => .sendFailed "error sending request for url"
    | some body =>
      .response
        { status := if bytes "HTTP/1.1 200 " <+: sent then 200 else 400
          statusText := if bytes "HTTP/1.1 200 " <+: sent then "200 OK" else "400 Bad Request"
          text := none
          bytes := .ok body }
  body_eq hstatus hread hbytes := by
    rw [after_headerEnd_response hstatus.not_mem] at hread
    cases hread
    exact (Except.ok.inj hbytes).symm

/-- A gateway in front of this core. -/
def promptConfig : Config := scenarioConfig 2 2 .infer wireDecoder

theorem deployment_init (printer : F32Printer) (cfg : Config) (lib : StdFloat) (reader : ResponseReader) :
    (deployment printer cfg lib reader).Reachable { state := initState cfg } := .init rfl

/-- A request for more tokens than an `int` can count. -/
def oversizedRequest : InferRequest where
  model := "llama-7b"
  input := "Hello world"
  options := some { maxTokens := some 2147483648, temperature := none, topP := none }
  requestId := none

@[inherit_doc oversizedRequest]
def oversizedMessage : FramedRequest where
  block := bytes "POST /infer HTTP/1.1\r\nContent-Length: 128"
  body := inferRequestBody halfPrinter oversizedRequest
  ends := by decide +kernel
  cap := by decide +kernel
  size := by decide +kernel

/-- A step leaves the jobs of the workers as they are. -/
theorem worker_of_step {a : DeploymentAction printer}
    (h : (deployment printer cfg lib reader).step d a = some e) {j : ℕ} {w : Worker}
    (hj : d.state.workers[j]? = some w) : ∃ w', e.state.workers[j]? = some w' ∧ w'.job = w.job := by
  have hgateway {a : Action} {s : State} (h : (gateway cfg).step d.state a = some s) :
      ∃ w', s.workers[j]? = some w' ∧ w'.job = w.job := by
    obtain ⟨w', hj', he⟩ := (step_eq_some_iff.mp h).workers_evolve j w hj
    exact ⟨w', hj', he.job⟩
  cases Deployment.Step.of_step h with
  | gateway _ hs => exact hgateway hs
  | respond _ _ _ hs => exact hgateway hs
  | core | visit | connect | send => exact ⟨w, hj, rfl⟩

/-- A core that has ended takes no more connections. -/
theorem ended_of_step {a : DeploymentAction printer}
    (h : (deployment printer cfg lib reader).step d a = some e) (hended : d.process.killed.isSome = true) :
    e.process = d.process ∧ e.exchanges = d.exchanges := by
  have hnone {a : CoreAction} {p : Process} (hp : (serveForever lib).step d.process a = some p) : False := by
    rw [(Process.Step.of_step hp).1] at hended
    cases hended
  cases Deployment.Step.of_step h with
  | gateway | respond => exact ⟨rfl, rfl⟩
  | core _ hp => exact (hnone hp).elim
  | visit hp => exact (hnone hp).elim
  | connect _ _ _ hp => exact (hnone hp).elim
  | send _ _ hp => exact (hnone hp).elim

/-- Once the core has ended, no request that comes to the gateway gets a response of it, whatever happens. -/
theorem ended_core_serves_no_newcomer (hinfer : cfg.coreProtocol = .infer)
    (hd : (deployment printer cfg lib reader).Reachable d) (hended : d.process.killed.isSome = true)
    {as : List (DeploymentAction printer)} (hrun : (deployment printer cfg lib reader).run d as = some e)
    {i : ℕ} (hnew : d.state.handlers.length ≤ i) {h : Handler} (hi : e.state.handlers[i]? = some h)
    (resp : InferResponse) : h.awaited ≠ some (.result (.ok resp)) := by
  intro ha
  obtain ⟨requestId, k, j, x, w, payload, -, hx, rfl, hj, hjob, -⟩ :=
    exchange_of_awaited hinfer (hd.run hrun) hi ha
  have hkept := System.run_preserves (P := fun u : Deployment printer =>
    (u.process.killed.isSome = true ∧ u.exchanges = d.exchanges) ∧
      ∀ (j : ℕ) (w : Worker), d.state.workers[j]? = some w →
        ∃ w', u.state.workers[j]? = some w' ∧ w'.job = w.job)
    (fun u a v hu h => ?_) ⟨⟨hended, rfl⟩, fun j w hj => ⟨w, hj, rfl⟩⟩ hrun
  · -- The exchange is an old one, so its worker had the job of the new handler before there was one.
    obtain ⟨⟨-, hexchanges⟩, hworkers⟩ := hkept
    rw [hexchanges] at hx
    obtain ⟨v, hv, -⟩ := (linked_of_reachable hd).called k x hx
    obtain ⟨w', hw', hjob'⟩ := hworkers x.worker v hv
    rw [hj] at hw'
    cases hw'
    obtain ⟨h', id, hi', -⟩ := ownJob_of_worker (state_reachable hd) hv
    rw [← hjob', hjob] at hi'
    exact absurd (List.getElem?_eq_some_iff.mp hi').1 (Nat.not_lt.mpr hnew)
  · obtain ⟨⟨hkilled, hexchanges⟩, hworkers⟩ := hu
    obtain ⟨hprocess, hsame⟩ := ended_of_step h hkilled
    refine ⟨⟨by rw [hprocess, hkilled], hsame.trans hexchanges⟩, fun j w hj => ?_⟩
    obtain ⟨w', hw', hjob'⟩ := hworkers j w hj
    obtain ⟨w'', hw'', hjob''⟩ := worker_of_step h hw'
    exact ⟨w'', hw'', hjob''.trans hjob'⟩

/-- The run in which a stranger ends the core. -/
def endingRun : List (DeploymentAction halfPrinter) :=
  [.visit, .core (.arrive 0 oversizedMessage.stream), .core (.recv 0 173), .core (.compute 0 7),
    .core (.compute 0 7)]

/-- The run in which a client comes then. -/
def newcomerRun : List (DeploymentAction halfPrinter) :=
  (submit 0 httpCall ++ dispatch 7 ++ recordOps 0 3 ++ serve 0 (.sendFailed "error sending request for url")
    ++ [Action.handler 0 (.poll 7)] ++ recordOps 0 6).map .gateway

/-- The client is answered, but not with a response. -/
theorem ended_core_serves_no_newcomer_hello :
    ∃ e h, (deployment halfPrinter promptConfig halfFloat plainReader).Reachable e ∧
      e.state.handlers[0]? = some h ∧ h.ended = true ∧
      ∀ resp, h.awaited ≠ some (.result (.ok resp)) := by
  obtain ⟨d, hd, hended, hnone, hserved⟩ :=
    (deployment_init halfPrinter promptConfig halfFloat plainReader).exists_of_run
      (fun d => d.process.killed.isSome = true ∧ d.state.handlers.length = 0 ∧
        (((deployment halfPrinter promptConfig halfFloat plainReader).run d newcomerRun).bind fun e =>
          e.state.handlers[0]?).any Handler.ended = true) endingRun (by decide +kernel)
  obtain ⟨hsome, hdone⟩ := (Option.any_eq_true_iff_get _ _).mp hserved
  obtain ⟨e, hrun, hi⟩ := Option.bind_eq_some_iff.mp (Option.eq_some_of_isSome hsome)
  exact ⟨e, _, hd.run hrun, hi, hdone, fun resp =>
    ended_core_serves_no_newcomer rfl hd hended hrun hnone.le hi resp⟩

end InferenceGateway.Wire
