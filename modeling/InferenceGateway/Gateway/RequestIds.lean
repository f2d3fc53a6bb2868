import InferenceGateway.Gateway.Correlation
import InferenceGateway.Gateway.Wire

/-! # The request id of a gRPC reply

Both front ends stamp an id on the job, and both protocols send it to the core. The HTTP handler and the
llama-chat protocol overwrite whatever id comes back; the gRPC handler and the infer protocol pass it on.
So a gRPC reply over the infer protocol carries the id that the core chose to return.
-/

namespace InferenceGateway.Gateway

open Common

variable {cfg : Config} {s : State}

/-- The `InferResponse` in a successful reply of the core. -/
def CoreReply.Returned (decoder : CoreDecoder) (reply : CoreReply) (coreResp : InferResponse) : Prop :=
  ∃ r body, reply = .response r ∧ r.isSuccess = true ∧ r.bytes = .ok body ∧
    decoder.inferResponse body = .ok coreResp

/-- The infer protocol passes on the response of the core. -/
theorem callInferProtocol_eq_ok {decoder : CoreDecoder} {reply : CoreReply} {resp : InferResponse}
    (h : callInferProtocol decoder reply = .ok resp) : reply.Returned decoder resp := receive_eq_ok h

theorem CoreReply.Returned.unique {decoder : CoreDecoder} {reply : CoreReply} {resp resp' : InferResponse}
    (h : reply.Returned decoder resp) (h' : reply.Returned decoder resp') : resp = resp' := by
  obtain ⟨r, body, rfl, -, hbody, hdecode⟩ := h
  obtain ⟨r', body', hr, -, hbody', hdecode'⟩ := h'
  cases hr
  rw [hbody] at hbody'
  cases hbody'
  rw [hdecode] at hdecode'
  exact Except.ok.inj hdecode'

/-- An answer with a response is the gRPC handler's answer to a result that it awaited. -/
private theorem InferCall.Answers.grpc_ok {call : InferCall} {stamped : Option String}
    {awaited : Option Awaited} {resp : ProtoInferResp} {op : MetricOp}
    (h : call.Answers cfg stamped awaited (.grpc (.ok resp)) op) :
    ∃ inferResp, awaited = some (.result (.ok inferResp)) ∧ resp = responseToProto inferResp := by
  generalize hreply : Reply.grpc (.ok resp) = reply at h
  cases h with
  | unknownModel => cases call <;> cases hreply
  | queueFull requestId => cases call <;> cases hreply
  | served requestId awaited =>
    cases call with
    | http call => cases hreply
    | grpc protoReq =>
      rcases awaited with (err | inferResp) | _ | _
      · cases hreply
      · cases hreply
        exact ⟨inferResp, rfl, rfl⟩
      · cases hreply
      · cases hreply

/-- In every reachable state, a gRPC reply with a response carries the id that the gateway stamped on the
job if and only if the protocol is llama-chat or the response that the core returned to the worker of this
very job carries it. -/
theorem grpc_reply_carries_id_iff (cfg : Config) {s : State} (hs : (gateway cfg).Reachable s) {i : ℕ}
    {h : Handler} (hi : s.handlers[i]? = some h) {resp : ProtoInferResp}
    (hdone : h.phase = .done (.grpc (.ok resp))) :
    ∃ (requestId : String) (j : ℕ) (w : Worker) (reply : CoreReply),
      h.stamped = some requestId ∧ s.workers[j]? = some w ∧
      w.job = { request := h.call.jobRequest requestId, responseTx := i } ∧
      w.coreReply = some reply ∧
      (resp.requestId = requestId ↔ cfg.coreProtocol = .llamaChat ∨
        ∃ coreResp : InferResponse, reply.Returned cfg.decoder coreResp ∧
          coreResp.requestId = requestId) := by
  obtain ⟨op, hanswers, -⟩ := answers_of_done hs hi hdone
  obtain ⟨inferResp, ha, rfl⟩ := hanswers.grpc_ok
  obtain ⟨requestId, hid⟩ := ((answersInv_of_reachable hs).accounted i h hi).exists_stamped ha
  obtain ⟨j, w, reply, hj, hjob, hreply, hresult⟩ := origin_of_awaited hs hi hid ha
  refine ⟨requestId, j, w, reply, hid, hj, hjob, hreply, ?_⟩
  have hcarried : (responseToProto inferResp).requestId = inferResp.requestId := rfl
  rw [hcarried]
  cases hprotocol : cfg.coreProtocol with
  | llamaChat =>
    rw [hprotocol] at hresult
    have := callInferenceCore_llamaChat_requestId hresult.symm
    rw [InferCall.jobRequest_requestId, Option.getD_some] at this
    exact ⟨fun _ => .inl rfl, fun _ => this⟩
  | infer =>
    rw [hprotocol] at hresult
    have hreturned := callInferProtocol_eq_ok hresult.symm
    refine ⟨fun h => .inr ⟨inferResp, hreturned, h⟩, fun h => ?_⟩
    obtain ⟨coreResp, hcore, hcarries⟩ := h.resolve_left (by decide)
    rw [hreturned.unique hcore, hcarries]

/-! ## An id of the core -/

/-- The id a gRPC handler stamped and the id it replied with, if it replied with a response. -/
def Handler.grpcIds (h : Handler) : Option (String × String) :=
  match h.stamped, h.phase with
  | some requestId, .done (.grpc (.ok resp)) => some (requestId, resp.requestId)
  | _, _ => none

theorem Handler.grpcIds_eq_some {h : Handler} {stamped replied : String}
    (hids : h.grpcIds = some (stamped, replied)) :
    ∃ resp, h.phase = .done (.grpc (.ok resp)) ∧ h.stamped = some stamped ∧ resp.requestId = replied := by
  unfold Handler.grpcIds at hids
  split at hids
  · rename_i hstamped hdone
    cases hids
    exact ⟨_, hdone, hstamped, rfl⟩
  · cases hids

/-- The decoder of the wire format, with the text of `reqwest` for a body that does not decode. -/
def wireDecoder : CoreDecoder where
  inferResponse body :=
    match decodeInferResponse body with
    | some resp => .ok resp
    | none => .error "error decoding response body"
  llamaChatResponse _ := .error "error decoding response body"

/-- The reply of a core to the prompt `hi`, with the given id. -/
def replyWithId (requestId : String) : CoreReply :=
  .response
    { status := 200
      statusText := "200 OK"
      text := none
      bytes := .ok (utf8 (Json.compact (.obj
        [("request_id", .str requestId), ("model", .str "llama-7b"), ("output", .str "HI"),
         ("usage", .obj [("latency_ms", .num (Numeral.ofNat 5)), ("tokens", .num (Numeral.ofNat 32))]),
         ("status", .str "ok")]))) }

/-- A gRPC request that sends an id of its own. -/
def taggedCall : InferCall :=
  .grpc { model := "llama-7b", input := "hi", options := none, requestId := "req-1" }

/-- The run in which this request is served over the infer protocol. -/
def taggedRun (reply : CoreReply) : List Action :=
  submit 0 taggedCall ++ dispatch 7 ++ recordOps 0 3 ++ serve 0 reply ++ [.handler 0 (.poll 7)]
    ++ recordOps 0 6

/-- A core that echoes the id of the request. -/
theorem grpc_reply_carries_id_echo :
    ∃ (s : State) (h : Handler) (resp : ProtoInferResp) (reply : CoreReply) (coreResp : InferResponse),
      (gateway (scenarioConfig 1 1 .infer wireDecoder)).Reachable s ∧ s.handlers[0]? = some h ∧
      h.phase = .done (.grpc (.ok resp)) ∧ resp.requestId = "req-1" ∧
      reply.Returned wireDecoder coreResp ∧ coreResp.requestId = "req-1" := by
  obtain ⟨s, hs, hrun⟩ :=
    (reachable_init (scenarioConfig 1 1 .infer wireDecoder)).exists_of_run
      (fun s => (s.handlers[0]?.bind Handler.grpcIds) = some ("req-1", "req-1"))
      (taggedRun (replyWithId "req-1")) (by decide +kernel)
  obtain ⟨h, hi, hids⟩ := Option.bind_eq_some_iff.mp hrun
  obtain ⟨resp, hdone, hstamped, hid⟩ := Handler.grpcIds_eq_some hids
  obtain ⟨requestId, j, w, reply, hstamped', -, -, -, hiff⟩ := grpc_reply_carries_id_iff _ hs hi hdone
  rw [hstamped] at hstamped'
  cases hstamped'
  obtain ⟨coreResp, hreturned, hcarries⟩ := (hiff.mp hid).resolve_left (by decide)
  exact ⟨s, h, resp, reply, coreResp, hs, hi, hdone, hid, hreturned, hcarries⟩

/-- The C++ core returns an id of its own, and the client that sent `req-1` is answered with that. -/
theorem grpc_reply_carries_core_id :
    ∃ s h resp, (gateway (scenarioConfig 1 1 .infer wireDecoder)).Reachable s ∧
      s.handlers[0]? = some h ∧ h.stamped = some "req-1" ∧ h.phase = .done (.grpc (.ok resp)) ∧
      resp.requestId = "cpp-1700000000000" := by
  obtain ⟨s, hs, hrun⟩ :=
    (reachable_init (scenarioConfig 1 1 .infer wireDecoder)).exists_of_run
      (fun s => (s.handlers[0]?.bind Handler.grpcIds) = some ("req-1", "cpp-1700000000000"))
      (taggedRun (replyWithId "cpp-1700000000000")) (by decide +kernel)
  obtain ⟨h, hi, hids⟩ := Option.bind_eq_some_iff.mp hrun
  obtain ⟨resp, hdone, hstamped, hid⟩ := Handler.grpcIds_eq_some hids
  exact ⟨s, h, resp, hs, hi, hstamped, hdone, hid⟩

end InferenceGateway.Gateway
