import InferenceGateway.Gateway.Traceability

/-! # The model name that reaches the core

The registry compares names without regard to ASCII case, and what is forwarded is the name as the client
wrote it. So through every run the core is asked for the client's own string, and that string is a name
which the core advertised in the snapshot at the check, up to ASCII case and no closer than that.
-/

namespace InferenceGateway.Gateway

open Common

variable {cfg : Config} {s t : State}

/-- The name is an id or an alias of the list, up to ASCII case. -/
def Advertised (models : List ModelInfo) (aliases : List String) (name : String) : Prop :=
  (∃ model ∈ models, EqIgnoreAsciiCase name model.name) ∨ ∃ other ∈ aliases, EqIgnoreAsciiCase name other

/-- The core is called with the requests that the handlers built. -/
theorem ownJob_of_coreCall (h : (gateway cfg).Reachable s) :
    ∀ call ∈ s.coreCalls, s.OwnJob { request := call.2, responseTx := call.1 } := by
  refine gateway_invariant
    (I := fun s => ∀ call ∈ s.coreCalls, s.OwnJob { request := call.2, responseTx := call.1 })
    (by simp [initState]) ?_ h
  intro s a t hr hi _ hs call hcall
  rcases hs.coreCalls_eq with he | ⟨j, w, hj, -, he, -⟩
  · exact hs.ownJob (hi call (he ▸ hcall))
  · rw [he, List.mem_append, List.mem_singleton] at hcall
    rcases hcall with hcall | rfl
    · exact hs.ownJob (hi call hcall)
    · exact hs.ownJob (ownJob_of_worker hr hj)

/-- Neither front end touches the model name. -/
theorem InferCall.jobRequest_model (call : InferCall) (requestId : String) :
    (call.jobRequest requestId).model = call.model := by
  cases call <;> rfl

/-- Whatever happens after a handler has checked its model against a snapshot, the core is only called for
this handler if the name passed, and then with the client's own string, which is up to ASCII case a name of
the snapshot. -/
theorem forwarded_model_advertised (cfg : Config) {s t : State} (hs : (gateway cfg).Reachable s)
    {models : List ModelInfo} {aliases : List String}
    (hregistry : s.registry = .replaceAll models aliases) {i : ℕ} {h : Handler}
    (hi : s.handlers[i]? = some h) (hp : h.phase = .validating) {fresh : Uuid} {as : List Action}
    (hrun : (gateway cfg).run s (.handler i (.validate fresh) :: as) = some t) {request : InferRequest}
    (hcall : (i, request) ∈ t.coreCalls) (coreUrl : String) :
    ∃ body, (llamaChatProtocolRequest coreUrl request).body = .chat body ∧
      body.model = h.call.model ∧ Advertised models aliases body.model := by
  obtain ⟨h', requestId, hi', -, hstamped, hrequest⟩ := ownJob_of_coreCall (hs.run hrun) _ hcall
  obtain ⟨hsame, hid⟩ := stamped_of_run hs hi hp hrun hi'
  have hmodel : request.model = h.call.model := by
    rw [show request = h'.call.jobRequest requestId from hrequest, InferCall.jobRequest_model, hsame]
  refine ⟨_, rfl, hmodel, ?_⟩
  -- A handler whose name did not pass has stamped no id and so has no job.
  have hcontains : s.registry.contains h.call.model = true := by
    by_contra hnot
    rw [if_neg hnot, hstamped] at hid
    cases hid
  rw [hregistry, ModelRegistry.contains_replaceAll] at hcontains
  show Advertised models aliases request.model
  rw [hmodel]
  exact hcontains

/-! ## A name in another case -/

/-- What llama-server lists for the model of the static registry, spelled as its file is. -/
def listedModel : ModelInfo where
  name := "Qwen2.5-0.5B-Instruct"
  status := "loaded"
  device := "gpu0"
  backend := "llama.cpp-cuda"

/-- A gateway that has synchronised its registry and received a request for `model`. -/
def syncedState (cfg : Config) (model : String) : State :=
  { initState cfg with
    registry := .replaceAll [listedModel] []
    handlers := [{ call := .http (greeting model) }] }

theorem reachable_syncedState {cfg : Config} (hcfg : cfg.coreProtocol = .llamaChat) (model : String) :
    (gateway cfg).Reachable (syncedState cfg model) := by
  refine .step (a := .arrive (.http (greeting model))) ?_ trivial rfl
    (s := { initState cfg with registry := .replaceAll [listedModel] [] })
  refine .step (a := .syncRegistry [listedModel] []) (reachable_init cfg) trivial ?_
  show (if cfg.coreProtocol = .llamaChat then _ else none) = _
  rw [if_pos hcfg]

/-- The rest of the run, up to the call of the core. -/
def untilCalled : List Action :=
  .handler 0 .trySend :: (dispatch 7 ++ [.worker 0 .start])

/-- The request of its job. -/
def forwarded (model : String) : InferRequest :=
  { (greeting model).payload with requestId := some (canonicalUuid 7) }

/-- The listed spelling. -/
theorem forwarded_model_advertised_listed :
    ∃ body, (llamaChatProtocolRequest "http://127.0.0.1:8080" (forwarded "Qwen2.5-0.5B-Instruct")).body =
        .chat body ∧ body.model = "Qwen2.5-0.5B-Instruct" ∧ Advertised [listedModel] [] body.model := by
  have hcalled : ((gateway (scenarioConfig 1 1 .llamaChat silentDecoder)).run
      (syncedState (scenarioConfig 1 1 .llamaChat silentDecoder) "Qwen2.5-0.5B-Instruct")
      (.handler 0 (.validate 7) :: untilCalled)).map State.coreCalls =
      some [(0, forwarded "Qwen2.5-0.5B-Instruct")] := by
    decide +kernel
  obtain ⟨t, hrun, hcalls⟩ := Option.map_eq_some_iff.mp hcalled
  exact forwarded_model_advertised _ (reachable_syncedState rfl "Qwen2.5-0.5B-Instruct") rfl rfl rfl hrun
    (by rw [hcalls]; exact List.mem_cons_self) "http://127.0.0.1:8080"

/-- A request in lower case passes the check, and the core is asked for a name that it did not list. -/
theorem forwarded_model_not_listed :
    ∃ t body, (gateway (scenarioConfig 1 1 .llamaChat silentDecoder)).Reachable
        (syncedState (scenarioConfig 1 1 .llamaChat silentDecoder) "qwen2.5-0.5b-instruct") ∧
      (ModelRegistry.replaceAll [listedModel] []).contains "qwen2.5-0.5b-instruct" = true ∧
      (gateway (scenarioConfig 1 1 .llamaChat silentDecoder)).run
        (syncedState (scenarioConfig 1 1 .llamaChat silentDecoder) "qwen2.5-0.5b-instruct")
        (.handler 0 (.validate 7) :: untilCalled) = some t ∧
      t.coreCalls = [(0, forwarded "qwen2.5-0.5b-instruct")] ∧
      (llamaChatProtocolRequest "http://127.0.0.1:8080" (forwarded "qwen2.5-0.5b-instruct")).body =
        .chat body ∧
      body.model ∉ [listedModel].map ModelInfo.name := by
  have hcalled : ((gateway (scenarioConfig 1 1 .llamaChat silentDecoder)).run
      (syncedState (scenarioConfig 1 1 .llamaChat silentDecoder) "qwen2.5-0.5b-instruct")
      (.handler 0 (.validate 7) :: untilCalled)).map State.coreCalls =
      some [(0, forwarded "qwen2.5-0.5b-instruct")] := by
    decide +kernel
  obtain ⟨t, hrun, hcalls⟩ := Option.map_eq_some_iff.mp hcalled
  exact ⟨t, _, reachable_syncedState rfl _, by decide +kernel, hrun, hcalls, rfl, by decide +kernel⟩

end InferenceGateway.Gateway
