import InferenceGateway.Gateway.Delivery

/-! # The request id of an HTTP response

The HTTP handler settles the id of a request when it has found the model in the registry: from then on the
id is fixed, through every interleaving, and each of the later exits puts it on its response. The exit
before that, for an unknown model, puts none, and the placeholder for a response without a JSON value has
no member for it.
-/

namespace InferenceGateway.Gateway

open Common

variable {cfg : Config} {s t : State} {a : Action}

/-! ## The id of a request -/

/-- The `x-request-id` header of a request holds the UUID. -/
def HttpInferCall.Sends (uuid : UuidCrate) (call : HttpInferCall) (u : Uuid) : Prop :=
  ∃ value text, call.xRequestId = some value ∧ headerToStr value = some text ∧ uuid.parseStr text = some u

/-- The id that a request is to have: the canonical form of the UUID it sends, else the fresh one. -/
structure HttpInferCall.OwnId (uuid : UuidCrate) (call : HttpInferCall) (fresh : Uuid) (id : String) :
    Prop where
  sent : ∀ u, call.Sends uuid u → id = uuid.toString u
  generated : (∀ u, ¬ call.Sends uuid u) → id = uuid.toString fresh

theorem HttpInferCall.sends_iff {uuid : UuidCrate} {call : HttpInferCall} {u : Uuid} :
    call.Sends uuid u ↔ (call.xRequestId.bind headerToStr).bind uuid.parseStr = some u := by
  rw [Option.bind_eq_some_iff]
  constructor
  · rintro ⟨value, text, hvalue, htext, hu⟩
    exact ⟨text, Option.bind_eq_some_iff.mpr ⟨value, hvalue, htext⟩, hu⟩
  · rintro ⟨text, htext, hu⟩
    obtain ⟨value, hvalue, htext⟩ := Option.bind_eq_some_iff.mp htext
    exact ⟨value, text, hvalue, htext, hu⟩

theorem InferHandler.resolveRequestId_ownId (uuid : UuidCrate) (call : HttpInferCall) (fresh : Uuid) :
    call.OwnId uuid fresh (InferHandler.resolveRequestId uuid call fresh) := by
  constructor
  · intro u hu
    unfold InferHandler.resolveRequestId
    rw [HttpInferCall.sends_iff.mp hu]
    rfl
  · intro hnone
    have hparse : (call.xRequestId.bind headerToStr).bind uuid.parseStr = none := by
      rw [Option.eq_none_iff_forall_ne_some]
      intro u hu
      exact hnone u (HttpInferCall.sends_iff.mpr hu)
    unfold InferHandler.resolveRequestId
    rw [hparse]
    rfl

/-- Every id is printed by the `uuid` crate. -/
theorem InferHandler.exists_resolveRequestId (uuid : UuidCrate) (call : HttpInferCall) (fresh : Uuid) :
    ∃ u, InferHandler.resolveRequestId uuid call fresh = uuid.toString u := by
  unfold InferHandler.resolveRequestId
  cases (call.xRequestId.bind headerToStr).bind uuid.parseStr with
  | none => exact ⟨fresh, rfl⟩
  | some u => exact ⟨u, rfl⟩

/-! ## The exits of the handler -/

theorem jsonResponse_xRequestId {status : UInt16} {body : Json} {requestId : String}
    (h : headerValueOk requestId = true) :
    (jsonResponse status body (some requestId)).xRequestId = some requestId :=
  Option.filter_some_pos h

/-- Every answer to what the await returned has the header. -/
theorem InferHandler.respond_xRequestId {requestId : String} (h : headerValueOk requestId = true)
    (awaited : Awaited) : (InferHandler.respond requestId awaited).xRequestId = some requestId := by
  rcases awaited with (err | resp) | _ | _ <;> exact jsonResponse_xRequestId h

/-- Only a response is answered under the status 200. -/
theorem InferHandler.respond_status_eq {requestId : String} {awaited : Awaited}
    (h : (InferHandler.respond requestId awaited).status = 200) :
    ∃ resp, awaited = .result (.ok resp) := by
  rcases awaited with (err | resp) | _ | _
  · exact absurd (show (500 : UInt16) = 200 from h) (by decide)
  · exact ⟨resp, rfl⟩
  · exact absurd (show (500 : UInt16) = 200 from h) (by decide)
  · exact absurd (show (504 : UInt16) = 200 from h) (by decide)

/-- A 200 body names the id unless it is the placeholder. -/
theorem InferHandler.respond_body_iff (requestId : String) (awaited : Awaited) :
    ((InferHandler.respond requestId awaited).status = 200 →
      member "request_id" (InferHandler.respond requestId awaited).body = some (.str requestId)) ↔
      ∀ resp, awaited = .result (.ok resp) → resp.usage.latencyMs.toNat < 2 ^ 64 := by
  constructor
  · intro hbody resp hresp
    subst hresp
    by_contra hge
    have hmember := hbody rfl
    rw [respond_body_of_le requestId (Nat.not_lt.mp hge)] at hmember
    cases hmember
  · intro hlatency hstatus
    obtain ⟨resp, rfl⟩ := InferHandler.respond_status_eq hstatus
    exact (respond_body_of_lt requestId (hlatency resp rfl)).2

/-! ## Through a run -/

/-- The handler has checked the model name. -/
def Handler.validated (h : Handler) : Bool :=
  match h.phase with
  | .validating => false
  | _ => true

/-- What stays true of a handler that has. -/
structure Handler.KeepsId (h h' : Handler) : Prop where
  call : h'.call = h.call
  stamped : h.validated = true → h'.validated = true ∧ h'.stamped = h.stamped

theorem Handler.KeepsId.refl (h : Handler) : h.KeepsId h := ⟨rfl, fun h => ⟨h, rfl⟩⟩

theorem Handler.KeepsId.trans {h k l : Handler} (hk : h.KeepsId k) (hl : k.KeepsId l) : h.KeepsId l := by
  constructor
  · rw [hl.call, hk.call]
  · intro hv
    obtain ⟨hv, hid⟩ := hk.stamped hv
    obtain ⟨hv, hid'⟩ := hl.stamped hv
    exact ⟨hv, hid'.trans hid⟩

theorem Handler.KeepsId.onChannel (f : Oneshot → Oneshot) (h : Handler) :
    h.KeepsId { h with channel := f h.channel } :=
  ⟨rfl, fun h => ⟨h, rfl⟩⟩

/-- No step changes a settled id. -/
theorem Step.handlers_keepId (h : Step cfg s a t) : Extends Handler.KeepsId s.handlers t.handlers := by
  have hset {i : ℕ} {h h' : Handler} (hi : s.handlers[i]? = some h) (he : h.KeepsId h') :
      Extends Handler.KeepsId s.handlers (s.handlers.set i h') := .set .refl hi he
  cases h with
  | arrive => exact .append .refl _ _
  | recv | resize | publish | published | acquire | spawn | start | coreReturns | release
  | releasePanicked | syncRegistry => exact .refl .refl _
  | @deliver j w result => exact .modify .refl _ (Handler.KeepsId.onChannel fun ch => ch.send result)
  | panic => exact .modify .refl _ (Handler.KeepsId.onChannel Oneshot.dropSender)
  | validateKnown _ hi hp | validateUnknown _ hi hp =>
    -- Here the id is being settled.
    exact hset hi ⟨rfl, by simp [Handler.validated, hp]⟩
  | accept hi hp | reject hi hp | recordBegin hi hp | wait hi hp | recordFinish hi hp | answer hi hp
  | poll _ hi hp | elapse hi hp | drop hi hp => exact hset hi ⟨rfl, fun _ => ⟨rfl, rfl⟩⟩

theorem keepsId_of_run {as : List Action} (hrun : (gateway cfg).run s as = some t) {i : ℕ} {h h' : Handler}
    (hi : s.handlers[i]? = some h) (hi' : t.handlers[i]? = some h') : h.KeepsId h' := by
  have hkeep : ∃ k, t.handlers[i]? = some k ∧ h.KeepsId k := by
    refine System.run_preserves (P := fun u => ∃ k, u.handlers[i]? = some k ∧ h.KeepsId k) ?_
      ⟨h, hi, .refl h⟩ hrun
    rintro u b v ⟨k, hk, hkeep⟩ hstep
    obtain ⟨l, hl, hnext⟩ := (step_eq_some_iff.mp hstep).handlers_keepId i k hk
    exact ⟨l, hl, hkeep.trans hnext⟩
  obtain ⟨k, hk, hkeep⟩ := hkeep
  rw [hi'] at hk
  cases hk
  exact hkeep

/-- After the check, a handler has stamped the id of its request if it found the model, and nothing
otherwise. -/
theorem stamped_of_run (hs : (gateway cfg).Reachable s) {i : ℕ} {h : Handler} (hi : s.handlers[i]? = some h)
    (hp : h.phase = .validating) {fresh : Uuid} {as : List Action}
    (hrun : (gateway cfg).run s (.handler i (.validate fresh) :: as) = some t) {h' : Handler}
    (hi' : t.handlers[i]? = some h') :
    h'.call = h.call ∧ h'.stamped =
      if s.registry.contains h.call.model then some (h.call.resolveRequestId cfg.uuid fresh) else none := by
  rw [System.run_cons] at hrun
  obtain ⟨u, hu, hrun⟩ := Option.bind_eq_some_iff.mp hrun
  have hvalidate : Step cfg s (.handler i (.validate fresh)) u := step_eq_some_iff.mp hu
  cases hvalidate with
  | validateKnown _ hk hpk hm =>
    rw [hi] at hk
    cases hk
    have hkeep := keepsId_of_run hrun (getElem?_set_of_some hi _) hi'
    rw [if_pos hm]
    exact ⟨hkeep.call, (hkeep.stamped rfl).2⟩
  | validateUnknown _ hk hpk hm =>
    rw [hi] at hk
    cases hk
    have hkeep := keepsId_of_run hrun (getElem?_set_of_some hi _) hi'
    have hacc := (answersInv_of_reachable hs).accounted i h hi
    simp only [Handler.Accounted, hp] at hacc
    rw [if_neg (by rw [hm]; exact Bool.false_ne_true), ← hacc.1]
    exact ⟨hkeep.call, (hkeep.stamped rfl).2⟩

/-! ## Every response -/

/-- The exits of a handler that returned an HTTP response. -/
theorem http_reply_cases (hs : (gateway cfg).Reachable s) {i : ℕ} {h : Handler}
    (hi : s.handlers[i]? = some h) {call : HttpInferCall} (hcall : h.call = .http call)
    {response : HttpResponse} (hdone : h.phase = .done (.http response)) :
    (h.stamped = none ∧ response = InferHandler.unknownModel call.payload) ∨
    (∃ requestId, h.stamped = some requestId ∧ h.awaited = none ∧
      response = InferHandler.queueFull requestId) ∨
    ∃ requestId awaited, h.stamped = some requestId ∧ h.awaited = some awaited ∧
      response = InferHandler.respond requestId awaited := by
  obtain ⟨op, hanswers, -⟩ := answers_of_done hs hi hdone
  rw [hcall] at hanswers
  generalize hreply : Reply.http response = reply at hanswers
  generalize hstamped : h.stamped = stamped at hanswers ⊢
  generalize hawaited : h.awaited = awaited at hanswers ⊢
  cases hanswers with
  | unknownModel => exact .inl ⟨rfl, Reply.http.inj hreply⟩
  | queueFull requestId => exact .inr (.inl ⟨requestId, rfl, rfl, Reply.http.inj hreply⟩)
  | served requestId awaited =>
    exact .inr (.inr ⟨requestId, awaited, rfl, rfl, InferCall.respond_eq_http hreply⟩)

/-- The response of handler `i` to a request has the header, under the id that the request is to have, the
job carries this id, and so does a 200 body. -/
structure State.Traced (cfg : Config) (s : State) (i : ℕ) (call : HttpInferCall) (fresh : Uuid)
    (response : HttpResponse) (id : String) : Prop where
  header : response.xRequestId = some id
  own : call.OwnId cfg.uuid fresh id
  job : ∀ job ∈ s.jobs, job.responseTx = i → job.request.requestId = some id
  body : response.status = 200 → member "request_id" response.body = some (.str id)

/-- The response is traceable. -/
def State.Traceable (cfg : Config) (s : State) (i : ℕ) (call : HttpInferCall) (fresh : Uuid)
    (response : HttpResponse) : Prop :=
  ∃ id, s.Traced cfg i call fresh response id

/-- The job of a handler carries the id that the handler stamped. -/
theorem requestId_of_job (hs : (gateway cfg).Reachable s) {i : ℕ} {h : Handler}
    (hi : s.handlers[i]? = some h) {requestId : String} (hid : h.stamped = some requestId) {job : Job}
    (hjob : job ∈ s.jobs) (htx : job.responseTx = i) : job.request.requestId = some requestId := by
  obtain ⟨k, id, hk, -, hstamped, hrequest⟩ := ownJob_of_reachable hs job hjob
  rw [htx, hi] at hk
  cases hk
  rw [hid] at hstamped
  cases hstamped
  rw [hrequest, InferCall.jobRequest_requestId]

/-- A handler that stamped the id its request is to have. -/
theorem traceable_iff_of_stamped (hs : (gateway cfg).Reachable s) {i : ℕ} {h : Handler}
    (hi : s.handlers[i]? = some h) {call : HttpInferCall} (hcall : h.call = .http call)
    {response : HttpResponse} (hdone : h.phase = .done (.http response)) {fresh : Uuid} {id : String}
    (hid : h.stamped = some id) (hvalue : headerValueOk id = true) (hown : call.OwnId cfg.uuid fresh id) :
    s.Traceable cfg i call fresh response ↔
      ∀ resp, h.awaited = some (.result (.ok resp)) → resp.usage.latencyMs.toNat < 2 ^ 64 := by
  have hjob : ∀ job ∈ s.jobs, job.responseTx = i → job.request.requestId = some id :=
    fun job hjob => requestId_of_job hs hi hid hjob
  have hexits := http_reply_cases hs hi hcall hdone
  rw [hid] at hexits
  rcases hexits with ⟨hnone, -⟩ | ⟨id', hid', hawaited, rfl⟩ | ⟨id', awaited, hid', hawaited, rfl⟩
  · cases hnone
  · cases hid'
    have htraced : s.Traced cfg i call fresh (InferHandler.queueFull id) id :=
      ⟨jsonResponse_xRequestId hvalue, hown, hjob,
        fun hstatus => absurd (show (503 : UInt16) = 200 from hstatus) (by decide)⟩
    constructor
    · intro _ resp hresp
      rw [hawaited] at hresp
      cases hresp
    · intro _
      exact ⟨id, htraced⟩
  · cases hid'
    have hheader := InferHandler.respond_xRequestId hvalue awaited
    rw [hawaited, ← forall_congr' fun resp => imp_congr_left Option.some_inj.symm,
      ← InferHandler.respond_body_iff id awaited]
    constructor
    · rintro ⟨id', htraced⟩ hstatus
      have hsame := htraced.header
      rw [hheader] at hsame
      cases hsame
      exact htraced.body hstatus
    · intro hbody
      exact ⟨id, hheader, hown, hjob, hbody⟩

/-- A handler that stamped nothing answers without the header. -/
theorem not_traceable_of_stamped_none (hs : (gateway cfg).Reachable s) {i : ℕ} {h : Handler}
    (hi : s.handlers[i]? = some h) {call : HttpInferCall} (hcall : h.call = .http call)
    {response : HttpResponse} (hdone : h.phase = .done (.http response)) (hid : h.stamped = none)
    (fresh : Uuid) : ¬ s.Traceable cfg i call fresh response := by
  rintro ⟨id, htraced⟩
  have hheader := htraced.header
  have hexits := http_reply_cases hs hi hcall hdone
  rw [hid] at hexits
  rcases hexits with ⟨-, rfl⟩ | ⟨id', hid', -⟩ | ⟨id', awaited, hid', -⟩
  · cases hheader
  · cases hid'
  · cases hid'

/-- In every run, from the check of the model name by an HTTP handler to its response: the response is
traceable if and only if the registry held the model and the result, if the handler awaited a successful
one, has a latency that fits into 64 bits. -/
theorem traceable_iff (cfg : Config) (huuid : ∀ u, headerValueOk (cfg.uuid.toString u) = true)
    {s t : State} (hs : (gateway cfg).Reachable s) {i : ℕ} {h h' : Handler} {call : HttpInferCall}
    (hi : s.handlers[i]? = some h) (hcall : h.call = .http call) (hp : h.phase = .validating) {fresh : Uuid}
    {as : List Action} (hrun : (gateway cfg).run s (.handler i (.validate fresh) :: as) = some t)
    (hi' : t.handlers[i]? = some h') {response : HttpResponse}
    (hdone : h'.phase = .done (.http response)) :
    t.Traceable cfg i call fresh response ↔
      s.registry.contains call.payload.model = true ∧
        ∀ resp, h'.awaited = some (.result (.ok resp)) → resp.usage.latencyMs.toNat < 2 ^ 64 := by
  have ht : (gateway cfg).Reachable t := hs.run hrun
  obtain ⟨hsame, hstamped⟩ := stamped_of_run hs hi hp hrun hi'
  have hmodel : h.call.model = call.payload.model := by rw [hcall]; rfl
  have hid : h.call.resolveRequestId cfg.uuid fresh = InferHandler.resolveRequestId cfg.uuid call fresh := by
    rw [hcall]; rfl
  rw [hmodel, hid] at hstamped
  rw [hcall] at hsame
  cases hm : s.registry.contains call.payload.model with
  | false =>
    rw [hm, if_neg Bool.false_ne_true] at hstamped
    refine iff_of_false (not_traceable_of_stamped_none ht hi' hsame hdone hstamped fresh) ?_
    rintro ⟨hfalse, -⟩
    cases hfalse
  | true =>
    rw [if_pos hm] at hstamped
    obtain ⟨u, hu⟩ := InferHandler.exists_resolveRequestId cfg.uuid call fresh
    have hvalue : headerValueOk (InferHandler.resolveRequestId cfg.uuid call fresh) = true := by
      rw [hu]
      exact huuid u
    rw [traceable_iff_of_stamped ht hi' hsame hdone hstamped hvalue
      (InferHandler.resolveRequestId_ownId cfg.uuid call fresh)]
    exact (and_iff_right rfl).symm

/-! ## Two requests -/

/-- A visible ASCII character. -/
def Visible (c : Char) : Prop := 32 ≤ c.toNat ∧ c.toNat < 127

/-- A text of visible ASCII characters is a header value. -/
theorem headerValueOk_of_visible {value : String} (h : ∀ c ∈ value.toList, Visible c) :
    headerValueOk value = true := by
  unfold headerValueOk
  rw [toUTF8_toList, List.all_eq_true]
  intro b hb
  obtain ⟨c, hc, hb⟩ := List.mem_flatMap.mp hb
  obtain ⟨hlow, hhigh⟩ := h c hc
  rw [utf8EncodeChar_of_lt (by omega), List.mem_singleton] at hb
  have hcode : b.toNat = c.toNat := by rw [hb, toNat_asciiByte (by omega)]
  have hge : (32 : UInt8) ≤ b := UInt8.le_iff_toNat_le.mpr (by rw [hcode]; exact hlow)
  have hne : b ≠ 127 := by
    intro heq
    rw [heq] at hcode
    have hdel : (127 : UInt8).toNat = 127 := rfl
    omega
  simp [hge, hne]

theorem visible_hexNibble {n : ℕ} (h : n < 16) : Visible (hexNibble n) := by
  unfold Visible hexNibble
  interval_cases n <;> decide

/-- The hyphenated form of a UUID is a header value. -/
theorem headerValueOk_canonicalUuid (u : Uuid) : headerValueOk (canonicalUuid u) = true := by
  apply headerValueOk_of_visible
  intro c hc
  unfold canonicalUuid at hc
  have hdigit : ∀ d ∈ (List.range 32).map (fun k => hexNibble ((u.toNat >>> (4 * (31 - k))) % 16)),
      Visible d := by
    intro d hd
    obtain ⟨k, -, rfl⟩ := List.mem_map.mp hd
    exact visible_hexNibble (Nat.mod_lt _ (by norm_num))
  have hyphen : Visible '-' := by unfold Visible; decide
  simp only [String.toList_ofList, List.append_assoc, List.cons_append, List.mem_append,
    List.mem_cons] at hc
  -- Five groups of digits with a hyphen between any two.
  rcases hc with hc | rfl | hc | rfl | hc | rfl | hc | rfl | hc
  · exact hdigit c (List.mem_of_mem_take hc)
  · exact hyphen
  · exact hdigit c (List.mem_of_mem_drop (List.mem_of_mem_take hc))
  · exact hyphen
  · exact hdigit c (List.mem_of_mem_drop (List.mem_of_mem_take hc))
  · exact hyphen
  · exact hdigit c (List.mem_of_mem_drop (List.mem_of_mem_take hc))
  · exact hyphen
  · exact hdigit c (List.mem_of_mem_drop hc)

/-- The state after one HTTP request arrived. -/
def arrivedState (cfg : Config) (call : HttpInferCall) : State :=
  { initState cfg with handlers := [{ call := .http call }] }

theorem reachable_arrivedState (cfg : Config) (call : HttpInferCall) :
    (gateway cfg).Reachable (arrivedState cfg call) :=
  .step (reachable_init cfg) trivial (a := .arrive (.http call)) rfl

/-- The request body of both. -/
def greeting (model : String) : HttpInferCall where
  xRequestId := none
  payload := { model := model, input := "Hello world", options := none, requestId := none }

/-- A request that is served. -/
theorem traceable_iff_served :
    ∃ (t : State) (h : Handler) (response : HttpResponse),
      (gateway (scenarioConfig 1 1 .infer wireDecoder)).Reachable t ∧ t.handlers[0]? = some h ∧
      h.phase = .done (.http response) ∧
      t.Traceable (scenarioConfig 1 1 .infer wireDecoder) 0 (greeting "llama-7b") 7 response := by
  have hs := reachable_arrivedState (scenarioConfig 1 1 .infer wireDecoder) (greeting "llama-7b")
  have hserved : ((gateway (scenarioConfig 1 1 .infer wireDecoder)).run
      (arrivedState (scenarioConfig 1 1 .infer wireDecoder) (greeting "llama-7b"))
      (.handler 0 (.validate 7) :: .handler 0 .trySend :: (dispatch 7 ++ recordOps 0 3
        ++ serve 0 (replyWithLatency 5) ++ [.handler 0 (.poll 7)] ++ recordOps 0 6))).map
        (fun t => (t.handlers[0]?.bind Handler.httpDelivery).map Prod.fst) =
      some (some (responseWithLatency 5)) := by
    decide +kernel
  obtain ⟨t, hrun, hdelivery⟩ := Option.map_eq_some_iff.mp hserved
  obtain ⟨⟨-, response⟩, hdelivery, rfl⟩ := Option.map_eq_some_iff.mp hdelivery
  obtain ⟨h, hi, hdelivery⟩ := Option.bind_eq_some_iff.mp hdelivery
  obtain ⟨ha, hdone⟩ := Handler.httpDelivery_eq_some hdelivery
  refine ⟨t, h, response, hs.run hrun, hi, hdone, ?_⟩
  refine (traceable_iff _ headerValueOk_canonicalUuid hs rfl rfl rfl hrun hi hdone).mpr ⟨by decide, ?_⟩
  intro resp hresp
  rw [ha] at hresp
  cases hresp
  decide

/-- The status and the `x-request-id` header of an HTTP response. -/
def Handler.httpExit (h : Handler) : Option (UInt16 × Option String) :=
  match h.phase with
  | .done (.http response) => some (response.status, response.xRequestId)
  | _ => none

theorem Handler.httpExit_eq_some {h : Handler} {status : UInt16} {header : Option String}
    (hexit : h.httpExit = some (status, header)) :
    ∃ response, h.phase = .done (.http response) ∧ response.status = status ∧
      response.xRequestId = header := by
  unfold Handler.httpExit at hexit
  split at hexit
  · rename_i response hdone
    cases hexit
    exact ⟨response, hdone, rfl, rfl⟩
  · cases hexit

/-- A request for a model that the registry does not hold: its response is not traceable. -/
theorem unknown_model_untraceable :
    ∃ (t : State) (h : Handler) (response : HttpResponse),
      (gateway (scenarioConfig 1 1 .infer wireDecoder)).Reachable
        (arrivedState (scenarioConfig 1 1 .infer wireDecoder) (greeting "gpt-4")) ∧
      (gateway (scenarioConfig 1 1 .infer wireDecoder)).run
        (arrivedState (scenarioConfig 1 1 .infer wireDecoder) (greeting "gpt-4"))
        (.handler 0 (.validate 7) :: recordOps 0 2) = some t ∧
      t.handlers[0]? = some h ∧ h.phase = .done (.http response) ∧ response.status = 400 ∧
      response.xRequestId = none ∧
      ¬ t.Traceable (scenarioConfig 1 1 .infer wireDecoder) 0 (greeting "gpt-4") 7 response := by
  have hrejected : ((gateway (scenarioConfig 1 1 .infer wireDecoder)).run
      (arrivedState (scenarioConfig 1 1 .infer wireDecoder) (greeting "gpt-4"))
      (.handler 0 (.validate 7) :: recordOps 0 2)).map (fun t => t.handlers[0]?.bind Handler.httpExit) =
      some (some (400, none)) := by
    decide +kernel
  obtain ⟨t, hrun, hexit⟩ := Option.map_eq_some_iff.mp hrejected
  obtain ⟨h, hi, hexit⟩ := Option.bind_eq_some_iff.mp hexit
  obtain ⟨response, hdone, hstatus, hnone⟩ := Handler.httpExit_eq_some hexit
  refine ⟨t, h, response, reachable_arrivedState _ _, hrun, hi, hdone, hstatus, hnone, ?_⟩
  rintro ⟨id, htraced⟩
  have hheader := htraced.header
  rw [hnone] at hheader
  cases hheader

end InferenceGateway.Gateway
