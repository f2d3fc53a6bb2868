import InferenceGateway.Common.Spans
import InferenceGateway.Gateway.Scenario
import InferenceGateway.Gateway.Traceability

/-! # The span of a core call

Reference: `infer_handler`, the worker task of `dispatcher_loop` and `call_inference_core` in `main.rs`; the
section on tracing in `docs/run.md`, by which the `infer_request` span of a request contains a `core_call`
child span.

The HTTP handler enters its span when it has found the model and holds the guard over its await, so the span
stays entered on the thread that polled the handler first. The worker task is spawned with no span of its
own, and `call_inference_core` makes its span when that task is first polled. So the parent is whatever
request was entered last on the worker's thread and has not been left there.
-/

namespace InferenceGateway.Gateway

open Common Common.Tracing

/-! ## Tasks and threads -/

/-- The spans of the gateway: one for an HTTP request, named by its handler, and one for the call of the core
by a worker, named by the worker and the handler of its job. -/
inductive SpanId
  | inferRequest (i : ℕ)
  | coreCall (j i : ℕ)
deriving DecidableEq

/-- The tasks of the runtime. -/
inductive Task
  | handler (i : ℕ)
  | dispatcher
  | worker (j : ℕ)
deriving DecidableEq

/-- The request came in over HTTP. -/
def InferCall.isHttp : InferCall → Bool
  | .http _ => true
  | .grpc _ => false

/-- The task that takes a step; arrivals and the registry sync concern no span. -/
def Action.task : Action → Option Task
  | .handler i _ => some (.handler i)
  | .dispatcher => some .dispatcher
  | .worker j _ => some (.worker j)
  | .arrive _ => none
  | .syncRegistry _ _ => none

/-- The handler is not polled: it stands before its first step, at its await or behind its end. -/
def Handler.suspended (h : Handler) : Bool :=
  match h.phase with
  | .validating => true
  | .waiting _ => true
  | .done _ => true
  | .dropped => true
  | _ => false

/-- The dispatcher stands at an await. -/
def DispatcherPhase.suspended : DispatcherPhase → Bool
  | .receiving => true
  | .acquiring _ => true
  | _ => false

/-- The worker is not polled. -/
def Worker.suspended (w : Worker) : Bool :=
  match w.phase with
  | .spawned => true
  | .calling => true
  | .finished _ => true
  | _ => false

/-- The task is not polled, so that a thread may take it up. -/
def State.suspended (s : State) : Task → Bool
  | .handler i => (s.handlers[i]?).all Handler.suspended
  | .dispatcher => s.dispatcher.suspended
  | .worker j => (s.workers[j]?).all Worker.suspended

/-! ## Spans along a run -/

/-- The span of an HTTP request is made and entered when the handler has found the model. Its guard is
dropped when the handler returns or is dropped, if there is a guard. -/
def observeHandler (x : Tracing SpanId) (thread i : ℕ) (h : Handler) : Tracing SpanId :=
  match h.call, h.phase with
  | .http _, .enqueueing _ => (x.create thread (.inferRequest i)).enter thread (.inferRequest i)
  | .http _, .done _ => if x.Entered (.inferRequest i) then x.exit thread (.inferRequest i) else x
  | .http _, .dropped => if x.Entered (.inferRequest i) then x.exit thread (.inferRequest i) else x
  | _, _ => x

/-- What a step on a thread, which leads to `t`, does to the spans. The span of a core call is entered within
the polls of the call only, so it is on no stack between two steps. -/
def observe (x : Tracing SpanId) (thread : ℕ) (t : State) : Action → Tracing SpanId
  | .handler i _ =>
    match t.handlers[i]? with
    | some h => observeHandler x thread i h
    | none => x
  | .worker j .start =>
    match t.workers[j]? with
    | some w => x.create thread (.coreCall j w.job.responseTx)
    | none => x
  | _ => x

/-- The gateway, the task that each thread is polling, and the spans. -/
structure TracedState where
  gateway : State
  running : ℕ → Option Task := fun _ => none
  tracing : Tracing SpanId := {}

namespace TracedState

/-- A thread takes the next step of the task that it is polling, or, if it polls none, of a task that is not
polled. -/
def admits (threads : ℕ) (s : TracedState) (a : ℕ × Action) : Bool :=
  match a.2.task with
  | none => true
  | some task =>
    decide (a.1 < threads) &&
      (s.running a.1 == some task || s.running a.1 == none && s.gateway.suspended task)

/-- The state after a step of the gateway to `t`. -/
def advance (s : TracedState) (a : ℕ × Action) (t : State) : TracedState where
  gateway := t
  running :=
    match a.2.task with
    | none => s.running
    | some task => Function.update s.running a.1 (if t.suspended task then none else some task)
  tracing := observe s.tracing a.1 t a.2

end TracedState

/-- The gateway on a runtime with a number of threads. An action is a step of the gateway and the thread that
takes it. -/
def tracedGateway (cfg : Config) (threads : ℕ) : System TracedState (ℕ × Action) where
  init s := s = { gateway := initState cfg }
  step s a := if s.admits threads a then (step cfg s.gateway a.2).map (s.advance a) else none

/-- Every core call that serves an HTTP request has the span of that request as its parent, and belongs to its
trace. -/
def TracedState.Attributed (s : TracedState) : Prop :=
  ∀ span ∈ s.tracing.spans, ∀ j i h, span.id = .coreCall j i → s.gateway.handlers[i]? = some h →
    h.call.isHttp = true → span.parent = some (.inferRequest i) ∧
      s.tracing.traceOf (.inferRequest i) = some span.trace

/-- The step is not the start of a worker, or the worker serves no HTTP request, or it starts on the thread on
which its request was entered, the request was not left there and every later one entered there was. -/
def TracedState.startsInPlace (s : TracedState) (a : ℕ × Action) : Bool :=
  match a.2 with
  | .worker j .start =>
    match s.gateway.workers[j]? with
    | some w =>
      match s.gateway.handlers[w.job.responseTx]? with
      | some h => !h.call.isHttp || s.tracing.innermost a.1 == some (.inferRequest w.job.responseTx)
      | none => true
    | none => true
  | _ => true

variable {cfg : Config} {threads : ℕ}

theorem tracedGateway_step_iff {s u : TracedState} {a : ℕ × Action} :
    (tracedGateway cfg threads).step s a = some u ↔
      s.admits threads a = true ∧ ∃ t, Step cfg s.gateway a.2 t ∧ u = s.advance a t := by
  show (if s.admits threads a then _ else none) = _ ↔ _
  split
  · rename_i hadmits
    rw [Option.map_eq_some_iff, and_iff_right hadmits]
    exact exists_congr fun t => and_congr step_eq_some_iff eq_comm
  · rename_i hrefused
    constructor
    · intro h
      cases h
    · exact fun h => absurd h.1 hrefused

/-! ## What a step does to the spans -/

section

variable {s t : State} {a : Action}

/-- A handler that takes a step has checked the model name behind it, and had not before if it is about to
enqueue its job. -/
theorem Step.handler_validated {i : ℕ} {b : HandlerAction} (h : Step cfg s (.handler i b) t) :
    ∃ k k', s.handlers[i]? = some k ∧ t.handlers[i]? = some k' ∧ k'.validated = true ∧
      ∀ requestId, k'.phase = .enqueueing requestId → k.validated = false := by
  cases h with
  | @validateKnown _ k _ hi hp =>
    exact ⟨k, _, hi, getElem?_set_of_some hi _, rfl, fun _ _ => by rw [Handler.validated, hp]⟩
  | validateUnknown _ hi | accept hi | reject hi | recordBegin hi | wait hi | recordFinish hi | answer hi
  | poll _ hi | elapse hi | drop hi =>
    refine ⟨_, _, hi, getElem?_set_of_some hi _, rfl, fun _ hp => ?_⟩
    cases hp

theorem observe_of_worker {j : ℕ} {w : Worker} (hw : t.workers[j]? = some w) (x : Tracing SpanId)
    (thread : ℕ) :
    observe x thread t (.worker j .start) = x.create thread (.coreCall j w.job.responseTx) := by
  rw [observe, hw]

theorem observe_start {j : ℕ} (h : Step cfg s (.worker j .start) t) (x : Tracing SpanId) (thread : ℕ) :
    ∃ w, s.workers[j]? = some w ∧ t.handlers = s.handlers ∧
      observe x thread t (.worker j .start) = x.create thread (.coreCall j w.job.responseTx) := by
  cases h with
  | @start _ w hj =>
    have hj' := getElem?_set_of_some hj { w with phase := .calling }
    exact ⟨w, hj, rfl, observe_of_worker (w := { w with phase := .calling }) hj' x thread⟩

/-- Whatever else is done: the spans stay as they are, or the span of a request is made and entered, or one
that was entered is left. -/
theorem observe_of_ne_start (h : Step cfg s a t) (ha : ∀ j, a ≠ .worker j .start) (x : Tracing SpanId)
    (thread : ℕ) :
    observe x thread t a = x ∨
    (∃ i k k', s.handlers[i]? = some k ∧ k.validated = false ∧ t.handlers[i]? = some k' ∧
      k'.validated = true ∧
      observe x thread t a = (x.create thread (.inferRequest i)).enter thread (.inferRequest i)) ∨
    ∃ i, x.Entered (.inferRequest i) ∧ observe x thread t a = x.exit thread (.inferRequest i) := by
  cases a with
  | arrive => exact .inl rfl
  | dispatcher => exact .inl rfl
  | syncRegistry => exact .inl rfl
  | worker j b =>
    cases b with
    | start => exact absurd rfl (ha j)
    | _ => exact .inl rfl
  | handler i b =>
    obtain ⟨k, k', hk, hk', hvalidated, henters⟩ := h.handler_validated
    rw [observe, hk']
    dsimp only
    unfold observeHandler
    split
    · exact .inr (.inl ⟨i, k, k', hk, henters _ ‹_›, hk', hvalidated, rfl⟩)
    · split
      · exact .inr (.inr ⟨i, ‹_›, rfl⟩)
      · exact .inl rfl
    · split
      · exact .inr (.inr ⟨i, ‹_›, rfl⟩)
      · exact .inl rfl
    · exact .inl rfl

end

/-! ## The invariant -/

/-- The spans are well nested, only requests whose model was checked were entered, and the calls are those of
jobs. -/
structure SpansInv (s : State) (x : Tracing SpanId) : Prop where
  nested : x.WellNested
  entered : ∀ id, x.Entered id →
    ∃ i h, id = .inferRequest i ∧ s.handlers[i]? = some h ∧ h.validated = true
  called : ∀ span ∈ x.spans, ∀ j i, span.id = .coreCall j i → ∃ h, s.handlers[i]? = some h

section

variable {s t : State} {x : Tracing SpanId}

theorem SpansInv.of_step (hx : SpansInv s x) {a : Action} (h : Step cfg s a t) : SpansInv t x where
  nested := hx.nested
  entered id hid := by
    obtain ⟨i, k, rfl, hk, hv⟩ := hx.entered id hid
    obtain ⟨k', hk', hnext⟩ := h.handlers_keepId i k hk
    exact ⟨i, k', rfl, hk', (hnext.stamped hv).1⟩
  called span hspan j i hid := by
    obtain ⟨k, hk⟩ := hx.called span hspan j i hid
    obtain ⟨k', hk', -⟩ := h.handlers_keepId i k hk
    exact ⟨k', hk'⟩

theorem SpansInv.create (hx : SpansInv s x) (thread : ℕ) {id : SpanId}
    (hid : ∀ j i, id = .coreCall j i → ∃ h, s.handlers[i]? = some h) :
    SpansInv s (x.create thread id) where
  nested := hx.nested.create thread id
  entered := hx.entered
  called span hspan j i hcall := by
    rcases List.mem_append.mp hspan with hspan | hspan
    · exact hx.called span hspan j i hcall
    · rw [List.mem_singleton.mp hspan] at hcall
      exact hid j i hcall

/-- A step keeps the invariant. -/
theorem SpansInv.observe (hs : (gateway cfg).Reachable s) (hx : SpansInv s x) {a : Action}
    (h : Step cfg s a t) (thread : ℕ) : SpansInv t (observe x thread t a) := by
  have ht := hx.of_step h
  by_cases ha : ∃ j, a = .worker j .start
  · obtain ⟨j, rfl⟩ := ha
    obtain ⟨w, hw, hhandlers, hobserve⟩ := observe_start h x thread
    rw [hobserve]
    refine ht.create thread fun j' i hid => ?_
    cases hid
    obtain ⟨k, -, hk, -⟩ := ownJob_of_worker hs hw
    exact ⟨k, by rw [hhandlers, hk]⟩
  · rcases observe_of_ne_start h (not_exists.mp ha) x thread with
      hobserve | ⟨i, k, k', hk, hnew, hk', hv, hobserve⟩ | ⟨i, hentered, hobserve⟩
    · rw [hobserve]
      exact ht
    · rw [hobserve]
      have hmade : SpansInv t (x.create thread (.inferRequest i)) := ht.create thread nofun
      have hfresh : ¬(x.create thread (.inferRequest i)).Entered (.inferRequest i) := by
        intro hid
        obtain ⟨_, l, heq, hl, hvalidated⟩ := hx.entered _ hid
        cases heq
        rw [hk] at hl
        cases hl
        rw [hnew] at hvalidated
        cases hvalidated
      obtain ⟨trace, htrace⟩ := exists_traceOf_create_self x thread (.inferRequest i)
      refine ⟨hmade.nested.enter hfresh htrace thread, fun id hid => ?_, hmade.called⟩
      rcases entered_enter_iff.mp hid with hid | rfl
      · exact hmade.entered id hid
      · exact ⟨i, k', rfl, hk', hv⟩
    · rw [hobserve]
      exact ⟨ht.nested.exit hentered thread, ht.entered, ht.called⟩

end

theorem spansInv_init (cfg : Config) : SpansInv (initState cfg) {} where
  nested := wellNested_empty
  entered := nofun
  called := nofun

/-- The gateway takes its steps, and the spans keep their invariant. -/
structure TracedInv (cfg : Config) (s : TracedState) : Prop where
  reachable : (gateway cfg).Reachable s.gateway
  spans : SpansInv s.gateway s.tracing

theorem TracedInv.step {s u : TracedState} (hs : TracedInv cfg s) {a : ℕ × Action}
    (h : (tracedGateway cfg threads).step s a = some u) : TracedInv cfg u := by
  obtain ⟨-, t, ht, rfl⟩ := tracedGateway_step_iff.mp h
  exact ⟨hs.reachable.step trivial (step_eq_some_iff.mpr ht), hs.spans.observe hs.reachable ht a.1⟩

/-! ## Whose span the parent is -/

/-- If the span is that of a call for an HTTP request, its parent is the span of this request. -/
def RightParent (s : State) (span : Span SpanId) : Prop :=
  ∀ j i h, span.id = .coreCall j i → s.handlers[i]? = some h → h.call.isHttp = true →
    span.parent = some (.inferRequest i)

/-- Every call has the right parent. -/
def TracedState.RightParents (s : TracedState) : Prop := ∀ span ∈ s.tracing.spans, RightParent s.gateway span

theorem attributed_iff_rightParents {s : TracedState} (hx : SpansInv s.gateway s.tracing) :
    s.Attributed ↔ s.RightParents := by
  constructor
  · exact fun h span hspan j i k hid hk hhttp => (h span hspan j i k hid hk hhttp).1
  · intro h span hspan j i k hid hk hhttp
    have hparent := h span hspan j i k hid hk hhttp
    exact ⟨hparent, hx.nested.parents span hspan _ hparent⟩

/-- No step of the gateway changes which parent is the right one. -/
theorem rightParent_iff_of_step {s t : State} {a : Action} (h : Step cfg s a t) {span : Span SpanId}
    (hcalled : ∀ j i, span.id = .coreCall j i → ∃ h, s.handlers[i]? = some h) :
    RightParent t span ↔ RightParent s span := by
  constructor
  · intro hspan j i k hid hk hhttp
    obtain ⟨k', hk', hnext⟩ := h.handlers_keepId i k hk
    exact hspan j i k' hid hk' (by rw [hnext.call, hhttp])
  · intro hspan j i k' hid hk' hhttp
    obtain ⟨k, hk⟩ := hcalled j i hid
    obtain ⟨l, hl, hnext⟩ := h.handlers_keepId i k hk
    rw [hk'] at hl
    cases hl
    exact hspan j i k hid hk (by rw [← hnext.call, hhttp])

theorem forall_rightParent_append (s : State) (spans : List (Span SpanId)) (span : Span SpanId) :
    (∀ r ∈ spans ++ [span], RightParent s r) ↔ (∀ r ∈ spans, RightParent s r) ∧ RightParent s span := by
  simp only [List.mem_append, List.mem_singleton, or_imp, forall_and, forall_eq]

/-- The new span of a call has the right parent exactly if the worker starts in place. -/
theorem rightParent_newSpan_iff {s : TracedState} (hx : SpansInv s.gateway s.tracing) {thread j : ℕ}
    {w : Worker} (hw : s.gateway.workers[j]? = some w) :
    RightParent s.gateway (s.tracing.newSpan thread (.coreCall j w.job.responseTx)) ↔
      s.startsInPlace (thread, .worker j .start) = true := by
  unfold TracedState.startsInPlace RightParent
  dsimp only
  rw [hw]
  dsimp only
  cases hk : s.gateway.handlers[w.job.responseTx]? with
  | none =>
    refine ⟨fun _ => rfl, fun _ _ i k hid hi => ?_⟩
    cases hid
    rw [hk] at hi
    cases hi
  | some k =>
    dsimp only
    rw [hx.nested.newSpan_parent, Bool.or_eq_true, Bool.not_eq_true', beq_iff_eq]
    constructor
    · intro h
      cases hhttp : k.call.isHttp with
      | false => exact .inl rfl
      | true => exact .inr (h j _ k rfl hk hhttp)
    · rintro h _ i k' hid hi hhttp
      cases hid
      rw [hk] at hi
      cases hi
      exact h.resolve_left (by rw [hhttp]; decide)

theorem startsInPlace_of_ne_start {s : TracedState} {thread : ℕ} {a : Action}
    (ha : ∀ j, a ≠ .worker j .start) : s.startsInPlace (thread, a) = true := by
  rw [TracedState.startsInPlace]
  split
  · rename_i heq
    exact absurd heq (ha _)
  · rfl

/-- After a step, every call has the right parent exactly if this was so before and no worker started out of
place. -/
theorem rightParents_step {s u : TracedState} (hx : SpansInv s.gateway s.tracing) {a : ℕ × Action}
    (h : (tracedGateway cfg threads).step s a = some u) :
    u.RightParents ↔ s.RightParents ∧ s.startsInPlace a = true := by
  obtain ⟨-, t, ht, rfl⟩ := tracedGateway_step_iff.mp h
  obtain ⟨thread, a⟩ := a
  have hold : (∀ span ∈ s.tracing.spans, RightParent t span) ↔ s.RightParents :=
    forall₂_congr fun span hspan => rightParent_iff_of_step ht (hx.called span hspan)
  show (∀ span ∈ (observe s.tracing thread t a).spans, RightParent t span) ↔ _
  by_cases ha : ∃ j, a = .worker j .start
  · obtain ⟨j, rfl⟩ := ha
    obtain ⟨w, hw, hhandlers, hobserve⟩ := observe_start ht s.tracing thread
    have hnew : RightParent t (s.tracing.newSpan thread (.coreCall j w.job.responseTx)) ↔
        RightParent s.gateway (s.tracing.newSpan thread (.coreCall j w.job.responseTx)) := by
      unfold RightParent
      rw [hhandlers]
    rw [hobserve, ← rightParent_newSpan_iff hx hw, ← hnew, ← hold]
    exact forall_rightParent_append t _ _
  · rw [startsInPlace_of_ne_start (not_exists.mp ha), eq_self_iff_true, and_true, ← hold]
    rcases observe_of_ne_start ht (not_exists.mp ha) s.tracing thread with
      hobserve | ⟨i, -, -, -, -, -, -, hobserve⟩ | ⟨i, -, hobserve⟩
    · rw [hobserve]
    · rw [hobserve]
      refine (forall_rightParent_append t _ _).trans (and_iff_left ?_)
      intro _ _ _ hid
      cases hid
    · rw [hobserve]
      rfl

/-- After any interleaving of handlers, dispatcher and workers over any number of threads: every core call for
an HTTP request has the span of that request as its parent, and belongs to its trace, exactly if every worker
for an HTTP request started in place. -/
theorem attributed_iff (cfg : Config) (threads : ℕ) {as : List (ℕ × Action)} {s : TracedState}
    (hrun : (tracedGateway cfg threads).run { gateway := initState cfg } as = some s) :
    s.Attributed ↔
      (tracedGateway cfg threads).runIf TracedState.startsInPlace { gateway := initState cfg } as =
        some s := by
  have hinit : TracedInv cfg { gateway := initState cfg } := ⟨.init rfl, spansInv_init cfg⟩
  have hparents : TracedState.RightParents { gateway := initState cfg } := nofun
  have hs : TracedInv cfg s := System.run_preserves (fun _ _ _ h hstep => h.step hstep) hinit hrun
  rw [attributed_iff_rightParents hs.spans]
  exact (System.runIf_iff_of_step (fun _ _ _ h hstep => h.step hstep)
    (fun _ _ _ h hstep => rightParents_step h.spans hstep) hinit hparents hrun).symm

/-! ### Concrete runs -/

/-- Steps on one thread. -/
def onThread (thread : ℕ) (as : List Action) : List (ℕ × Action) := as.map (thread, ·)

/-- A gateway with up to two workers. -/
def tracedConfig : Config := scenarioConfig 1 2 .infer silentDecoder

/-- The worker of an HTTP request starts on the thread of its handler. -/
def inPlaceRun : List (ℕ × Action) :=
  onThread 0 (submit 0 httpCall ++ recordOps 0 3) ++ onThread 1 (dispatch 7) ++ onThread 0 [.worker 0 .start]

theorem attributed_iff_inPlaceRun :
    ∃ s, (tracedGateway tracedConfig 2).run { gateway := initState tracedConfig } inPlaceRun = some s ∧
      s.Attributed := by
  have hsome : ((tracedGateway tracedConfig 2).runIf TracedState.startsInPlace
      { gateway := initState tracedConfig } inPlaceRun).isSome = true := by decide
  obtain ⟨s, hs⟩ := Option.isSome_iff_exists.mp hsome
  have hrun := System.run_of_runIf hs
  exact ⟨s, hrun, (attributed_iff tracedConfig 2 hrun).mpr hs⟩

/-- The call for the request of handler `0`, which came in over HTTP, has this parent. -/
def TracedState.CallHasParent (s : TracedState) (parent : Option SpanId) : Prop :=
  (s.gateway.handlers[0]?).map (·.call.isHttp) = some true ∧
    ∃ span ∈ s.tracing.spans, span.id = .coreCall 0 0 ∧ span.parent = parent

instance (s : TracedState) (parent : Option SpanId) : Decidable (s.CallHasParent parent) :=
  inferInstanceAs (Decidable (_ ∧ _))

theorem TracedState.CallHasParent.not_attributed {s : TracedState} {parent : Option SpanId}
    (h : s.CallHasParent parent) (hparent : parent ≠ some (.inferRequest 0)) : ¬s.Attributed := by
  obtain ⟨hhttp, span, hspan, hid, rfl⟩ := h
  obtain ⟨k, hk, hhttp⟩ := Option.map_eq_some_iff.mp hhttp
  exact fun hs => hparent (hs span hspan 0 0 k hid hk hhttp).1

/-- On one thread, a second request is entered before the worker of the first one starts. -/
def crossedRun : List (ℕ × Action) :=
  onThread 0 (submit 0 httpCall ++ recordOps 0 3 ++ submit 1 httpCall ++ recordOps 1 3 ++ dispatch 7 ++
    [.worker 0 .start])

/-- With two threads, the worker starts on the other one. -/
def elsewhereRun : List (ℕ × Action) :=
  onThread 0 (submit 0 httpCall ++ recordOps 0 3) ++ onThread 1 (dispatch 7 ++ [.worker 0 .start])

/-- A core call becomes a child of another request's span, or has no parent at all. -/
theorem core_call_misattributed :
    (∃ s, (tracedGateway tracedConfig 1).Reachable s ∧ s.CallHasParent (some (.inferRequest 1)) ∧
      ¬s.Attributed) ∧
    ∃ s, (tracedGateway tracedConfig 2).Reachable s ∧ s.CallHasParent none ∧ ¬s.Attributed := by
  have hinit (threads : ℕ) : (tracedGateway tracedConfig threads).Reachable
      { gateway := initState tracedConfig } := .init rfl
  constructor
  · obtain ⟨s, hs, hcall⟩ := (hinit 1).exists_of_run (·.CallHasParent (some (.inferRequest 1))) crossedRun
      (by decide)
    exact ⟨s, hs, hcall, hcall.not_attributed (by decide)⟩
  · obtain ⟨s, hs, hcall⟩ := (hinit 2).exists_of_run (·.CallHasParent none) elsewhereRun (by decide)
    exact ⟨s, hs, hcall, hcall.not_attributed (by decide)⟩

end InferenceGateway.Gateway
