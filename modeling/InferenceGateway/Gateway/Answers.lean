import InferenceGateway.Gateway.Evolution
import InferenceGateway.Gateway.Scenario

/-! # What a handler answers and records

Each phase of a handler fixes what it has stamped, what it has awaited and which terminal metric
operations it has performed: none until it begins to finish, and exactly one when it is done. The answer
and the terminal operation are chosen together, by the same branch of the handler.
-/

namespace InferenceGateway.Gateway

open Common

/-- The terminal operations that handler `i` has performed. -/
def State.terminalOps (s : State) (i : ℕ) : List MetricOp :=
  (s.recorded.filter fun p => p.1 = i ∧ p.2.isTerminal).map Prod.snd

/-- A handler that has stamped and awaited what is given answers with the reply, and the same branch
performs the terminal operation. -/
inductive InferCall.Answers (cfg : Config) (call : InferCall) :
    Option String → Option Awaited → Reply → MetricOp → Prop
  | unknownModel : call.Answers cfg none none call.unknownModel .addValidationError
  | queueFull (requestId : String) :
      call.Answers cfg (some requestId) none (call.queueFull requestId) .addQueueFull
  | served (requestId : String) (awaited : Awaited) :
      call.Answers cfg (some requestId) (some awaited)
        (call.respond cfg.requestTimeoutSecs requestId awaited) (.addOutcome awaited.outcome)

/-- What the phase of a handler says about it, when `ops` are the terminal operations it has
performed. -/
def Handler.Accounted (cfg : Config) (h : Handler) (ops : List MetricOp) : Prop :=
  match h.phase with
  | .validating => h.stamped = none ∧ h.awaited = none ∧ ops = []
  | .enqueueing requestId => h.stamped = some requestId ∧ h.awaited = none ∧ ops = []
  | .beginning requestId pending =>
    h.stamped = some requestId ∧ h.awaited = none ∧ ops = [] ∧
      pending.filter MetricOp.isTerminal = []
  | .waiting requestId => h.stamped = some requestId ∧ h.awaited = none ∧ ops = []
  | .finishing pending reply =>
    ∃ op, h.call.Answers cfg h.stamped h.awaited reply op ∧
      ops ++ pending.filter MetricOp.isTerminal = [op]
  | .done reply => ∃ op, h.call.Answers cfg h.stamped h.awaited reply op ∧ ops = [op]
  | .dropped => h.awaited = none ∧ ops = []

variable {cfg : Config} {s t : State} {a : Action}

/-! ## The pending operations of each update -/

@[simp] theorem filter_isTerminal_beginRequest :
    Metrics.beginRequest.filter MetricOp.isTerminal = [] := rfl

@[simp] theorem filter_isTerminal_finishRequest (outcome : Outcome) (latencyMs : UInt64) :
    (Metrics.finishRequest outcome latencyMs).filter MetricOp.isTerminal = [.addOutcome outcome] :=
  rfl

@[simp] theorem filter_isTerminal_noteQueueFull :
    Metrics.noteQueueFull.filter MetricOp.isTerminal = [.addQueueFull] := rfl

@[simp] theorem filter_isTerminal_noteValidationError :
    Metrics.noteValidationError.filter MetricOp.isTerminal = [.addValidationError] := rfl

/-! ## Recording an operation -/

theorem State.terminalOps_record_self (s : State) (i : ℕ) (op : MetricOp) (h : Handler) :
    (s.record i op h).terminalOps i = s.terminalOps i ++ [op].filter MetricOp.isTerminal := by
  simp only [State.terminalOps, State.record, List.filter_append, List.map_append]
  cases hop : op.isTerminal <;> simp [hop]

theorem State.terminalOps_record_ne (s : State) {i k : ℕ} (hk : k ≠ i) (op : MetricOp)
    (h : Handler) : (s.record i op h).terminalOps k = s.terminalOps k := by
  simp [State.terminalOps, State.record, List.filter_append, hk.symm]

/-! ## One step -/

/-- What holds of the handlers and of their records in every reachable state. -/
structure AnswersInv (cfg : Config) (s : State) : Prop where
  fresh : ∀ p ∈ s.recorded, p.1 < s.handlers.length
  accounted : ∀ (i : ℕ) (h : Handler), s.handlers[i]? = some h → h.Accounted cfg (s.terminalOps i)

/-- The phase of handler `i` changes and nothing is recorded. -/
private theorem AnswersInv.move (hinv : AnswersInv cfg s) {i : ℕ} {h h' : Handler}
    (hi : s.handlers[i]? = some h) (hh : t.handlers = s.handlers.set i h')
    (hr : t.recorded = s.recorded)
    (hstep : ∀ ops, h.Accounted cfg ops → h'.Accounted cfg ops) : AnswersInv cfg t := by
  have hops (k : ℕ) : t.terminalOps k = s.terminalOps k := by
    rw [State.terminalOps, hr, State.terminalOps]
  constructor
  · rw [hr, hh, List.length_set]
    exact hinv.fresh
  · intro k c hk
    rw [hh] at hk
    rw [hops]
    rcases getElem?_set_eq_some hk with ⟨rfl, rfl⟩ | ⟨-, hk⟩
    · exact hstep _ (hinv.accounted _ _ hi)
    · exact hinv.accounted k c hk

/-- Handler `i` records an operation. -/
private theorem AnswersInv.record (hinv : AnswersInv cfg s) {i : ℕ} {h h' : Handler} {op : MetricOp}
    (hi : s.handlers[i]? = some h)
    (hstep : ∀ ops, h.Accounted cfg ops →
      h'.Accounted cfg (ops ++ [op].filter MetricOp.isTerminal)) :
    AnswersInv cfg (s.record i op h') := by
  obtain ⟨hlt, -⟩ := List.getElem?_eq_some_iff.mp hi
  constructor
  · intro p hp
    simp only [State.record, List.length_set]
    rcases List.mem_append.mp hp with hp | hp
    · exact hinv.fresh p hp
    · obtain rfl := List.mem_singleton.mp hp
      exact hlt
  · intro k c hk
    rcases getElem?_set_eq_some hk with ⟨rfl, rfl⟩ | ⟨hne, hk⟩
    · rw [State.terminalOps_record_self]
      exact hstep _ (hinv.accounted _ _ hi)
    · rw [State.terminalOps_record_ne s hne]
      exact hinv.accounted k c hk

/-- The oneshot channel of a handler plays no part in its account. -/
private theorem AnswersInv.onChannel (hinv : AnswersInv cfg s) (i : ℕ) (f : Oneshot → Oneshot) :
    AnswersInv cfg (s.onChannel i f) := by
  constructor
  · simpa only [State.onChannel, List.length_modify] using hinv.fresh
  · intro k c hk
    obtain ⟨h, hh, ⟨-, rfl⟩ | ⟨-, rfl⟩⟩ := getElem?_modify_eq_some hk
    · exact hinv.accounted k h hh
    · exact hinv.accounted k _ hh

private theorem AnswersInv.setWorker (hinv : AnswersInv cfg s) (j : ℕ) (w : Worker) :
    AnswersInv cfg (s.setWorker j w) :=
  ⟨hinv.fresh, hinv.accounted⟩

private theorem AnswersInv.arrive (hinv : AnswersInv cfg s) (call : InferCall) :
    AnswersInv cfg { s with handlers := s.handlers ++ [{ call := call }] } := by
  constructor
  · intro p hp
    have := hinv.fresh p hp
    simp only [List.length_append, List.length_singleton]
    omega
  · intro k c hk
    rcases getElem?_append_singleton hk with ⟨rfl, rfl⟩ | hk
    · -- Nobody has recorded anything under the new index.
      refine ⟨rfl, rfl, ?_⟩
      simp only [State.terminalOps, List.map_eq_nil_iff, List.filter_eq_nil_iff, decide_eq_true_eq]
      intro p hp hnew
      exact absurd hnew.1 (Nat.ne_of_lt (hinv.fresh p hp))
    · exact hinv.accounted k c hk

theorem AnswersInv.step (hinv : AnswersInv cfg s) (h : Step cfg s a t) : AnswersInv cfg t := by
  cases h with
  | arrive call => exact hinv.arrive call
  | validateKnown _ hi hp =>
    refine hinv.move hi rfl rfl fun ops hacc => ?_
    simp only [Handler.Accounted, hp] at hacc
    exact ⟨rfl, hacc.2⟩
  | validateUnknown _ hi hp =>
    refine hinv.move hi rfl rfl fun ops hacc => ?_
    simp only [Handler.Accounted, hp] at hacc
    obtain ⟨hs, ha, rfl⟩ := hacc
    exact ⟨_, by rw [hs, ha]; exact .unknownModel, rfl⟩
  | accept hi hp =>
    refine hinv.move hi rfl rfl fun ops hacc => ?_
    simp only [Handler.Accounted, hp] at hacc
    exact ⟨hacc.1, hacc.2.1, hacc.2.2, rfl⟩
  | reject hi hp =>
    refine hinv.move hi rfl rfl fun ops hacc => ?_
    simp only [Handler.Accounted, hp] at hacc
    obtain ⟨hs, ha, rfl⟩ := hacc
    exact ⟨_, by rw [hs, ha]; exact .queueFull _, rfl⟩
  | @recordBegin i h _ op pending hi hp =>
    -- None of the pending operations of `begin_request` is terminal.
    refine hinv.record hi fun ops hacc => ?_
    simp only [Handler.Accounted, hp] at hacc
    obtain ⟨hs, ha, rfl, hpend⟩ := hacc
    rw [← List.singleton_append, List.filter_append, List.append_eq_nil_iff] at hpend
    exact ⟨hs, ha, by rw [hpend.1, List.append_nil], hpend.2⟩
  | wait hi hp =>
    refine hinv.move hi rfl rfl fun ops hacc => ?_
    simp only [Handler.Accounted, hp] at hacc
    exact ⟨hacc.1, hacc.2.1, hacc.2.2.1⟩
  | recordFinish hi hp =>
    -- What is recorded moves from the pending operations to the records; their sequence stays.
    refine hinv.record hi fun ops hacc => ?_
    simp only [Handler.Accounted, hp] at hacc
    obtain ⟨op, hans, hops⟩ := hacc
    refine ⟨op, hans, ?_⟩
    rw [List.append_assoc, ← List.filter_append, List.singleton_append]
    exact hops
  | answer hi hp =>
    refine hinv.move hi rfl rfl fun ops hacc => ?_
    simp only [Handler.Accounted, hp] at hacc
    obtain ⟨op, hans, hops⟩ := hacc
    exact ⟨op, hans, by simpa only [List.filter_nil, List.append_nil] using hops⟩
  | poll _ hi hp | elapse hi hp =>
    refine hinv.move hi rfl rfl fun ops hacc => ?_
    simp only [Handler.Accounted, hp] at hacc
    obtain ⟨hs, ha, rfl⟩ := hacc
    exact ⟨_, by rw [Handler.resume, hs]; exact .served _ _, rfl⟩
  | drop hi hp =>
    refine hinv.move hi rfl rfl fun ops hacc => ?_
    simp only [Handler.Accounted, hp] at hacc
    exact hacc.2
  | recv | resize | publish | published | acquire | spawn | start | coreReturns | release
  | releasePanicked | syncRegistry => exact ⟨hinv.fresh, hinv.accounted⟩
  | deliver | panic => exact (hinv.setWorker _ _).onChannel _ _

theorem answersInv_of_reachable (h : (gateway cfg).Reachable s) : AnswersInv cfg s :=
  gateway_invariant ⟨by simp [initState], by simp [initState]⟩ (fun _ _ _ _ hi _ hs => hi.step hs) h

/-- The answer of a handler that awaited something is the answer to that. -/
theorem InferCall.Answers.eq_respond {call : InferCall} {stamped : Option String} {awaited : Awaited}
    {reply : Reply} {op : MetricOp} (h : call.Answers cfg stamped (some awaited) reply op) :
    ∃ requestId, stamped = some requestId ∧ reply = call.respond cfg.requestTimeoutSecs requestId awaited := by
  cases h with
  | served requestId => exact ⟨requestId, rfl, rfl⟩

/-- A handler that is done gave one of the answers and performed one terminal operation. -/
theorem answers_of_done (hs : (gateway cfg).Reachable s) {i : ℕ} {h : Handler}
    (hi : s.handlers[i]? = some h) {reply : Reply} (hdone : h.phase = .done reply) :
    ∃ op, h.call.Answers cfg h.stamped h.awaited reply op ∧ s.terminalOps i = [op] := by
  have hacc := (answersInv_of_reachable hs).accounted i h hi
  simpa only [Handler.Accounted, hdone] using hacc

/-- A handler that returned from its await had stamped an id. -/
theorem Handler.Accounted.exists_stamped {h : Handler} {ops : List MetricOp} {awaited : Awaited}
    (hacc : h.Accounted cfg ops) (ha : h.awaited = some awaited) :
    ∃ requestId, h.stamped = some requestId := by
  cases hp : h.phase <;>
    simp only [Handler.Accounted, hp, ha, reduceCtorEq, false_and, and_false] at hacc
  case finishing =>
    obtain ⟨op, hanswers, -⟩ := hacc
    obtain ⟨requestId, hid, -⟩ := hanswers.eq_respond
    exact ⟨requestId, hid⟩
  case done =>
    obtain ⟨op, hanswers, -⟩ := hacc
    obtain ⟨requestId, hid, -⟩ := hanswers.eq_respond
    exact ⟨requestId, hid⟩

/-! ## Progress -/

/-- The handler has answered or was dropped. -/
def Handler.ended (h : Handler) : Bool :=
  match h.phase with
  | .done _ => true
  | .dropped => true
  | _ => false

/-- A handler that has not ended can always take a step of its own: its await has a timer. -/
theorem handler_enabled (cfg : Config) {i : ℕ} {h : Handler} (hi : s.handlers[i]? = some h)
    (he : h.ended = false) : ∃ a t, a ≠ .drop ∧ Step cfg s (.handler i a) t := by
  cases hp : h.phase with
  | validating =>
    cases hm : s.registry.contains h.call.model with
    | true => exact ⟨.validate 0, _, nofun, .validateKnown 0 hi hp hm⟩
    | false => exact ⟨.validate 0, _, nofun, .validateUnknown 0 hi hp hm⟩
  | enqueueing requestId =>
    rcases Nat.lt_or_ge s.queue.length cfg.queueCapacity with hq | hq
    · exact ⟨.trySend, _, nofun, .accept hi hp hq⟩
    · exact ⟨.trySend, _, nofun, .reject hi hp hq⟩
  | beginning requestId pending =>
    cases pending with
    | nil => exact ⟨.record, _, nofun, .wait hi hp⟩
    | cons op ops => exact ⟨.record, _, nofun, .recordBegin hi hp⟩
  | waiting requestId =>
    -- An await with nothing to receive has its timer.
    cases hc : h.channel.poll with
    | none => exact ⟨.elapse, _, nofun, .elapse hi hp hc⟩
    | some awaited => exact ⟨.poll 0, _, nofun, .poll 0 hi hp hc⟩
  | finishing pending reply =>
    cases pending with
    | nil => exact ⟨.record, _, nofun, .answer hi hp⟩
    | cons op ops => exact ⟨.record, _, nofun, .recordFinish hi hp⟩
  | done reply => simp [Handler.ended, hp] at he
  | dropped => simp [Handler.ended, hp] at he

end InferenceGateway.Gateway
