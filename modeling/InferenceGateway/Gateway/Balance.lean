import InferenceGateway.Gateway.Accounting
import InferenceGateway.Gateway.Answers
import InferenceGateway.Gateway.Recording

/-! # The books of the gateway

Every handler books its operations on the shared registry, and the dispatcher stores its gauges there. At
every moment a counter of requests is the sum of what the handlers have booked on it. So between two metrics
updates the counters agree with each other: each request that arrived stands in exactly one of them, or is still
on its way to `try_send`, and each one that was accepted has its outcome, or waits for it, or was dropped.
-/

namespace InferenceGateway.Gateway

open Common

/-! ## Counters of requests -/

/-- Nothing is stored in the counter, and what a request adds to it does not depend on how long it took. -/
def Counter.counts : Counter → Bool
  | .latencyMsSum => false
  | .bucket _ => false
  | .poolWorkersCurrent => false
  | .poolWorkersMax => false
  | _ => true

theorem moved_append (ops ops' : List MetricOp) (c : Counter) :
    moved (ops ++ ops') c = moved ops c + moved ops' c := by
  unfold moved
  rw [List.map_append, List.sum_append]

/-- What is pending when a request is served differs from its entry in the latency only. -/
theorem moved_served {c : Counter} (hc : c.counts = true) (outcome : Outcome) (ms : UInt64) :
    moved Metrics.beginRequest c + moved (Metrics.finishRequest outcome 0) c
      - moved (Metrics.finishRequest outcome ms) c = moved Metrics.beginRequest c := by
  have hsame : moved (Metrics.finishRequest outcome 0) c = moved (Metrics.finishRequest outcome ms) c := by
    cases c with
    | latencyMsSum | bucket | poolWorkersCurrent | poolWorkersMax => cases hc
    | _ => rfl
  rw [hsame, add_sub_cancel_right]

theorem Metrics.load_apply_store (m : Metrics) {op : MetricOp} (hop : op.isStore = true) {c : Counter}
    (hc : c.counts = true) : (m.apply op).load c = m.load c := by
  cases op with
  | storePoolCurrent | storePoolMax =>
    cases c with
    | latencyMsSum | bucket | poolWorkersCurrent | poolWorkersMax => cases hc
    | outcomeTotal outcome => cases outcome <;> rfl
    | _ => rfl
  | _ => cases hop

/-! ## What a handler has booked -/

/-- The operations of a handler that has left, but for the latency. -/
def Handler.entry (h : Handler) : List MetricOp :=
  match h.stamped, h.awaited with
  | none, _ => Metrics.noteValidationError
  | some _, none => Metrics.noteQueueFull
  | some _, some awaited => Metrics.beginRequest ++ Metrics.finishRequest awaited.outcome 0

/-- What a handler has added to a counter. -/
def Handler.booked (c : Counter) (h : Handler) : ℤ :=
  match h.phase with
  | .validating => 0
  | .enqueueing _ => 0
  | .beginning _ pending => moved Metrics.beginRequest c - moved pending c
  | .waiting _ => moved Metrics.beginRequest c
  | .finishing pending _ => moved h.entry c - moved pending c
  | .done _ => moved h.entry c
  | .dropped => moved Metrics.beginRequest c

/-- What the handlers have added to a counter. -/
def State.booked (s : State) (c : Counter) : ℤ := (s.handlers.map (Handler.booked c)).sum

/-- The dispatcher only stores. -/
def DispatcherPhase.StoresOnly : DispatcherPhase → Prop
  | .publishing _ pending => ∀ op ∈ pending, op.isStore = true
  | _ => True

/-- Handlers book nothing by a store. -/
def Handler.AddsOnly (h : Handler) : Prop :=
  match h.phase with
  | .beginning _ pending => ∀ op ∈ pending, op.isStore = false
  | .finishing pending _ => ∀ op ∈ pending, op.isStore = false
  | _ => True

/-- The counter holds what has been booked. -/
structure BooksInv (c : Counter) (s : State) : Prop where
  load : s.metrics.load c = UInt64.ofInt (s.booked c)
  stores : s.dispatcher.StoresOnly
  adds : ∀ h ∈ s.handlers, h.AddsOnly

variable {cfg : Config} {s t : State} {a : Action} {c : Counter}

private theorem addsOnly_set (hs : ∀ h ∈ s.handlers, h.AddsOnly) {i : ℕ} {h' : Handler}
    (hp : h'.AddsOnly) : ∀ h ∈ s.handlers.set i h', h.AddsOnly := by
  intro h hh
  rcases List.mem_or_eq_of_mem_set hh with hh | rfl
  · exact hs h hh
  · exact hp

/-- A handler moves on and has booked as much as before. -/
private theorem BooksInv.move (hinv : BooksInv c s) {i : ℕ} {h h' : Handler} (hi : s.handlers[i]? = some h)
    (hh : t.handlers = s.handlers.set i h') (hm : t.metrics = s.metrics)
    (hd : t.dispatcher = s.dispatcher) (hb : h'.booked c = h.booked c) (ha : h'.AddsOnly) :
    BooksInv c t := by
  refine ⟨?_, hd ▸ hinv.stores, hh ▸ addsOnly_set hinv.adds ha⟩
  rw [hm, hinv.load, State.booked, State.booked, hh, sum_map_set hi, hb, sub_self, add_zero]

/-- A handler books an operation. -/
private theorem BooksInv.record (hinv : BooksInv c s) {i : ℕ} {h h' : Handler} {op : MetricOp}
    (hi : s.handlers[i]? = some h) (hop : op.isStore = false)
    (hb : h'.booked c = h.booked c + op.delta c) (ha : h'.AddsOnly) : BooksInv c (s.record i op h') := by
  refine ⟨?_, hinv.stores, addsOnly_set hinv.adds ha⟩
  have hbooked : (s.record i op h').booked c = s.booked c + op.delta c := by
    rw [State.booked, State.record, sum_map_set hi, hb, State.booked]
    omega
  rw [hbooked, UInt64.ofInt_add, ← hinv.load]
  exact s.metrics.load_apply hop c

/-- The oneshot channels have nothing to do with the books. -/
private theorem BooksInv.onChannel (hinv : BooksInv c s) (i : ℕ) (f : Oneshot → Oneshot) :
    BooksInv c (s.onChannel i f) := by
  refine ⟨?_, hinv.stores, fun h hh => ?_⟩
  · have hbooked : (s.onChannel i f).booked c = s.booked c :=
      congrArg List.sum (map_modify_of_eq s.handlers i fun _ => rfl)
    rw [hbooked]
    exact hinv.load
  · obtain ⟨k, hk⟩ := List.mem_iff_getElem?.mp hh
    obtain ⟨h', hk', ⟨-, rfl⟩ | ⟨-, rfl⟩⟩ := getElem?_modify_eq_some hk
    · exact hinv.adds h' (List.mem_of_getElem? hk')
    · exact hinv.adds _ (List.mem_of_getElem? hk')

theorem BooksInv.step (hc : c.counts = true) (hs : (gateway cfg).Reachable s) (hinv : BooksInv c s)
    (h : Step cfg s a t) : BooksInv c t := by
  have hacc (i : ℕ) (h : Handler) (hi : s.handlers[i]? = some h) : h.Accounted cfg (s.terminalOps i) :=
    (answersInv_of_reachable hs).accounted i h hi
  cases h with
  | arrive call =>
    refine ⟨?_, hinv.stores, fun h hh => ?_⟩
    · rw [State.booked, List.map_append, List.sum_append]
      exact hinv.load.trans (congrArg UInt64.ofInt (Int.add_zero _).symm)
    · rcases List.mem_append.mp hh with hh | hh
      · exact hinv.adds h hh
      · obtain rfl := List.mem_singleton.mp hh
        trivial
  | validateKnown _ hi hp => exact hinv.move hi rfl rfl rfl (by simp only [Handler.booked, hp]) trivial
  | @validateUnknown i h _ hi hp =>
    have hstamped : h.stamped = none := by
      have := hacc i h hi
      simp only [Handler.Accounted, hp] at this
      exact this.1
    refine hinv.move hi rfl rfl rfl ?_ (by simp [Handler.AddsOnly, Metrics.noteValidationError, MetricOp.isStore])
    simp only [Handler.booked, Handler.entry, hp, hstamped, sub_self]
  | accept hi hp =>
    refine hinv.move hi rfl rfl rfl ?_ (by simp [Handler.AddsOnly, Metrics.beginRequest, MetricOp.isStore])
    simp only [Handler.booked, hp, sub_self]
  | @reject i h requestId hi hp =>
    have haccounted := hacc i h hi
    simp only [Handler.Accounted, hp] at haccounted
    refine hinv.move hi rfl rfl rfl ?_ (by simp [Handler.AddsOnly, Metrics.noteQueueFull, MetricOp.isStore])
    simp only [Handler.booked, Handler.entry, hp, haccounted.1, haccounted.2.1, sub_self]
  | @recordBegin i h requestId op ops hi hp | @recordFinish i h op ops reply hi hp =>
    have hadds := hinv.adds h (List.mem_of_getElem? hi)
    simp only [Handler.AddsOnly, hp] at hadds
    refine hinv.record hi (hadds op List.mem_cons_self) ?_ fun o ho => hadds o (List.mem_cons_of_mem op ho)
    simp only [Handler.booked, Handler.entry, hp, moved_cons]
    omega
  | wait hi hp =>
    exact hinv.move hi rfl rfl rfl (by simp only [Handler.booked, hp, moved_nil, sub_zero]) trivial
  | answer hi hp =>
    refine hinv.move hi rfl rfl rfl ?_ trivial
    simp only [Handler.booked, Handler.entry, hp, moved_nil, sub_zero]
  | @poll i h requestId awaited elapsedMs hi hp | @elapse i h requestId hi hp =>
    have haccounted := hacc i h hi
    simp only [Handler.Accounted, hp] at haccounted
    refine hinv.move hi rfl rfl rfl ?_
      (by simp [Handler.AddsOnly, Handler.resume, Metrics.finishRequest, MetricOp.isStore])
    simp only [Handler.booked, Handler.entry, Handler.resume, hp, haccounted.1, moved_append]
    exact moved_served hc _ _
  | drop hi hp => exact hinv.move hi rfl rfl rfl (by simp only [Handler.booked, hp]) trivial
  | recv | published | acquire | spawn => exact ⟨hinv.load, trivial, hinv.adds⟩
  | resize =>
    refine ⟨hinv.load, ?_, hinv.adds⟩
    simp [DispatcherPhase.StoresOnly, Metrics.setPoolWorkers, MetricOp.isStore]
  | @publish job op ops hd =>
    have hstores := hinv.stores
    rw [hd] at hstores
    refine ⟨?_, fun o ho => hstores o (List.mem_cons_of_mem op ho), hinv.adds⟩
    exact (s.metrics.load_apply_store (hstores op List.mem_cons_self) hc).trans hinv.load
  | deliver | panic =>
    exact BooksInv.onChannel (s := s.setWorker _ _) ⟨hinv.load, hinv.stores, hinv.adds⟩ _ _
  | start | coreReturns | release | releasePanicked | syncRegistry => exact ⟨hinv.load, hinv.stores, hinv.adds⟩

theorem booksInv_of_reachable (hc : c.counts = true) (h : (gateway cfg).Reachable s) : BooksInv c s := by
  refine gateway_invariant ?_ (fun _ _ _ hr hi _ hs => hi.step hc hr hs) h
  refine ⟨?_, trivial, by simp [initState]⟩
  cases c with
  | latencyMsSum | bucket | poolWorkersCurrent | poolWorkersMax => cases hc
  | outcomeTotal outcome => cases outcome <;> rfl
  | _ => rfl

/-- At every moment a counter of requests is the sum of what the handlers have booked on it. -/
theorem load_of_reachable (hc : c.counts = true) (h : (gateway cfg).Reachable s) :
    s.metrics.load c = UInt64.ofInt (s.booked c) :=
  (booksInv_of_reachable hc h).load

/-! ## Between two updates -/

/-- The number of handlers that have not got as far as `try_send`. -/
def State.arriving (s : State) : ℕ := s.handlers.countP fun h => !h.pastSend

/-- The number of handlers whose await ended with the outcome. -/
def State.ended (s : State) (outcome : Outcome) : ℕ :=
  s.handlers.countP fun h => h.awaited.map Awaited.outcome == some outcome

/-- What stands in the books of a handler that is not in the middle of an update. -/
structure Handler.Settled (h : Handler) : Prop where
  outcome : ∀ outcome, h.booked (.outcomeTotal outcome) =
    if h.awaited.map Awaited.outcome == some outcome then 1 else 0
  accepted : h.booked .requestsTotal = h.booked (.outcomeTotal .ok) + h.booked (.outcomeTotal .error)
    + h.booked (.outcomeTotal .timeout) + (if h.isWaiting then 1 else 0) + (if h.isDropped then 1 else 0)
  timed : h.booked .latencyCount = h.booked (.outcomeTotal .ok) + h.booked (.outcomeTotal .error)
    + h.booked (.outcomeTotal .timeout)
  placed : h.booked .requestsTotal + h.booked .queueFullTotal + h.booked .validationErrorsTotal
    + (if !h.pastSend then 1 else 0) = 1

theorem Handler.settled {h : Handler} {ops : List MetricOp} (hacc : h.Accounted cfg ops)
    (hq : h.inUpdate = false) : h.Settled := by
  cases hp : h.phase with
  | beginning | finishing => simp [Handler.inUpdate, hp] at hq
  | validating | enqueueing =>
    simp only [Handler.Accounted, hp] at hacc
    constructor <;> simp [Handler.booked, Handler.isWaiting, Handler.isDropped, Handler.pastSend, hp, hacc.2.1]
  | waiting =>
    simp only [Handler.Accounted, hp] at hacc
    constructor <;> simp [Handler.booked, Handler.isWaiting, Handler.isDropped, Handler.pastSend, hp, hacc.2.1,
      moved, Metrics.beginRequest, MetricOp.delta]
  | dropped =>
    simp only [Handler.Accounted, hp] at hacc
    constructor <;> simp [Handler.booked, Handler.isWaiting, Handler.isDropped, Handler.pastSend, hp, hacc.1,
      moved, Metrics.beginRequest, MetricOp.delta]
  | done reply =>
    simp only [Handler.Accounted, hp] at hacc
    obtain ⟨op, hanswers, -⟩ := hacc
    generalize hst : h.stamped = stamped at hanswers
    generalize haw : h.awaited = awaited at hanswers
    cases hanswers with
    | unknownModel =>
      constructor <;> simp [Handler.booked, Handler.entry, Handler.isWaiting, Handler.isDropped, Handler.pastSend,
        hp, hst, haw, moved, Metrics.noteValidationError, MetricOp.delta]
    | queueFull =>
      constructor <;> simp [Handler.booked, Handler.entry, Handler.isWaiting, Handler.isDropped, Handler.pastSend,
        hp, hst, haw, moved, Metrics.noteQueueFull, MetricOp.delta]
    | served requestId awaited =>
      cases ho : awaited.outcome <;> constructor <;>
        simp [Handler.booked, Handler.entry, Handler.isWaiting, Handler.isDropped, Handler.pastSend,
          hp, hst, haw, ho, moved, Metrics.beginRequest, Metrics.finishRequest, MetricOp.delta]

section Sums

variable (hsettled : ∀ h ∈ s.handlers, h.Settled)

include hsettled

theorem booked_outcomeTotal (outcome : Outcome) : s.booked (.outcomeTotal outcome) = s.ended outcome := by
  rw [State.booked, State.ended, ← sum_map_ite_eq_countP]
  exact congrArg List.sum (List.map_congr_left fun h hh => (hsettled h hh).outcome outcome)

theorem booked_requestsTotal : s.booked .requestsTotal = s.booked (.outcomeTotal .ok)
    + s.booked (.outcomeTotal .error) + s.booked (.outcomeTotal .timeout) + s.waiting + s.dropped := by
  rw [State.waiting, State.dropped, ← sum_map_ite_eq_countP, ← sum_map_ite_eq_countP]
  simp only [State.booked, ← List.sum_map_add]
  exact congrArg List.sum (List.map_congr_left fun h hh => (hsettled h hh).accepted)

theorem booked_latencyCount : s.booked .latencyCount = s.booked (.outcomeTotal .ok)
    + s.booked (.outcomeTotal .error) + s.booked (.outcomeTotal .timeout) := by
  simp only [State.booked, ← List.sum_map_add]
  exact congrArg List.sum (List.map_congr_left fun h hh => (hsettled h hh).timed)

theorem booked_length : s.booked .requestsTotal + s.booked .queueFullTotal + s.booked .validationErrorsTotal
    + s.arriving = s.handlers.length := by
  rw [State.arriving, ← sum_map_ite_eq_countP]
  simp only [State.booked, ← List.sum_map_add]
  rw [List.map_congr_left fun h hh => (hsettled h hh).placed, List.map_const', List.sum_replicate, nsmul_one]

end Sums

/-- The counters of the gateway agree whenever no handler is in the middle of a metrics update. Each outcome
was counted once for each await that ended so. An accepted request has its outcome, or waits for it, or was
dropped. Latencies were counted with outcomes. And a request that has passed `try_send` was accepted, or
rejected, or named an unknown model. -/
theorem books_balance (cfg : Config) {s : State} (h : (gateway cfg).Reachable s) (hq : s.Quiescent) :
    (∀ outcome, s.metrics.load (.outcomeTotal outcome) = UInt64.ofNat (s.ended outcome)) ∧
    s.metrics.requestsTotal = s.metrics.okTotal + s.metrics.errorTotal + s.metrics.timeoutTotal
      + UInt64.ofNat s.waiting + UInt64.ofNat s.dropped ∧
    s.metrics.latencyCount = s.metrics.okTotal + s.metrics.errorTotal + s.metrics.timeoutTotal ∧
    s.metrics.requestsTotal + s.metrics.queueFullTotal + s.metrics.validationErrorsTotal
      + UInt64.ofNat s.arriving = UInt64.ofNat s.handlers.length := by
  have hsettled : ∀ x ∈ s.handlers, x.Settled := by
    intro x hx
    obtain ⟨i, hi⟩ := List.mem_iff_getElem?.mp hx
    exact Handler.settled ((answersInv_of_reachable h).accounted i x hi) (hq x hx)
  have hload {c : Counter} (hc : c.counts = true) : s.metrics.load c = UInt64.ofInt (s.booked c) :=
    load_of_reachable hc h
  have hrequests : s.metrics.requestsTotal = _ := hload (c := .requestsTotal) rfl
  have hok : s.metrics.okTotal = _ := hload (c := .outcomeTotal .ok) rfl
  have herror : s.metrics.errorTotal = _ := hload (c := .outcomeTotal .error) rfl
  have htimeout : s.metrics.timeoutTotal = _ := hload (c := .outcomeTotal .timeout) rfl
  have hfull : s.metrics.queueFullTotal = _ := hload (c := .queueFullTotal) rfl
  have hinvalid : s.metrics.validationErrorsTotal = _ := hload (c := .validationErrorsTotal) rfl
  have hcount : s.metrics.latencyCount = _ := hload (c := .latencyCount) rfl
  refine ⟨fun outcome => ?_, ?_, ?_, ?_⟩
  · rw [hload (c := .outcomeTotal outcome) rfl, booked_outcomeTotal hsettled, ofInt_natCast]
  · rw [hrequests, hok, herror, htimeout, booked_requestsTotal hsettled]
    simp only [UInt64.ofInt_add, ofInt_natCast]
  · rw [hcount, hok, herror, htimeout, booked_latencyCount hsettled]
    simp only [UInt64.ofInt_add]
  · rw [hrequests, hfull, hinvalid, ← ofInt_natCast, ← ofInt_natCast, ← booked_length hsettled]
    simp only [UInt64.ofInt_add]

/-- One request was served, one was rejected by name, one waits, and one was dropped. -/
theorem books_balance_four :
    ∃ s, (gateway (scenarioConfig 1 1 .infer silentDecoder)).Reachable s ∧ s.handlers.length = 4 ∧
      s.waiting = 1 ∧ s.dropped = 1 ∧
      s.metrics.requestsTotal = s.metrics.okTotal + s.metrics.errorTotal + s.metrics.timeoutTotal
        + UInt64.ofNat s.waiting + UInt64.ofNat s.dropped := by
  obtain ⟨s, hs, hlength, hwaiting, hdropped, hq⟩ :=
    (reachable_init (scenarioConfig 1 1 .infer silentDecoder)).exists_of_run
      (fun s => s.handlers.length = 4 ∧ s.waiting = 1 ∧ s.dropped = 1 ∧ s.Quiescent)
      (submit 0 httpCall ++ submit 1 grpcCall ++ submit 2 httpCall ++ recordOps 0 3 ++ recordOps 1 3
        ++ recordOps 2 3 ++ [.handler 0 .elapse] ++ recordOps 0 6 ++ [.handler 1 .drop]
        ++ [.arrive (.grpc { model := "gpt-5", input := "", options := none, requestId := "" }),
          .handler 3 (.validate 0)] ++ recordOps 3 2)
      (by decide +kernel)
  exact ⟨s, hs, hlength, hwaiting, hdropped, (books_balance (scenarioConfig 1 1 .infer silentDecoder) hs hq).2.1⟩

end InferenceGateway.Gateway
