import InferenceGateway.Common.Broker
import InferenceGateway.Gateway.Correlation
import InferenceGateway.Gateway.Draining

/-! # The gateway is a bounded broker

Seen from outside, the gateway takes requests in, serves them in their order and tells each client once how
it went. The dispatcher, the pool, the semaphore, the oneshot channels and the metrics are not part of that
view: the job in the dispatcher's hand still waits in line, a worker that runs and a worker that has its
result both serve, and a step of the rest is nothing at all.

The line has one place more than the queue, and the gateway refuses already when the queue is full.
-/

namespace InferenceGateway.Gateway

open Common

variable {cfg : Config} {s t : State}

/-- What comes of a job: the result its worker sends, or nothing after a panic. -/
abbrev JobOutcome := Option JobResult

abbrev ServiceEvent := BrokerEvent ℕ InferRequest JobOutcome

abbrev ServiceView := Broker ℕ InferRequest JobOutcome

/-- The rules that the gateway keeps. A request allows what the core may answer to it, and a panic. -/
def serviceRules (cfg : Config) : BrokerRules InferRequest JobOutcome where
  room := cfg.queueCapacity + 1
  full := cfg.queueCapacity
  allows request outcome :=
    outcome = none ∨
      ∃ reply, outcome = some (callInferenceCore cfg.decoder cfg.coreProtocol request reply)

/-! ## What a step looks like from outside -/

/-- What a handler tells its client. -/
def Handler.verdict (h : Handler) : Verdict JobOutcome :=
  match h.awaited with
  | none => .refused
  | some (.result result) => .outcome (some result)
  | some .senderDropped => .outcome none
  | some .elapsed => .expired

/-- The event of a step of handler `i`, which is `h`. -/
def handlerEvents (cfg : Config) (s : State) (i : ℕ) (h : Handler) : HandlerAction → List ServiceEvent
  | .validate _ => if s.registry.contains h.call.model then [] else [.turnAway i]
  | .trySend =>
    match h.phase with
    | .enqueueing requestId =>
      if s.queue.length < cfg.queueCapacity then [.accept i (h.call.jobRequest requestId)] else [.refuse i]
    | _ => []
  | .record =>
    match h.phase with
    | .finishing [] _ => [.tell i h.verdict]
    | _ => []
  | _ => []

/-- The event of a step of a worker. -/
def workerEvents (w : Worker) : WorkerAction → List ServiceEvent
  | .deliver =>
    match w.phase with
    | .returned result => [.settle w.job.responseTx (some result)]
    | _ => []
  | .panic => [.settle w.job.responseTx none]
  | _ => []

/-- The events of a step. -/
def serviceEvents (cfg : Config) (s : State) : Action → List ServiceEvent
  | .handler i a => ((s.handlers[i]?).map fun h => handlerEvents cfg s i h a).getD []
  | .dispatcher =>
    match s.dispatcher with
    | .spawning job => [.start job.responseTx job.request]
    | _ => []
  | .worker j a => ((s.workers[j]?).map fun w => workerEvents w a).getD []
  | _ => []

/-! ## How the states correspond -/

/-- The stage of a client whose job the worker has. -/
def Worker.stage (w : Worker) : Stage InferRequest JobOutcome :=
  match w.phase with
  | .spawned => .serving w.job.request
  | .calling => .serving w.job.request
  | .returned _ => .serving w.job.request
  | .delivered result => .settled (some result)
  | .panicked => .settled none
  | .finished result => .settled result

/-- What a handler that is about to answer has heard: nothing, because its request was sent away, or how
the await ended. -/
def Handler.Heard (h : Handler) (stage : Stage InferRequest JobOutcome) : Prop :=
  match h.awaited with
  | none => stage = .refused
  | some _ => Broker.MayTell stage .expired

/-- A handler corresponds to a client that stands at the stage and has been told that. A handler that has
sent its job leaves open where the job is. -/
def Handler.Stands (h : Handler) (stage : Stage InferRequest JobOutcome) (told : Option (Verdict JobOutcome)) :
    Prop :=
  match h.phase with
  | .validating => stage = .unknown ∧ told = none
  | .enqueueing _ => stage = .unknown ∧ told = none
  | .beginning _ _ => Broker.MayTell stage .expired ∧ told = none
  | .waiting _ => Broker.MayTell stage .expired ∧ told = none
  | .dropped => Broker.MayTell stage .expired ∧ told = none
  | .finishing _ _ => h.Heard stage ∧ told = none
  | .done _ => told = some h.verdict

/-- The jobs that no worker has yet. -/
def State.lineJobs (s : State) : List Job := s.dispatcher.job.toList ++ s.queue

/-- The gateway looks like the broker. -/
structure Presents (s : State) (b : ServiceView) : Prop where
  line : b.line = s.lineJobs.map (·.responseTx)
  queued : ∀ job ∈ s.lineJobs, b.stage job.responseTx = .waiting job.request
  served : ∀ w ∈ s.workers, b.stage w.job.responseTx = w.stage
  handlers : ∀ (i : ℕ) (h : Handler), s.handlers[i]? = some h → h.Stands (b.stage i) (b.told i)
  absent : ∀ i, s.handlers.length ≤ i → b.stage i = .unknown ∧ b.told i = none

theorem Presents.init (cfg : Config) : Presents (initState cfg) Broker.empty where
  line := rfl
  queued := by simp [State.lineJobs, initState, DispatcherPhase.job]
  served := by simp [initState]
  handlers := by simp [initState]
  absent _ _ := ⟨rfl, rfl⟩

variable {b b' : ServiceView}

/-- A job goes from stage to stage without its handler. -/
theorem Handler.Stands.progress {h : Handler} {stage stage' : Stage InferRequest JobOutcome}
    {told : Option (Verdict JobOutcome)} (hst : h.Stands stage told)
    (hold : Broker.MayTell stage .expired) (hnew : Broker.MayTell stage' .expired) :
    h.Stands stage' told := by
  unfold Handler.Stands at hst ⊢
  split at hst
  · rw [hst.1] at hold
    cases hold
  · rw [hst.1] at hold
    cases hold
  · exact ⟨hnew, hst.2⟩
  · exact ⟨hnew, hst.2⟩
  · exact ⟨hnew, hst.2⟩
  · refine ⟨?_, hst.2⟩
    have hheard := hst.1
    unfold Handler.Heard at hheard ⊢
    split at hheard
    · rw [hheard] at hold
      cases hold
    · exact hnew
  · exact hst

/-- A worker serves or has served. -/
theorem Worker.mayTell_stage (w : Worker) : Broker.MayTell w.stage .expired := by
  unfold Worker.stage
  split <;> constructor

/-- The worker's job is not in the line any more. -/
theorem Worker.stage_ne_waiting (w : Worker) (r : InferRequest) : w.stage ≠ .waiting r := by
  unfold Worker.stage
  split <;>
    · intro hwaiting
      cases hwaiting

/-- A step that is not seen: the line stays, and the worker and the handler that move stay where they
are. -/
theorem Presents.quiet (hr : Presents s b) (hl : t.lineJobs = s.lineJobs)
    (hw : ∀ w ∈ t.workers, ∃ v ∈ s.workers, w.job = v.job ∧ w.stage = v.stage)
    (hh : ∀ (i : ℕ) (h : Handler), t.handlers[i]? = some h → h.Stands (b.stage i) (b.told i))
    (hlen : s.handlers.length ≤ t.handlers.length) : Presents t b where
  line := hl ▸ hr.line
  queued := hl ▸ hr.queued
  served w hmem := by
    obtain ⟨v, hv, hjob, hstage⟩ := hw w hmem
    rw [hjob, hstage]
    exact hr.served v hv
  handlers := hh
  absent i hi := hr.absent i (hlen.trans hi)

/-- A step of a handler that is not seen. -/
theorem Presents.quiet_handler (hr : Presents s b) {i : ℕ} {h h' : Handler} (hi : s.handlers[i]? = some h)
    (hh : t.handlers = s.handlers.set i h') (hl : t.lineJobs = s.lineJobs) (hw : t.workers = s.workers)
    (hst : ∀ stage told, h.Stands stage told → h'.Stands stage told) : Presents t b := by
  refine hr.quiet hl (fun w hmem => ⟨w, hw ▸ hmem, rfl, rfl⟩) (fun k c hk => ?_) (by rw [hh, List.length_set])
  rw [hh] at hk
  rcases getElem?_set_eq_some hk with ⟨rfl, rfl⟩ | ⟨-, hk⟩
  · exact hst _ _ (hr.handlers _ h hi)
  · exact hr.handlers k c hk

/-- A step of a worker that is not seen. -/
theorem Presents.quiet_worker (hr : Presents s b) {j : ℕ} {w w' : Worker} (hj : s.workers[j]? = some w)
    (hw : t.workers = s.workers.set j w') (hl : t.lineJobs = s.lineJobs) (hh : t.handlers = s.handlers)
    (hjob : w'.job = w.job) (hstage : w'.stage = w.stage) : Presents t b := by
  refine hr.quiet hl (fun v hmem => ?_) (fun i h hi => hr.handlers i h (hh ▸ hi))
    (congrArg List.length hh).ge
  rw [hw] at hmem
  rcases List.mem_or_eq_of_mem_set hmem with hmem | rfl
  · exact ⟨v, hmem, rfl, rfl⟩
  · exact ⟨w, List.mem_of_getElem? hj, hjob, hstage⟩

/-- Client `k` moves. -/
theorem Presents.move (hr : Presents s b) {k : ℕ} {stage : Stage InferRequest JobOutcome}
    (hb : b'.stage = Function.update b.stage k stage) (htold : b'.told = b.told)
    (hline : b'.line = t.lineJobs.map (·.responseTx))
    (hq : ∀ job ∈ t.lineJobs, job.responseTx ≠ k ∧ job ∈ s.lineJobs ∨
      job.responseTx = k ∧ stage = .waiting job.request)
    (hw : ∀ w ∈ t.workers, w.job.responseTx ≠ k ∧ w ∈ s.workers ∨ w.job.responseTx = k ∧ stage = w.stage)
    (hh : ∀ (i : ℕ) (h : Handler), t.handlers[i]? = some h →
      i ≠ k ∧ s.handlers[i]? = some h ∨ i = k ∧ h.Stands stage (b.told k))
    (hlen : t.handlers.length = s.handlers.length) (hk : k < s.handlers.length) : Presents t b' := by
  have hself : b'.stage k = stage := by rw [hb, Function.update_self]
  have hother {i : ℕ} (hi : i ≠ k) : b'.stage i = b.stage i := by rw [hb, Function.update_of_ne hi]
  refine ⟨hline, fun job hjob => ?_, fun w hmem => ?_, fun i h hi => ?_, fun i hi => ?_⟩
  · rcases hq job hjob with ⟨hne, hjob⟩ | ⟨heq, hst⟩
    · rw [hother hne]
      exact hr.queued job hjob
    · rw [heq, hself]
      exact hst
  · rcases hw w hmem with ⟨hne, hmem⟩ | ⟨heq, hst⟩
    · rw [hother hne]
      exact hr.served w hmem
    · rw [heq, hself]
      exact hst
  · rw [htold]
    rcases hh i h hi with ⟨hne, hi⟩ | ⟨rfl, hst⟩
    · rw [hother hne]
      exact hr.handlers i h hi
    · rw [hself]
      exact hst
  · rw [hlen] at hi
    rw [htold, hother (by omega)]
    exact hr.absent i hi

/-! ## The clients that move -/

/-- A client that the gateway has not seen yet is neither in the line nor at a worker. -/
theorem Presents.fresh (hr : Presents s b) {k : ℕ} (hk : b.stage k = .unknown) :
    (∀ job ∈ s.lineJobs, job.responseTx ≠ k) ∧ ∀ w ∈ s.workers, w.job.responseTx ≠ k := by
  refine ⟨fun job hjob heq => ?_, fun w hw heq => ?_⟩
  · have hq := hr.queued job hjob
    rw [heq, hk] at hq
    cases hq
  · have hs := hr.served w hw
    have hexp := w.mayTell_stage
    rw [← hs, heq, hk] at hexp
    cases hexp

/-- A client that stands anywhere has a handler. -/
theorem Presents.lt_length (hr : Presents s b) {k : ℕ} (hk : Broker.MayTell (b.stage k) .expired) :
    k < s.handlers.length := by
  by_contra hlt
  rw [(hr.absent k (Nat.le_of_not_lt hlt)).1] at hk
  cases hk

/-- The handler of an accepted or refused request goes on. -/
theorem Presents.enter (hr : Presents s b) {i : ℕ} {h h' : Handler} (hi : s.handlers[i]? = some h)
    (hold : b.stage i = .unknown ∧ b.told i = none) {stage : Stage InferRequest JobOutcome}
    (hb : b'.stage = Function.update b.stage i stage) (htold : b'.told = b.told)
    (hline : b'.line = t.lineJobs.map (·.responseTx))
    (hq : ∀ job ∈ t.lineJobs, job ∈ s.lineJobs ∨ job.responseTx = i ∧ stage = .waiting job.request)
    (hw : t.workers = s.workers) (hh : t.handlers = s.handlers.set i h')
    (hst : h'.Stands stage none) : Presents t b' := by
  obtain ⟨hfreshq, hfreshw⟩ := hr.fresh hold.1
  refine hr.move hb htold hline (fun job hjob => ?_) (fun w hmem => ?_) (fun k c hk => ?_)
    (by rw [hh, List.length_set]) (List.getElem?_eq_some_iff.mp hi).1
  · exact (hq job hjob).imp_left fun hjob => ⟨hfreshq job hjob, hjob⟩
  · rw [hw] at hmem
    exact .inl ⟨hfreshw w hmem, hmem⟩
  · rw [hh] at hk
    rcases getElem?_set_eq_some hk with ⟨rfl, rfl⟩ | ⟨hne, hk⟩
    · exact .inr ⟨rfl, hold.2 ▸ hst⟩
    · exact .inl ⟨hne, hk⟩

/-- A worker sends its result or panics. -/
theorem Presents.complete (hr : Presents s b) (hc : CustodyInv cfg s) {j : ℕ} {w : Worker}
    (hj : s.workers[j]? = some w) (w' : Worker) (hjob : w'.job = w.job) (hw : t.workers = s.workers.set j w')
    (f : Oneshot → Oneshot)
    (hh : t.handlers = s.handlers.modify w.job.responseTx fun h => { h with channel := f h.channel })
    (hl : t.lineJobs = s.lineJobs) : Presents t (b.move w.job.responseTx w'.stage) := by
  have hstage := hr.served w (List.mem_of_getElem? hj)
  have hexp : Broker.MayTell (b.stage w.job.responseTx) .expired := hstage ▸ w.mayTell_stage
  refine hr.move rfl rfl (hl ▸ hr.line) (fun job hjob => ?_) (fun v hmem => ?_) (fun k c hk => ?_)
    (by rw [hh, List.length_modify]) (hr.lt_length hexp)
  · rw [hl] at hjob
    refine .inl ⟨fun heq => ?_, hjob⟩
    have hq := hr.queued job hjob
    rw [heq, hstage] at hq
    exact w.stage_ne_waiting _ hq
  · rw [hw] at hmem
    obtain ⟨k, hk⟩ := List.mem_iff_getElem?.mp hmem
    rcases getElem?_set_eq_some hk with ⟨-, rfl⟩ | ⟨hne, hk⟩
    · exact .inr ⟨by rw [hjob], rfl⟩
    · exact .inl ⟨fun heq => hne (hc.worker_unique hk hj heq), List.mem_of_getElem? hk⟩
  · rw [hh] at hk
    obtain ⟨h, hh, ⟨rfl, rfl⟩ | ⟨hne, rfl⟩⟩ := getElem?_modify_eq_some hk
    · exact .inr ⟨rfl, (hr.handlers _ h hh).progress hexp w'.mayTell_stage⟩
    · exact .inl ⟨hne, hh⟩

/-! ## One step -/

/-- What a handler tells its client may be told. -/
theorem Presents.mayTell_verdict (hs : (gateway cfg).Reachable s) (hr : Presents s b) {i : ℕ} {h : Handler}
    (hi : s.handlers[i]? = some h) (hheard : h.Heard (b.stage i)) :
    Broker.MayTell (b.stage i) h.verdict := by
  have hc := channelsInv_of_reachable hs i h hi
  unfold Handler.Heard at hheard
  unfold Handler.verdict
  cases ha : h.awaited with
  | none =>
    rw [ha] at hheard
    rw [hheard]
    exact .refused
  | some awaited =>
    rw [ha] at hheard
    cases awaited with
    | result result =>
      -- The value came through the channel from a worker that has the job.
      obtain ⟨j, w, hj, rfl, hsent⟩ := hc.result result ha
      rw [hr.served w (List.mem_of_getElem? hj)]
      unfold Worker.stage
      rcases hsent with hp | hp
      · rw [hp]
        exact .outcome _
      · rw [hp]
        exact .outcome _
    | senderDropped =>
      obtain ⟨j, w, hj, rfl, hcrashed⟩ := hc.cancelled ha
      rw [hr.served w (List.mem_of_getElem? hj)]
      unfold Worker.stage
      rcases hcrashed with hp | hp
      · rw [hp]
        exact .outcome _
      · rw [hp]
        exact .outcome _
    | elapsed => exact hheard

theorem run_event {e : ServiceEvent} (h : Broker.Step (serviceRules cfg) b e b') :
    (Broker.system ℕ (serviceRules cfg)).run b [e] = some b' := by
  rw [System.run_cons]
  exact congrArg (Option.bind · _) h.next_eq

/-- The broker can follow every step of the gateway. -/
theorem Presents.step {a : Action} (hs : (gateway cfg).Reachable s) (hr : Presents s b)
    (h : Step cfg s a t) :
    ∃ b', (Broker.system ℕ (serviceRules cfg)).run b (serviceEvents cfg s a) = some b' ∧ Presents t b' := by
  have hquiet (he : serviceEvents cfg s a = []) (ht : Presents t b) :
      ∃ b', (Broker.system ℕ (serviceRules cfg)).run b (serviceEvents cfg s a) = some b' ∧ Presents t b' :=
    ⟨b, by rw [he]; rfl, ht⟩
  have hevent {e : ServiceEvent} {b' : ServiceView} (he : serviceEvents cfg s a = [e])
      (hb : Broker.Step (serviceRules cfg) b e b') (ht : Presents t b') :
      ∃ b', (Broker.system ℕ (serviceRules cfg)).run b (serviceEvents cfg s a) = some b' ∧ Presents t b' :=
    ⟨b', by rw [he]; exact run_event hb, ht⟩
  have hc := custodyInv_of_reachable hs
  have hlength := congrArg List.length hr.line
  rw [List.length_map, State.lineJobs, List.length_append] at hlength
  have hhand : s.dispatcher.job.toList.length ≤ 1 := by cases s.dispatcher.job <;> simp
  have hold {i : ℕ} {h : Handler} (hi : s.handlers[i]? = some h)
      (hp : h.phase = .validating ∨ ∃ requestId, h.phase = .enqueueing requestId) :
      b.stage i = .unknown ∧ b.told i = none := by
    have hst := hr.handlers i h hi
    unfold Handler.Stands at hst
    rcases hp with hp | ⟨requestId, hp⟩ <;>
    · rw [hp] at hst
      exact hst
  cases h with
  | arrive call =>
    refine hquiet rfl (hr.quiet rfl (fun w hw => ⟨w, hw, rfl, rfl⟩) (fun k c hk => ?_) (by simp))
    rcases getElem?_append_singleton hk with ⟨rfl, rfl⟩ | hk
    · exact hr.absent _ le_rfl
    · exact hr.handlers k c hk
  | validateKnown fresh hi hp hm =>
    refine hquiet (by simp [serviceEvents, hi, handlerEvents, hm]) (hr.quiet_handler hi rfl rfl rfl ?_)
    simp [Handler.Stands, hp]
  | @validateUnknown i h fresh hi hp hm =>
    have hnew := hold hi (.inl hp)
    have haw := (answersInv_of_reachable hs).accounted i h hi
    simp only [Handler.Accounted, hp] at haw
    refine hevent (by simp [serviceEvents, hi, handlerEvents, hm]) (.turnAway hnew.1)
      (hr.enter hi hnew rfl rfl hr.line (fun job hjob => .inl hjob) rfl rfl ⟨?_, rfl⟩)
    simp [Handler.Heard, haw.2.1]
  | @accept i h id hi hp hq =>
    have hnew := hold hi (.inr ⟨_, hp⟩)
    refine hevent (by simp [serviceEvents, hi, handlerEvents, hp, hq]) (.accept (h.call.jobRequest id) hnew.1 ?_)
      (hr.enter hi hnew rfl rfl ?_ (fun job hjob => ?_) rfl rfl ⟨.expiredWaiting _, rfl⟩)
    · show b.line.length < cfg.queueCapacity + 1
      omega
    · show b.line ++ [i] = _
      rw [hr.line]
      simp [State.lineJobs, State.setHandler]
    · simp only [State.lineJobs, State.setHandler, ← List.append_assoc, List.mem_append,
        List.mem_singleton] at hjob
      rcases hjob with hjob | rfl
      · exact .inl (by simpa only [State.lineJobs, List.mem_append] using hjob)
      · exact .inr ⟨rfl, rfl⟩
  | @reject i h id hi hp hq =>
    have hnew := hold hi (.inr ⟨_, hp⟩)
    have haw := (answersInv_of_reachable hs).accounted i h hi
    simp only [Handler.Accounted, hp] at haw
    refine hevent (by simp [serviceEvents, hi, handlerEvents, hp, hq]) (.refuse hnew.1 ?_)
      (hr.enter hi hnew rfl rfl hr.line (fun job hjob => .inl hjob) rfl rfl ⟨?_, rfl⟩)
    · show cfg.queueCapacity ≤ b.line.length
      omega
    · simp [Handler.Heard, haw.2.1]
  | recordBegin hi hp | wait hi hp =>
    refine hquiet (by simp [serviceEvents, hi, handlerEvents, hp]) (hr.quiet_handler hi rfl rfl rfl ?_)
    simp [Handler.Stands, hp]
  | recordFinish hi hp =>
    refine hquiet (by simp [serviceEvents, hi, handlerEvents, hp]) (hr.quiet_handler hi rfl rfl rfl ?_)
    simp [Handler.Stands, Handler.Heard, hp]
  | poll _ hi hp | elapse hi hp =>
    refine hquiet (by simp [serviceEvents, hi, handlerEvents]) (hr.quiet_handler hi rfl rfl rfl ?_)
    simp [Handler.Stands, Handler.Heard, Handler.resume, hp]
  | drop hi hp =>
    refine hquiet (by simp [serviceEvents, hi, handlerEvents]) (hr.quiet_handler hi rfl rfl rfl ?_)
    simp [Handler.Stands, hp]
  | @answer i h reply hi hp =>
    have hst := hr.handlers i h hi
    simp only [Handler.Stands, hp] at hst
    refine hevent (by simp [serviceEvents, hi, handlerEvents, hp])
      (.tell (hr.mayTell_verdict hs hi hst.1) hst.2) ⟨hr.line, hr.queued, hr.served, ?_, ?_⟩
    · intro k c hk
      rcases getElem?_set_eq_some hk with ⟨rfl, rfl⟩ | ⟨hne, hk⟩
      · exact Function.update_self _ _ _
      · show c.Stands (b.stage k) (Function.update b.told i _ k)
        rw [Function.update_of_ne hne]
        exact hr.handlers k c hk
    · intro k hk
      rw [State.setHandler, List.length_set] at hk
      have hlt := (List.getElem?_eq_some_iff.mp hi).1
      show _ ∧ Function.update b.told i _ k = none
      rw [Function.update_of_ne (by omega)]
      exact hr.absent k hk
  | recv hd hq =>
    refine hquiet (by simp [serviceEvents, hd]) (hr.quiet ?_ (fun w hw => ⟨w, hw, rfl, rfl⟩) hr.handlers le_rfl)
    simp [State.lineJobs, hd, hq, DispatcherPhase.job]
  | resize hd | publish hd | published hd | acquire hd =>
    refine hquiet (by simp [serviceEvents, hd]) (hr.quiet ?_ (fun w hw => ⟨w, hw, rfl, rfl⟩) hr.handlers le_rfl)
    simp [State.lineJobs, hd, DispatcherPhase.job]
  | @spawn job hd =>
    have hline : s.lineJobs = job :: s.queue := by rw [State.lineJobs, hd]; rfl
    have hstage := hr.queued job (hline ▸ List.mem_cons_self)
    have hexp : Broker.MayTell (b.stage job.responseTx) .expired := hstage ▸ .expiredWaiting _
    have hnodup : (s.lineJobs.map (·.responseTx)).Nodup := by
      have hjobs := hc.nodup
      rw [← hc.order, State.jobs, List.append_assoc, List.map_append] at hjobs
      exact (List.nodup_append.mp hjobs).2.1
    rw [hline, List.map_cons, List.nodup_cons] at hnodup
    have hhead : b.line = job.responseTx :: s.queue.map (·.responseTx) := by
      rw [hr.line, hline, List.map_cons]
    refine hevent (by simp [serviceEvents, hd]) (.start hstage hhead)
      (hr.move rfl rfl rfl (fun job' hjob => ?_) (fun w hw => ?_) (fun k c hk => ?_) rfl
        (hr.lt_length hexp))
    · refine .inl ⟨fun heq => hnodup.1 ?_, hline ▸ List.mem_cons_of_mem _ hjob⟩
      exact heq ▸ List.mem_map_of_mem hjob
    · rcases List.mem_append.mp hw with hw | hw
      · refine .inl ⟨fun heq => w.stage_ne_waiting job.request ?_, hw⟩
        rw [← hr.served w hw, heq, hstage]
      · obtain rfl := List.mem_singleton.mp hw
        exact .inr ⟨rfl, rfl⟩
    · by_cases hkj : k = job.responseTx
      · subst hkj
        exact .inr ⟨rfl, (hr.handlers _ c hk).progress hexp (.expiredServing _)⟩
      · exact .inl ⟨hkj, hk⟩
  | start hj hp | coreReturns _ hj hp | release hj hp | releasePanicked hj hp =>
    refine hquiet (by simp [serviceEvents, hj, workerEvents]) (hr.quiet_worker hj rfl rfl rfl rfl ?_)
    simp [Worker.stage, hp]
  | @deliver j w result hj hp =>
    have hreply := hr.served w (List.mem_of_getElem? hj)
    refine hevent (e := .settle w.job.responseTx (some result))
      (by simp [serviceEvents, hj, workerEvents, hp]) (.settle (r := w.job.request) ?_ ?_)
      (hr.complete hc hj { w with phase := .delivered result } rfl rfl (fun ch => ch.send result) rfl rfl)
    · rw [hreply, Worker.stage, hp]
    · obtain ⟨reply, -, hresult⟩ := sound_of_reachable hs w (List.mem_of_getElem? hj) result (.inl hp)
      exact .inr ⟨reply, congrArg some hresult⟩
  | @panic j w hj hp =>
    refine hevent (e := .settle w.job.responseTx none) (by simp [serviceEvents, hj, workerEvents])
      (.settle (r := w.job.request) ?_ (.inl rfl))
      (hr.complete hc hj { w with phase := .panicked } rfl rfl Oneshot.dropSender rfl rfl)
    rw [hr.served w (List.mem_of_getElem? hj)]
    rcases hp with hp | hp | ⟨result, hp⟩ <;> rw [Worker.stage, hp]
  | syncRegistry =>
    exact hquiet rfl (hr.quiet rfl (fun w hw => ⟨w, hw, rfl, rfl⟩) hr.handlers le_rfl)

/-! ## Main results -/

/-- The gateway refines a bounded broker. -/
noncomputable def service (cfg : Config) :
    Simulation (gateway cfg) (Broker.system ℕ (serviceRules cfg)) where
  rel := Presents
  act := serviceEvents cfg
  init _ hs := ⟨Broker.empty, rfl, hs ▸ Presents.init cfg⟩
  step _ _ _ _ hs hr ht := hr.step hs (step_eq_some_iff.mp ht)

/-- The jobs that `try_send` accepted are those that join the line. -/
theorem Step.accepted_eq {a : Action} (h : Step cfg s a t) :
    t.accepted = s.accepted ++ (serviceEvents cfg s a).filterMap Broker.joins := by
  cases h with
  | arrive | syncRegistry => exact (List.append_nil _).symm
  | validateKnown _ hi hp hm | validateUnknown _ hi hp hm =>
    simp [serviceEvents, hi, handlerEvents, hm, State.setHandler, Broker.joins]
  | accept hi hp hq => simp [serviceEvents, hi, handlerEvents, hp, hq, Broker.joins]
  | reject hi hp hq =>
    simp [serviceEvents, hi, handlerEvents, hp, hq.not_gt, State.setHandler, Broker.joins]
  | recordBegin hi hp | wait hi hp | recordFinish hi hp | answer hi hp | poll _ hi hp | elapse hi hp
  | drop hi hp =>
    simp [serviceEvents, hi, handlerEvents, hp, State.record, State.setHandler, Broker.joins]
  | recv hd | resize hd | publish hd | published hd | acquire hd | spawn hd =>
    simp [serviceEvents, hd, Broker.joins]
  | start hj hp | coreReturns _ hj hp | deliver hj hp | panic hj hp | release hj hp
  | releasePanicked hj hp =>
    simp [serviceEvents, hj, workerEvents, hp, State.setWorker, State.onChannel, State.releasePermit,
      Broker.joins]

/-- Every run of the gateway is a run of the broker, up to how the states look. -/
theorem service_refines (cfg : Config) {as : List Action}
    (hrun : (gateway cfg).run (initState cfg) as = some t) :
    ∃ b, (Broker.system ℕ (serviceRules cfg)).run Broker.empty ((service cfg).trace (initState cfg) as) =
      some b ∧ Presents t b :=
  (service cfg).run_from (.init rfl) (Presents.init cfg) hrun

/-- A client has been told something exactly if its handler is done. -/
theorem Presents.told_iff (hr : Presents s b) {i : ℕ} {h : Handler} (hi : s.handlers[i]? = some h)
    (v : Verdict JobOutcome) :
    b.told i = some v ↔ (∃ reply, h.phase = .done reply) ∧ v = h.verdict := by
  have hst := hr.handlers i h hi
  unfold Handler.Stands at hst
  cases hp : h.phase with
  | done reply =>
    rw [hp] at hst
    rw [hst]
    simp [eq_comm]
  | _ =>
    rw [hp] at hst
    rw [hst.2]
    simp

/-- What a client sees of the gateway is lawful: it is refused only when the queue is full or its model is
unknown, its turn comes once and in the order of acceptance, its job is completed once and as the core may
answer to its own request, and it is told once, and the truth. The jobs that were accepted and the jobs that
workers started are those that the events show, and the handlers that are done are those that told. -/
theorem service_lawful (cfg : Config) {as : List Action}
    (hrun : (gateway cfg).run (initState cfg) as = some t) :
    Broker.Lawful (serviceRules cfg) ((service cfg).trace (initState cfg) as) ∧
      ((service cfg).trace (initState cfg) as).filterMap Broker.joins = t.accepted ∧
      ((service cfg).trace (initState cfg) as).filterMap Broker.starts = t.startOrder ∧
      ∀ (i : ℕ) (h : Handler), t.handlers[i]? = some h → ∀ v,
        .tell i v ∈ (service cfg).trace (initState cfg) as ↔
          (∃ reply, h.phase = .done reply) ∧ v = h.verdict := by
  obtain ⟨b, hb, hr⟩ := service_refines cfg hrun
  have hjoins := (service cfg).trace_filterMap State.accepted Broker.joins
    (fun _ _ _ ht => (step_eq_some_iff.mp ht).accepted_eq) hrun
  have hline : _ = _ ++ b.line := Broker.line_conserved hb
  have horder := (custodyInv_of_reachable (System.Reachable.run (.init rfl) hrun)).order
  refine ⟨Broker.lawful_of_run hb, hjoins.symm, ?_, fun i h hi v => ?_⟩
  · -- What is not in the line any more is at a worker.
    have hlist : t.accepted = ((service cfg).trace (initState cfg) as).filterMap Broker.starts ++ b.line :=
      hjoins.trans hline
    rw [← horder, State.jobs, List.append_assoc, List.map_append, List.map_map] at hlist
    exact (List.append_inj_left' hlist (by rw [hr.line]; rfl)).symm
  · rw [← Broker.told_of_run hb]
    exact hr.told_iff hi v

/-- The run of two requests of which the first times out: handler 0 is told so, and both jobs are started in
their order. -/
theorem service_lawful_late :
    ∃ t, (gateway (scenarioConfig 2 2 .infer silentDecoder)).run
        (initState (scenarioConfig 2 2 .infer silentDecoder)) lateRun = some t ∧
      ((service (scenarioConfig 2 2 .infer silentDecoder)).trace
        (initState (scenarioConfig 2 2 .infer silentDecoder)) lateRun).filterMap Broker.starts = [0, 1] ∧
      .tell 0 .expired ∈ (service (scenarioConfig 2 2 .infer silentDecoder)).trace
        (initState (scenarioConfig 2 2 .infer silentDecoder)) lateRun := by
  have hrun : ((gateway (scenarioConfig 2 2 .infer silentDecoder)).run
      (initState (scenarioConfig 2 2 .infer silentDecoder)) lateRun).map (fun t =>
        (t.startOrder, (t.handlers[0]?).map fun h => (h.timedOut, h.ended))) =
      some ([0, 1], some (true, true)) := by
    decide +kernel
  obtain ⟨t, ht, hend⟩ := Option.map_eq_some_iff.mp hrun
  obtain ⟨horder, hzero⟩ := Prod.mk.inj hend
  obtain ⟨h, hi, hh⟩ := Option.map_eq_some_iff.mp hzero
  obtain ⟨hlate, hended⟩ := Prod.mk.inj hh
  have haw := Handler.awaited_of_timedOut hlate
  obtain ⟨-, -, hstarts, htold⟩ := service_lawful _ ht
  refine ⟨t, ht, hstarts.trans horder, (htold 0 h hi .expired).mpr ⟨?_, by rw [Handler.verdict, haw]⟩⟩
  -- A handler that left its await was not dropped.
  have hacc := (answersInv_of_reachable (System.Reachable.run (.init rfl) ht)).accounted 0 h hi
  unfold Handler.ended at hended
  cases hp : h.phase with
  | done reply => exact ⟨reply, rfl⟩
  | dropped =>
    simp only [Handler.Accounted, hp, haw] at hacc
    cases hacc.1
  | _ => simp [hp] at hended

/-- Once the gateway has drained, nothing that it took in is left: every job that joined the line was
completed, and every client that stayed was told how it went. -/
theorem service_completes (cfg : Config) {as : List Action}
    (hrun : (gateway cfg).run (initState cfg) as = some t) (hdrained : Drained cfg t) :
    (∀ i request, .accept i request ∈ (service cfg).trace (initState cfg) as →
      ∃ outcome, .settle i outcome ∈ (service cfg).trace (initState cfg) as) ∧
    ∀ (i : ℕ) (h : Handler), t.handlers[i]? = some h → h.phase = .dropped ∨
      .tell i h.verdict ∈ (service cfg).trace (initState cfg) as := by
  obtain ⟨b, hb, hr⟩ := service_refines cfg hrun
  have hjoins := (service cfg).trace_filterMap State.accepted Broker.joins
    (fun _ _ _ ht => (step_eq_some_iff.mp ht).accepted_eq) hrun
  refine ⟨fun i request haccept => ?_, fun i h hi => ?_⟩
  · have hi : i ∈ t.startOrder := by
      rw [hdrained.startOrder, hjoins]
      exact List.mem_append_right _ (List.mem_filterMap.mpr ⟨_, haccept, rfl⟩)
    obtain ⟨w, hw, rfl⟩ := List.mem_map.mp hi
    have hrecord := Broker.recorded_of_run hb w.job.responseTx
    rw [hr.served w hw] at hrecord
    have hdone : w.holdsPermit = false :=
      Bool.eq_false_of_not_eq_true (List.countP_eq_zero.mp hdrained.running w hw)
    cases hp : w.phase with
    | finished outcome =>
      rw [Worker.stage, hp] at hrecord
      obtain ⟨r, -, -, -, hsettle⟩ := hrecord
      exact ⟨outcome, hsettle⟩
    | _ => simp [Worker.holdsPermit, hp] at hdone
  · have hended := hdrained.handlers h (List.mem_of_getElem? hi)
    cases hp : h.phase with
    | dropped => exact .inl rfl
    | done reply => exact .inr ((Broker.told_of_run hb i _).mp ((hr.told_iff hi _).mpr ⟨⟨reply, hp⟩, rfl⟩))
    | _ => simp [Handler.ended, hp] at hended

/-- The same two requests, until the late result is gone too. -/
theorem service_completes_late :
    ∃ t, (gateway (scenarioConfig 2 2 .infer silentDecoder)).run
        (initState (scenarioConfig 2 2 .infer silentDecoder))
        (lateRun ++ [.worker 0 .deliver, .worker 0 .release]) = some t ∧ t.accepted = [0, 1] ∧
      ∀ i request, .accept i request ∈ (service (scenarioConfig 2 2 .infer silentDecoder)).trace
          (initState (scenarioConfig 2 2 .infer silentDecoder))
          (lateRun ++ [.worker 0 .deliver, .worker 0 .release]) →
        ∃ outcome, .settle i outcome ∈ (service (scenarioConfig 2 2 .infer silentDecoder)).trace
          (initState (scenarioConfig 2 2 .infer silentDecoder))
          (lateRun ++ [.worker 0 .deliver, .worker 0 .release]) := by
  have hrun : ((gateway (scenarioConfig 2 2 .infer silentDecoder)).run
      (initState (scenarioConfig 2 2 .infer silentDecoder))
      (lateRun ++ [.worker 0 .deliver, .worker 0 .release])).map (fun t =>
        (t.accepted, t.handlers.all Handler.ended, t.running, t.dispatcher.isReceiving, t.queue.isEmpty)) =
      some ([0, 1], true, 0, true, true) := by
    decide +kernel
  obtain ⟨t, ht, hend⟩ := Option.map_eq_some_iff.mp hrun
  obtain ⟨hacc, hend⟩ := Prod.mk.inj hend
  obtain ⟨hended, hend⟩ := Prod.mk.inj hend
  obtain ⟨hrunning, hend⟩ := Prod.mk.inj hend
  obtain ⟨hreceiving, hempty⟩ := Prod.mk.inj hend
  have hdrained := drained_of_rest (System.Reachable.run (.init rfl) ht) (List.all_eq_true.mp hended) hrunning
    ⟨DispatcherPhase.eq_receiving hreceiving, List.isEmpty_iff.mp hempty⟩
  exact ⟨t, ht, hacc, (service_completes _ ht hdrained).1⟩

end InferenceGateway.Gateway
