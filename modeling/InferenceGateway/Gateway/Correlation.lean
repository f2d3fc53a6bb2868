import InferenceGateway.Gateway.Answers
import InferenceGateway.Gateway.Custody

/-! # Whose result a handler returns

A job names its handler by the oneshot sender it carries. Through every run the job of a handler holds
that handler's own request, the value in a handler's channel was sent by a worker that has its job, and
a receiver only sees its sender gone after such a worker panicked. Since no two workers have the same
job, what a handler awaits is the fate of its own request and of nothing else.
-/

namespace InferenceGateway.Gateway

open Common

variable {cfg : Config} {s t : State} {a : Action}

/-! ## Jobs -/

/-- The job is the one its handler built. -/
def State.OwnJob (s : State) (job : Job) : Prop :=
  ∃ (h : Handler) (requestId : String), s.handlers[job.responseTx]? = some h ∧
    h.pastSend = true ∧ h.stamped = some requestId ∧ job.request = h.call.jobRequest requestId

theorem Step.ownJob (h : Step cfg s a t) {job : Job} (hj : s.OwnJob job) : t.OwnJob job := by
  obtain ⟨k, id, hk, hp, hs, hr⟩ := hj
  obtain ⟨k', hk', he⟩ := h.handlers_evolve _ k hk
  obtain ⟨hp', hs'⟩ := he.pastSend hp
  exact ⟨k', id, hk', hp', hs' ▸ hs, by rw [he.call, hr]⟩

theorem ownJob_of_reachable (h : (gateway cfg).Reachable s) : ∀ job ∈ s.jobs, s.OwnJob job := by
  refine gateway_invariant (I := fun s => ∀ job ∈ s.jobs, s.OwnJob job) (by simp [State.jobs, initState,
    DispatcherPhase.job]) ?_ h
  intro s a t hr hi _ hs job hj
  cases hs.jobsEffect with
  | none hjobs => exact hs.ownJob (hi job (hjobs ▸ hj))
  | reject _ _ _ _ hjobs => exact hs.ownJob (hi job (hjobs ▸ hj))
  | accept hk hp hk' _ hjobs =>
    rw [hjobs, List.mem_append, List.mem_singleton] at hj
    rcases hj with hj | rfl
    · exact hs.ownJob (hi job hj)
    · obtain ⟨h', hk', hpast, hcall, hstamp⟩ := hk'
      have hacc := (answersInv_of_reachable hr).accounted _ _ hk
      simp only [Handler.Accounted, hp] at hacc
      exact ⟨h', _, hk', hpast, hstamp ▸ hacc.1, by rw [hcall]⟩

/-- The job of a worker is the one its handler built. -/
theorem ownJob_of_worker (h : (gateway cfg).Reachable s) {j : ℕ} {w : Worker}
    (hj : s.workers[j]? = some w) : s.OwnJob w.job := by
  refine ownJob_of_reachable h w.job ?_
  rw [State.jobs, List.append_assoc]
  exact List.mem_append_left _ (List.mem_map_of_mem (List.mem_of_getElem? hj))

/-! ## Workers -/

/-- What a worker has to send is the outcome of its own call. -/
def Worker.Sound (cfg : Config) (w : Worker) : Prop :=
  ∀ result, w.phase = .returned result ∨ w.HasSent result →
    ∃ reply, w.coreReply = some reply ∧
      result = callInferenceCore cfg.decoder cfg.coreProtocol w.job.request reply

private theorem sound_setWorker {j : ℕ} {w' : Worker}
    (hi : ∀ w ∈ s.workers, w.Sound cfg) (hw : w'.Sound cfg) :
    ∀ w ∈ (s.setWorker j w').workers, w.Sound cfg := by
  intro w hmem
  rcases List.mem_or_eq_of_mem_set hmem with hmem | rfl
  · exact hi w hmem
  · exact hw

theorem sound_of_reachable (h : (gateway cfg).Reachable s) : ∀ w ∈ s.workers, w.Sound cfg := by
  refine gateway_invariant (I := fun s => ∀ w ∈ s.workers, w.Sound cfg) (by simp [initState]) ?_ h
  intro s a t _ hi _ hs
  cases hs with
  | arrive | validateKnown | validateUnknown | accept | reject | recordBegin | wait | recordFinish
  | answer | poll | elapse | drop | recv | resize | publish | published | acquire
  | syncRegistry => exact hi
  | spawn =>
    intro w hw
    rcases List.mem_append.mp hw with hw | hw
    · exact hi w hw
    · obtain rfl := List.mem_singleton.mp hw
      simp [Worker.Sound, Worker.HasSent]
  | start => exact sound_setWorker hi (by simp [Worker.Sound, Worker.HasSent])
  | coreReturns reply =>
    refine sound_setWorker hi fun result hr => ⟨reply, rfl, ?_⟩
    simpa [Worker.HasSent, eq_comm] using hr
  | deliver hj hp =>
    refine sound_setWorker hi fun result hr => hi _ (List.mem_of_getElem? hj) result (.inl ?_)
    simpa [Worker.HasSent, hp] using hr
  | panic => exact sound_setWorker hi (by simp [Worker.Sound, Worker.HasSent])
  | release hj hp =>
    refine sound_setWorker hi fun result hr => hi _ (List.mem_of_getElem? hj) result (.inr (.inl ?_))
    simpa [Worker.HasSent, hp] using hr
  | releasePanicked => exact sound_setWorker hi (by simp [Worker.Sound, Worker.HasSent])

/-- A worker of handler `i` sent the result. -/
def State.HasSent (s : State) (i : ℕ) (result : JobResult) : Prop :=
  ∃ (j : ℕ) (w : Worker), s.workers[j]? = some w ∧ w.job.responseTx = i ∧ w.HasSent result

/-- A worker of handler `i` panicked. -/
def State.Crashed (s : State) (i : ℕ) : Prop :=
  ∃ (j : ℕ) (w : Worker), s.workers[j]? = some w ∧ w.job.responseTx = i ∧ w.Crashed

theorem Step.hasSent (h : Step cfg s a t) {i : ℕ} {result : JobResult} (hi : s.HasSent i result) :
    t.HasSent i result := by
  obtain ⟨j, w, hj, rfl, hw⟩ := hi
  obtain ⟨w', hj', he⟩ := h.workers_evolve j w hj
  exact ⟨j, w', hj', by rw [he.job], he.sent _ hw⟩

theorem Step.crashed (h : Step cfg s a t) {i : ℕ} (hi : s.Crashed i) : t.Crashed i := by
  obtain ⟨j, w, hj, rfl, hw⟩ := hi
  obtain ⟨w', hj', he⟩ := h.workers_evolve j w hj
  exact ⟨j, w', hj', by rw [he.job], he.crashed hw⟩

/-! ## Channels -/

namespace Oneshot

theorem poll_eq_result {ch : Oneshot} {result : JobResult} (h : ch.poll = some (.result result)) :
    ch.value = some result := by
  simp only [poll] at h
  split at h
  · cases h; assumption
  · split at h <;> cases h

theorem poll_eq_senderDropped {ch : Oneshot} (h : ch.poll = some .senderDropped) :
    ch.value = none ∧ ch.txAlive = false := by
  simp only [poll] at h
  split at h
  · cases h
  · split at h
    · cases h
    · exact ⟨‹_›, Bool.eq_false_iff.mpr ‹_›⟩

end Oneshot

/-- How the channel of handler `i` and what it awaited relate to the workers. -/
structure Handler.ChannelOk (s : State) (i : ℕ) (h : Handler) : Prop where
  value : ∀ result, h.channel.value = some result → s.HasSent i result
  silent : h.channel.rxAlive = true → h.channel.value = none → h.channel.txAlive = false →
    s.Crashed i
  opened : h.leftAwait = false → h.channel.rxAlive = true
  closed : h.awaited.isSome = true → h.channel.rxAlive = false
  result : ∀ result, h.awaited = some (.result result) → s.HasSent i result
  cancelled : h.awaited = some .senderDropped → s.Crashed i

theorem Handler.ChannelOk.mono {i : ℕ} {h : Handler} (hs : Step cfg s a t) (hc : h.ChannelOk s i) :
    h.ChannelOk t i where
  value result hr := hs.hasSent (hc.value result hr)
  silent hrx hv htx := hs.crashed (hc.silent hrx hv htx)
  opened := hc.opened
  closed := hc.closed
  result result hr := hs.hasSent (hc.result result hr)
  cancelled ha := hs.crashed (hc.cancelled ha)

/-- A handler that keeps its channel and what it awaited. -/
theorem Handler.ChannelOk.keep {i : ℕ} {h h' : Handler} (hc : h.ChannelOk s i)
    (hch : h'.channel = h.channel) (haw : h'.awaited = h.awaited)
    (hleft : h'.leftAwait = false → h.leftAwait = false) : h'.ChannelOk s i where
  value := by rw [hch]; exact hc.value
  silent := by rw [hch]; exact hc.silent
  opened h := by rw [hch]; exact hc.opened (hleft h)
  closed := by rw [hch, haw]; exact hc.closed
  result := by rw [haw]; exact hc.result
  cancelled := by rw [haw]; exact hc.cancelled

/-- A handler that drops its receiver and leaves its await, or never gets there. -/
theorem Handler.ChannelOk.leave {i : ℕ} {h h' : Handler} (hc : h.ChannelOk s i)
    (hv : h'.channel.value = h.channel.value) (hrx : h'.channel.rxAlive = false)
    (hleft : h'.leftAwait = true) (hres : ∀ result, h'.awaited = some (.result result) →
      h.awaited = some (.result result) ∨ h.channel.value = some result)
    (hcan : h'.awaited = some .senderDropped → s.Crashed i) : h'.ChannelOk s i where
  value := by rw [hv]; exact hc.value
  silent h := by rw [hrx] at h; cases h
  opened h := by rw [hleft] at h; cases h
  closed _ := hrx
  result result ha := (hres result ha).elim (hc.result result) (hc.value result)
  cancelled := hcan

/-- The worker of handler `i` sends its result. -/
theorem Handler.ChannelOk.send {i : ℕ} {h : Handler} (hc : h.ChannelOk s i) {result : JobResult}
    (hsent : s.HasSent i result) :
    Handler.ChannelOk s i { h with channel := h.channel.send result } where
  value r hr := by
    simp only [Oneshot.send] at hr
    split at hr
    · cases hr; exact hsent
    · exact hc.value r hr
  silent hrx hv _ := by
    simp only [Oneshot.send] at hrx hv
    rw [hrx, if_pos rfl] at hv
    cases hv
  opened := hc.opened
  closed := hc.closed
  result := hc.result
  cancelled := hc.cancelled

/-- The worker of handler `i` panics. -/
theorem Handler.ChannelOk.dropSender {i : ℕ} {h : Handler} (hc : h.ChannelOk s i)
    (hcrash : s.Crashed i) :
    Handler.ChannelOk s i { h with channel := h.channel.dropSender } where
  value := hc.value
  silent _ _ _ := hcrash
  opened := hc.opened
  closed := hc.closed
  result := hc.result
  cancelled := hc.cancelled

/-- Every handler's channel is in order. -/
def ChannelsInv (s : State) : Prop :=
  ∀ (i : ℕ) (h : Handler), s.handlers[i]? = some h → h.ChannelOk s i

private theorem ChannelsInv.move
    (hinv : ∀ (i : ℕ) (h : Handler), s.handlers[i]? = some h → h.ChannelOk t i)
    {i : ℕ} {h h' : Handler} (hi : s.handlers[i]? = some h) (hh : t.handlers = s.handlers.set i h')
    (hstep : h.ChannelOk t i → h'.ChannelOk t i) : ChannelsInv t := by
  intro k c hk
  rw [hh] at hk
  rcases getElem?_set_eq_some hk with ⟨rfl, rfl⟩ | ⟨-, hk⟩
  · exact hstep (hinv _ _ hi)
  · exact hinv k c hk

private theorem ChannelsInv.onChannel
    (hinv : ∀ (i : ℕ) (h : Handler), s.handlers[i]? = some h → h.ChannelOk t i)
    {i : ℕ} {f : Oneshot → Oneshot}
    (ht : t.handlers = s.handlers.modify i fun h => { h with channel := f h.channel })
    (hstep : ∀ h : Handler, h.ChannelOk t i →
      Handler.ChannelOk t i { h with channel := f h.channel }) : ChannelsInv t := by
  intro k c hk
  rw [ht] at hk
  obtain ⟨h, hh, ⟨rfl, rfl⟩ | ⟨-, rfl⟩⟩ := getElem?_modify_eq_some hk
  · exact hstep h (hinv _ h hh)
  · exact hinv k _ hh

theorem ChannelsInv.step (hi : ChannelsInv s) (h : Step cfg s a t) : ChannelsInv t := by
  have hmono (i : ℕ) (k : Handler) (hk : s.handlers[i]? = some k) : k.ChannelOk t i :=
    (hi i k hk).mono h
  cases h with
  | arrive call =>
    intro k c hk
    rcases getElem?_append_singleton hk with ⟨rfl, rfl⟩ | hk
    · constructor <;> simp
    · exact hmono k c hk
  | validateKnown _ hi hp | validateUnknown _ hi hp | accept hi hp | recordBegin hi hp | wait hi hp
  | recordFinish hi hp | answer hi hp =>
    exact ChannelsInv.move hmono hi rfl fun hc =>
      hc.keep rfl rfl (by simp [Handler.leftAwait, hp])
  | reject hi hp =>
    -- The receiver goes without having been awaited.
    exact ChannelsInv.move hmono hi rfl fun hc =>
      hc.leave rfl rfl rfl (fun _ => .inl) hc.cancelled
  | poll _ hi hp hpoll =>
    refine ChannelsInv.move hmono hi rfl fun hc => hc.leave rfl rfl rfl ?_ ?_
    · intro result ha
      cases ha
      exact .inr (Oneshot.poll_eq_result hpoll)
    · -- The receiver was still there, so the sender can only have vanished in a panic.
      intro ha
      cases ha
      obtain ⟨hv, htx⟩ := Oneshot.poll_eq_senderDropped hpoll
      exact hc.silent (hc.opened (by simp [Handler.leftAwait, hp])) hv htx
  | elapse hi hp =>
    refine ChannelsInv.move hmono hi rfl fun hc =>
      hc.leave rfl rfl rfl (fun result ha => ?_) fun ha => ?_
    · cases ha
    · cases ha
  | drop hi hp =>
    exact ChannelsInv.move hmono hi rfl fun hc =>
      hc.leave rfl rfl rfl (fun _ => .inl) hc.cancelled
  | @deliver j w result hj hp =>
    refine ChannelsInv.onChannel (f := fun ch => ch.send result) hmono rfl fun k hk => hk.send ?_
    exact ⟨_, _, getElem?_set_of_some hj _, rfl, .inl rfl⟩
  | panic hj hp =>
    refine ChannelsInv.onChannel hmono rfl fun k hk => hk.dropSender ?_
    exact ⟨_, _, getElem?_set_of_some hj _, rfl, .inl rfl⟩
  | recv | resize | publish | published | acquire | spawn | start | coreReturns | release
  | releasePanicked | syncRegistry => exact hmono

theorem channelsInv_of_reachable (h : (gateway cfg).Reachable s) : ChannelsInv s :=
  gateway_invariant (by simp [ChannelsInv, initState]) (fun _ _ _ _ hi _ hs => hi.step hs) h

/-! ## No cross-talk -/

/-- Where what handler `i` awaited comes from, when `request` is its own request: a result is the
outcome of the call of the core that the worker of this very job made, a vanished sender belongs to that
worker's panic, and the timer is the handler's own. -/
def State.Origin (cfg : Config) (s : State) (i : ℕ) (request : InferRequest) : Awaited → Prop
  | .result result =>
    ∃ (j : ℕ) (w : Worker) (reply : CoreReply), s.workers[j]? = some w ∧
      w.job = { request := request, responseTx := i } ∧ w.coreReply = some reply ∧
      result = callInferenceCore cfg.decoder cfg.coreProtocol request reply
  | .senderDropped =>
    ∃ (j : ℕ) (w : Worker), s.workers[j]? = some w ∧
      w.job = { request := request, responseTx := i } ∧ w.Crashed
  | .elapsed => True

/-- The job of a worker of handler `i` holds the request of handler `i`. -/
private theorem job_of_worker (hs : (gateway cfg).Reachable s) {i j : ℕ} {h : Handler} {w : Worker}
    {requestId : String} (hi : s.handlers[i]? = some h) (hid : h.stamped = some requestId)
    (hj : s.workers[j]? = some w) (htx : w.job.responseTx = i) :
    w.job = { request := h.call.jobRequest requestId, responseTx := i } := by
  obtain ⟨h', id, hi', -, hid', hreq⟩ := ownJob_of_worker hs hj
  rw [htx, hi] at hi'
  cases hi'
  rw [hid] at hid'
  cases hid'
  rw [← hreq, ← htx]

theorem origin_of_awaited (hs : (gateway cfg).Reachable s) {i : ℕ} {h : Handler}
    (hi : s.handlers[i]? = some h) {requestId : String} (hid : h.stamped = some requestId)
    {awaited : Awaited} (ha : h.awaited = some awaited) :
    s.Origin cfg i (h.call.jobRequest requestId) awaited := by
  have hc := channelsInv_of_reachable hs i h hi
  cases awaited with
  | result result =>
    -- The value in the channel is what some worker of this handler sent, and its job is the handler's.
    obtain ⟨j, w, hj, htx, hsent⟩ := hc.result result ha
    have hjob := job_of_worker hs hi hid hj htx
    obtain ⟨reply, hreply, hres⟩ :=
      sound_of_reachable hs w (List.mem_of_getElem? hj) result (.inr hsent)
    exact ⟨j, w, reply, hj, hjob, hreply, by rw [hres, hjob]⟩
  | senderDropped =>
    obtain ⟨j, w, hj, htx, hcrash⟩ := hc.cancelled ha
    exact ⟨j, w, hj, job_of_worker hs hi hid hj htx, hcrash⟩
  | elapsed => trivial

/-- Sending to a dropped receiver changes the worker and the sender's end of the channel only. -/
theorem deliver_to_dropped {i j : ℕ} {h : Handler} {w : Worker} (hi : s.handlers[i]? = some h)
    (hrx : h.channel.rxAlive = false) (hj : s.workers[j]? = some w) (htx : w.job.responseTx = i)
    (hstep : Step cfg s (.worker j .deliver) t) :
    ∃ w', t = { s.setWorker j w' with
      handlers := s.handlers.set i { h with channel := h.channel.dropSender } } := by
  cases hstep with
  | @deliver _ w₀ result hj₀ hp =>
    rw [hj] at hj₀
    cases hj₀
    refine ⟨{ w with phase := .delivered result }, ?_⟩
    simp only [State.onChannel, State.setWorker, htx]
    congr 1
    -- Without a receiver `send` stores nothing; only the sender's end closes.
    refine List.ext_getElem? fun k => ?_
    rw [List.getElem?_modify]
    by_cases hk : i = k
    · subst hk
      rw [getElem?_set_of_some hi, hi]
      simp [Oneshot.send, Oneshot.dropSender, hrx]
    · rw [List.getElem?_set_ne hk]
      simp [hk]

/-- In every reachable state, for every handler: unless it has answered or was dropped it can go on;
when it has answered, answer and terminal metric come from one branch and the terminal metric was
recorded exactly once; what it awaited is the fate of its own request; and after its timer fired, a
result that still arrives is discarded: the step changes the worker and closes the sender, and leaves
every metric, every record, every other handler and this handler's answer as they were. -/
theorem no_cross_talk (cfg : Config) {s : State} (hs : (gateway cfg).Reachable s) {i : ℕ} {h : Handler}
    (hi : s.handlers[i]? = some h) :
    (h.ended = false → ∃ a t, a ≠ .drop ∧ (gateway cfg).step s (.handler i a) = some t) ∧
    (∀ reply, h.phase = .done reply →
      ∃ op, h.call.Answers cfg h.stamped h.awaited reply op ∧ s.terminalOps i = [op]) ∧
    (∀ awaited, h.awaited = some awaited →
      ∃ requestId, h.stamped = some requestId ∧
        s.Origin cfg i (h.call.jobRequest requestId) awaited) ∧
    (h.awaited = some .elapsed → ∀ j w t, s.workers[j]? = some w → w.job.responseTx = i →
      (gateway cfg).step s (.worker j .deliver) = some t →
      ∃ w', t = { s.setWorker j w' with
        handlers := s.handlers.set i { h with channel := h.channel.dropSender } }) := by
  refine ⟨fun he => ?_, fun reply hp => ?_, fun awaited ha => ?_, fun ha j w t hj htx hstep => ?_⟩
  · obtain ⟨a, t, ha, ht⟩ := handler_enabled cfg hi he
    exact ⟨a, t, ha, step_eq_some_iff.mpr ht⟩
  · exact answers_of_done hs hi hp
  · obtain ⟨requestId, hid⟩ := ((answersInv_of_reachable hs).accounted i h hi).exists_stamped ha
    exact ⟨requestId, hid, origin_of_awaited hs hi hid ha⟩
  · have hrx := (channelsInv_of_reachable hs i h hi).closed (by rw [ha]; rfl)
    exact deliver_to_dropped hi hrx hj htx (step_eq_some_iff.mp hstep)

/-- The await of the handler ended with its timer. -/
def Handler.timedOut (h : Handler) : Bool := h.awaited matches some .elapsed

theorem Handler.awaited_of_timedOut {h : Handler} (ht : h.timedOut = true) :
    h.awaited = some .elapsed := by
  unfold Handler.timedOut at ht
  split at ht
  · assumption
  · cases ht

/-- The run in which handler 0 times out while its worker is at the core. -/
def lateRun : List Action :=
  submit 0 httpCall ++ submit 1 grpcCall ++ dispatch 14 ++ recordOps 0 3 ++ recordOps 1 3
    ++ serve 1 (.sendFailed "connection refused") ++ [.handler 1 (.poll 7), .handler 0 .elapse]
    ++ recordOps 1 6 ++ recordOps 0 6
    ++ [.worker 0 .start, .worker 0 (.coreReturns (.sendFailed "connection reset"))]

/-- Two requests whose workers finish in the reverse order: handler 1 answers with the error of its own
worker, handler 0 times out, and the result for handler 0 that is sent then changes no metric. -/
theorem no_cross_talk_late :
    ∃ s t, (gateway (scenarioConfig 2 2 .infer silentDecoder)).Reachable s ∧
      s.terminalOps 0 = [.addOutcome .timeout] ∧ s.terminalOps 1 = [.addOutcome .error] ∧
      (gateway (scenarioConfig 2 2 .infer silentDecoder)).step s (.worker 0 .deliver) = some t ∧
      t.metrics = s.metrics := by
  obtain ⟨s, hs, hzero, hone, hlate, hjob, hstep⟩ :=
    (reachable_init (scenarioConfig 2 2 .infer silentDecoder)).exists_of_run
      (fun s => s.terminalOps 0 = [.addOutcome .timeout] ∧ s.terminalOps 1 = [.addOutcome .error] ∧
        s.handlers[0]?.map Handler.timedOut = some true ∧
        s.workers[0]?.map (·.job.responseTx) = some 0 ∧
        ((gateway (scenarioConfig 2 2 .infer silentDecoder)).step s (.worker 0 .deliver)).isSome = true)
      lateRun (by decide +kernel)
  obtain ⟨h, hi, hlate⟩ := Option.map_eq_some_iff.mp hlate
  obtain ⟨w, hj, htx⟩ := Option.map_eq_some_iff.mp hjob
  obtain ⟨t, ht⟩ := Option.isSome_iff_exists.mp hstep
  obtain ⟨w', rfl⟩ := (no_cross_talk _ hs hi).2.2.2 (Handler.awaited_of_timedOut hlate) 0 w t hj htx ht
  exact ⟨s, _, hs, hzero, hone, ht, rfl⟩

end InferenceGateway.Gateway
