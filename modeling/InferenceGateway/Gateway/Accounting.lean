import InferenceGateway.Common.Lists
import InferenceGateway.Gateway.Scenario

/-! # The in-flight gauge

Every handler contributes its share to the gauge: one from the increment in `begin_request` to the
decrement in `finish_request`. The gauge is the sum of the shares in every reachable state. A handler
that is dropped at its await executes no code after it, so its share stays in the sum for ever.
-/

namespace InferenceGateway.Gateway

open Common

/-- What the pending operations of an update will still add to the gauge. -/
def pendingDelta (ops : List MetricOp) : ℤ := (ops.map MetricOp.inFlightDelta).sum

/-- What a handler has added to the gauge: what its update leaves in the end, without what is pending. -/
def Handler.share (h : Handler) : ℤ :=
  match h.phase with
  | .validating => 0
  | .enqueueing _ => 0
  | .beginning _ pending => 1 - pendingDelta pending
  | .waiting _ => 1
  | .finishing pending _ => - pendingDelta pending
  | .done _ => 0
  | .dropped => 1

/-- The handler waits for its worker. -/
def Handler.isWaiting (h : Handler) : Bool := h.phase matches .waiting _

/-- The handler future was dropped. -/
def Handler.isDropped (h : Handler) : Bool := h.phase matches .dropped

/-- The handler is inside `begin_request`, `finish_request` or one of the two `note_` methods. -/
def Handler.inUpdate (h : Handler) : Bool :=
  h.phase matches .beginning _ _ | .finishing _ _

namespace State

/-- No handler is in the middle of a metrics update. -/
def Quiescent (s : State) : Prop := ∀ h ∈ s.handlers, h.inUpdate = false

instance (s : State) : Decidable s.Quiescent := inferInstanceAs (Decidable (∀ _ ∈ _, _))

/-- The number of handlers waiting for a worker. -/
def waiting (s : State) : ℕ := s.handlers.countP Handler.isWaiting

/-- The number of handlers that were dropped at their await. -/
def dropped (s : State) : ℕ := s.handlers.countP Handler.isDropped

/-- The sum of the shares. -/
def shares (s : State) : ℤ := (s.handlers.map Handler.share).sum

end State

variable {cfg : Config} {s t : State} {a : Action}

/-! ## The gauge is the sum of the shares -/

/-- What the dispatcher still has to publish does not touch the gauge. -/
def DispatcherPhase.PublishesPool : DispatcherPhase → Prop
  | .publishing _ pending => ∀ op ∈ pending, op.inFlightDelta = 0
  | _ => True

/-- What holds of the gauge in every reachable state. -/
structure GaugeInv (s : State) : Prop where
  gauge : s.metrics.inFlight = UInt64.ofInt s.shares
  publishing : s.dispatcher.PublishesPool

private theorem GaugeInv.keep (hinv : GaugeInv s) (hm : t.metrics.inFlight = s.metrics.inFlight)
    (hs : t.shares = s.shares) (hd : t.dispatcher.PublishesPool) : GaugeInv t :=
  ⟨by rw [hm, hs, hinv.gauge], hd⟩

/-- A handler changes its phase and its share stays. -/
private theorem GaugeInv.move (hinv : GaugeInv s) {i : ℕ} {h h' : Handler}
    (hi : s.handlers[i]? = some h) (hh : t.handlers = s.handlers.set i h')
    (hm : t.metrics = s.metrics) (hd : t.dispatcher = s.dispatcher) (hs : h'.share = h.share) :
    GaugeInv t := by
  refine hinv.keep (by rw [hm]) ?_ (hd ▸ hinv.publishing)
  rw [State.shares, hh, sum_map_set hi, hs, sub_self, add_zero, State.shares]

/-- A handler performs an operation and its share changes by as much as the gauge. -/
private theorem GaugeInv.record (hinv : GaugeInv s) {i : ℕ} {h h' : Handler} {op : MetricOp}
    (hi : s.handlers[i]? = some h) (hs : h'.share = h.share + op.inFlightDelta) :
    GaugeInv (s.record i op h') := by
  refine ⟨?_, hinv.publishing⟩
  have hshares : (s.record i op h').shares = s.shares + op.inFlightDelta := by
    rw [State.shares, State.record, sum_map_set hi, hs, State.shares]
    omega
  rw [hshares, UInt64.ofInt_add, ← hinv.gauge]
  exact s.metrics.apply_inFlight op

private theorem shares_onChannel (s : State) (i : ℕ) (f : Oneshot → Oneshot) :
    (s.onChannel i f).shares = s.shares := by
  rw [State.shares, State.onChannel, State.shares]
  congr 1
  refine List.ext_getElem? fun k => ?_
  rw [List.getElem?_map, List.getElem?_map, List.getElem?_modify]
  cases s.handlers[k]? with
  | none => rfl
  | some h => by_cases hk : i = k <;> simp [hk, Handler.share]

theorem GaugeInv.step (hinv : GaugeInv s) (h : Step cfg s a t) : GaugeInv t := by
  cases h with
  | arrive call => exact hinv.keep rfl (by simp [State.shares, Handler.share]) hinv.publishing
  | validateKnown _ hi hp | drop hi hp =>
    exact hinv.move hi rfl rfl rfl (by simp only [Handler.share, hp])
  | validateUnknown _ hi hp | accept hi hp | reject hi hp | wait hi hp | answer hi hp =>
    exact hinv.move hi rfl rfl rfl (by simp only [Handler.share, hp]; rfl)
  | poll _ hi hp | elapse hi hp =>
    -- The decrement is still pending when the handler leaves its await.
    exact hinv.move hi rfl rfl rfl (by simp only [Handler.share, Handler.resume, hp]; rfl)
  | recordBegin hi hp | recordFinish hi hp =>
    -- The operation leaves the pending ones and enters the gauge.
    refine hinv.record hi ?_
    simp only [Handler.share, hp, pendingDelta, List.map_cons, List.sum_cons]
    omega
  | recv hd | published hd | acquire hd | spawn hd => exact hinv.keep rfl rfl trivial
  | resize hd =>
    refine hinv.keep rfl rfl ?_
    simp [DispatcherPhase.PublishesPool, Metrics.setPoolWorkers, MetricOp.inFlightDelta]
  | @publish job op ops hd =>
    have hpub := hinv.publishing
    rw [hd] at hpub
    refine hinv.keep ?_ rfl fun op' hop => hpub op' (List.mem_cons_of_mem op hop)
    exact s.metrics.apply_inFlight_of_delta_zero (hpub op List.mem_cons_self)
  | deliver | panic => exact hinv.keep rfl (shares_onChannel _ _ _) hinv.publishing
  | start | coreReturns | release | releasePanicked | syncRegistry =>
    exact hinv.keep rfl rfl hinv.publishing

theorem gaugeInv_of_reachable (h : (gateway cfg).Reachable s) : GaugeInv s :=
  gateway_invariant ⟨rfl, trivial⟩ (fun _ _ _ _ hi _ hs => hi.step hs) h

/-! ## Between the updates -/

/-- Outside of metrics updates the waiting handlers and the dropped ones have one share each. -/
theorem shares_of_quiescent (hq : s.Quiescent) : s.shares = s.waiting + s.dropped := by
  have hshare : ∀ h ∈ s.handlers, h.share =
      (if h.isWaiting then 1 else 0) + (if h.isDropped then 1 else 0) := by
    intro h hh
    have hup := hq h hh
    -- Quiescence excludes the two phases with pending operations.
    cases hp : h.phase with
    | beginning | finishing => simp [Handler.inUpdate, hp] at hup
    | _ => simp [Handler.share, Handler.isWaiting, Handler.isDropped, hp]
  rw [State.shares, List.map_congr_left hshare, List.sum_map_add, sum_map_ite_eq_countP,
    sum_map_ite_eq_countP, State.waiting, State.dropped]

/-- Between metrics updates the gauge counts the waiting handlers and the dropped ones. -/
theorem inFlight_of_quiescent (h : (gateway cfg).Reachable s) (hq : s.Quiescent) :
    s.metrics.inFlight = UInt64.ofNat (s.waiting + s.dropped) := by
  rw [(gaugeInv_of_reachable h).gauge, shares_of_quiescent hq, ← Int.natCast_add, ofInt_natCast]

/-- The condition on a step: no handler future is dropped at its await. -/
def keepsHandler (_ : State) : Action → Bool
  | .handler _ .drop => false
  | _ => true

private theorem forall_set {p : Handler → Bool} (hs : ∀ h ∈ s.handlers, p h = false) {i : ℕ}
    {h' : Handler} (hp : p h' = false) : ∀ h ∈ s.handlers.set i h', p h = false := by
  intro h hh
  rcases List.mem_or_eq_of_mem_set hh with hh | rfl
  · exact hs h hh
  · exact hp

theorem Step.no_dropped (hs : ∀ h ∈ s.handlers, h.isDropped = false)
    (hg : keepsHandler s a = true) (h : Step cfg s a t) :
    ∀ h ∈ t.handlers, h.isDropped = false := by
  cases h with
  | arrive call =>
    intro h hh
    rcases List.mem_append.mp hh with hh | hh
    · exact hs h hh
    · obtain rfl := List.mem_singleton.mp hh
      rfl
  | validateKnown | validateUnknown | accept | reject | recordBegin | wait | recordFinish | answer
  | poll | elapse => exact forall_set hs rfl
  | drop => cases hg
  | deliver | panic =>
    intro h hh
    obtain ⟨i, hi⟩ := List.mem_iff_getElem?.mp hh
    obtain ⟨h', hi', ⟨-, rfl⟩ | ⟨-, rfl⟩⟩ := getElem?_modify_eq_some hi
    · exact hs h' (List.mem_of_getElem? hi')
    · exact hs _ (List.mem_of_getElem? hi')
  | recv | resize | publish | published | acquire | spawn | start | coreReturns | release
  | releasePanicked | syncRegistry => exact hs

theorem dropped_eq_zero (h : (gateway cfg).ReachableVia (fun s a => keepsHandler s a = true) s) :
    s.dropped = 0 := by
  have hnone := gateway_invariant (I := fun s => ∀ h ∈ s.handlers, h.isDropped = false)
    (by simp [initState]) (fun _ _ _ _ hi hg hs => hs.no_dropped hi hg) h
  rw [State.dropped, List.countP_eq_zero]
  exact fun h hh => by rw [hnone h hh]; exact Bool.false_ne_true

/-- In a run in which no handler future is dropped, the gauge counts the waiting handlers whenever no
handler is in the middle of a metrics update. -/
theorem inFlight_eq_waiting (cfg : Config) {s : State}
    (h : (gateway cfg).ReachableVia (fun s a => keepsHandler s a = true) s) (hq : s.Quiescent) :
    s.metrics.inFlight = UInt64.ofNat s.waiting := by
  rw [inFlight_of_quiescent h.reachable hq, dropped_eq_zero h, Nat.add_zero]

/-- One request has been answered and another one waits. -/
theorem inFlight_eq_waiting_one :
    ∃ s, (gateway (scenarioConfig 1 1 .infer silentDecoder)).Reachable s ∧ s.waiting = 1 ∧
      s.metrics.inFlight = UInt64.ofNat s.waiting := by
  obtain ⟨s, hs, hw, hq⟩ :=
    (reachableVia_init (scenarioConfig 1 1 .infer silentDecoder)).exists_of_runIf
      (g := keepsHandler) (fun s => s.waiting = 1 ∧ s.Quiescent)
      (submit 0 httpCall ++ submit 1 grpcCall ++ recordOps 0 3 ++ recordOps 1 3
        ++ [.handler 0 .elapse] ++ recordOps 0 6)
      (by decide +kernel)
  exact ⟨s, hs.reachable, hw, inFlight_eq_waiting (scenarioConfig 1 1 .infer silentDecoder) hs hq⟩

/-- A client disconnects while its handler waits: nobody waits any more and the gauge stays at one. -/
theorem inFlight_leaks_on_disconnect :
    ∃ s, (gateway (scenarioConfig 1 1 .infer silentDecoder)).Reachable s ∧ s.Quiescent ∧
      s.waiting = 0 ∧ s.metrics.inFlight = 1 :=
  (reachable_init (scenarioConfig 1 1 .infer silentDecoder)).exists_of_run
    (fun s => s.Quiescent ∧ s.waiting = 0 ∧ s.metrics.inFlight = 1)
    (submit 0 httpCall ++ recordOps 0 3 ++ [.handler 0 .drop])
    (by decide +kernel)

end InferenceGateway.Gateway
