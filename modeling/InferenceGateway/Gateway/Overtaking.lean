import InferenceGateway.Common.Search
import InferenceGateway.Gateway.Custody

/-! # How long a job is passed over

Jobs are started in the order in which they were accepted. So while a job waits, the jobs that are started are
those that were accepted before it, and how many of these can be left is a matter of the queue alone: neither
the number of clients nor the pool size plays a part.
-/

namespace InferenceGateway.Gateway

open Common

variable {cfg : Config} {s t : State} {a : Action}

/-- Accepted jobs stay accepted, and in their order. -/
theorem Step.accepted_extends (h : Step cfg s a t) : s.accepted <+: t.accepted := by
  cases h.jobsEffect with
  | none _ _ ha _ => exact ha ▸ List.prefix_rfl
  | accept _ _ _ _ _ ha _ => exact ha ▸ List.prefix_append _ _
  | reject _ _ _ _ _ ha _ => exact ha ▸ List.prefix_rfl

theorem accepted_extends_of_run {as : List Action} (hrun : (gateway cfg).run s as = some t) :
    s.accepted <+: t.accepted := by
  refine System.run_preserves (P := fun u => s.accepted <+: u.accepted) ?_ List.prefix_rfl hrun
  intro u a v hu hstep
  exact hu.trans (step_eq_some_iff.mp hstep).accepted_extends

/-- A job is in the queue, in the dispatcher's hand or at a worker. -/
theorem CustodyInv.length_accepted_le (hi : CustodyInv cfg s) :
    s.accepted.length ≤ s.startOrder.length + 1 + cfg.queueCapacity := by
  have hcapacity := hi.capacity
  have hhand : s.dispatcher.job.toList.length ≤ 1 := by cases s.dispatcher.job <;> simp
  rw [← hi.order, List.length_map, State.jobs, State.startOrder, List.length_map, List.length_append,
    List.length_append, List.length_map]
  omega

/-- While an accepted job waits for its start, only jobs that were accepted before it are started, and these
are at most as many as the queue has places. -/
theorem bounded_overtaking (cfg : Config) {s t : State} (hs : (gateway cfg).Reachable s) {as : List Action}
    (hrun : (gateway cfg).run s as = some t) {i : ℕ} (hi : i ∈ s.accepted) (hwait : i ∉ t.startOrder) :
    t.startOrder <+: upTo i s.accepted ∧ t.startOrder.length ≤ s.startOrder.length + cfg.queueCapacity := by
  obtain ⟨before, after, hacc, hfirst⟩ := List.eq_append_cons_of_mem hi
  have hupTo : upTo i s.accepted = before := by rw [hacc, upTo_append_cons, upTo_of_not_mem hfirst]
  obtain ⟨later, hlater⟩ := accepted_extends_of_run hrun
  have hcustody := custodyInv_of_reachable (hs.run hrun)
  have horder := hcustody.startOrder_prefix
  rw [← hlater, hacc, List.append_assoc, List.cons_append] at horder
  have hahead : t.startOrder <+: before := prefix_of_prefix_append_cons hwait horder
  refine ⟨hupTo ▸ hahead, ?_⟩
  have hlength := hahead.length_le
  have haccepted := (custodyInv_of_reachable hs).length_accepted_le
  rw [hacc, List.length_append, List.length_cons] at haccepted
  omega

/-- Six jobs are accepted by a gateway with one worker and a queue of four places, and the last one still waits
when the second is started. -/
theorem bounded_overtaking_six :
    ∃ s t : State, (gateway (scenarioConfig 1 1 .infer silentDecoder)).Reachable s ∧
      s.accepted = [0, 1, 2, 3, 4, 5] ∧
      t.startOrder = [0, 1] ∧ [0, 1] <+: upTo 5 s.accepted := by
  obtain ⟨s, hs, hacc, hrun⟩ :=
    (reachable_init (scenarioConfig 1 1 .infer silentDecoder)).exists_of_run
      (fun s => s.accepted = [0, 1, 2, 3, 4, 5] ∧
        ((gateway (scenarioConfig 1 1 .infer silentDecoder)).run s
          [.worker 0 .panic, .worker 0 .release, .dispatcher, .dispatcher]).map State.startOrder = some [0, 1])
      (submit 0 httpCall ++ submit 1 grpcCall ++ dispatch 12 ++ [.worker 0 .start]
        ++ submit 2 httpCall ++ submit 3 grpcCall ++ submit 4 httpCall ++ submit 5 grpcCall)
      (by decide +kernel)
  obtain ⟨t, ht, horder⟩ := Option.map_eq_some_iff.mp hrun
  have hwait : 5 ∉ t.startOrder := by rw [horder]; decide
  refine ⟨s, t, hs, hacc, horder, ?_⟩
  rw [← horder]
  exact (bounded_overtaking _ hs ht (by rw [hacc]; decide) hwait).1

end InferenceGateway.Gateway
