import InferenceGateway.Gateway.Evolution
import InferenceGateway.Gateway.PoolInvariants

/-! # Custody of jobs

Read from the oldest worker to the back of the queue, the workers' jobs, the job in the dispatcher's
hand and the queued jobs form one list, `State.jobs`. No step reorders it: receiving and spawning move
the border between its three parts, and only an accepting `try_send` changes it, by adding a job at the
end. That no job is lost or duplicated and that workers start in the order of acceptance are readings
of this one fact.
-/

namespace InferenceGateway.Gateway

open Common

/-- The job in the dispatcher's hand, between `recv` and `spawn`. -/
def DispatcherPhase.job : DispatcherPhase → Option Job
  | .receiving => none
  | .resizing job => some job
  | .publishing job _ => some job
  | .acquiring job => some job
  | .spawning job => some job

/-- Where a job can be. -/
inductive Place
  | finished
  | running
  | inHand
  | queued
deriving DecidableEq, Repr

/-- A worker has its job until it drops its permit. -/
def Worker.place (w : Worker) : Place := if w.holdsPermit then .running else .finished

namespace State

/-- All accepted jobs in their order. -/
def jobs (s : State) : List Job :=
  s.workers.map (·.job) ++ s.dispatcher.job.toList ++ s.queue

/-- The handlers whose workers were spawned, in the order of the spawns. -/
def startOrder (s : State) : List ℕ := s.workers.map (·.job.responseTx)

/-- Every place where the job of handler `i` is. -/
def places (s : State) (i : ℕ) : List Place :=
  (s.workers.filter (·.job.responseTx = i)).map Worker.place
    ++ (s.dispatcher.job.toList.filter (·.responseTx = i)).map (fun _ => .inHand)
    ++ (s.queue.filter (·.responseTx = i)).map fun _ => .queued

/-- How often `call_inference_core` was called for the job of handler `i`. -/
def coreCallsFor (s : State) (i : ℕ) : ℕ := (s.coreCalls.map Prod.fst).count i

/-- The job of handler `i` is in as many places as it is listed times. -/
theorem length_places (s : State) (i : ℕ) :
    (s.places i).length = (s.jobs.map (·.responseTx)).count i := by
  have hcount (l : List Job) : (l.filter (·.responseTx = i)).length =
      (l.map (·.responseTx)).count i := by
    rw [List.count, List.countP_map, List.countP_eq_length_filter]
    exact congrArg (fun p => (l.filter p).length) (funext fun _ => rfl)
  have hworkers : (s.workers.filter (·.job.responseTx = i)).length =
      ((s.workers.map (·.job)).filter (·.responseTx = i)).length := by
    rw [List.filter_map, List.length_map]
    rfl
  simp only [places, jobs, List.length_append, List.length_map, List.map_append,
    List.count_append, hworkers, hcount]

end State

variable {cfg : Config} {s t : State} {a : Action}

/-! ## What a step does to the jobs -/

/-- Handler `i` exists and will not call `try_send` any more. -/
def State.PastSend (s : State) (i : ℕ) : Prop := ∃ h, s.handlers[i]? = some h ∧ h.pastSend = true

theorem Step.pastSend (h : Step cfg s a t) {i : ℕ} (hi : s.PastSend i) : t.PastSend i := by
  obtain ⟨k, hk, hp⟩ := hi
  obtain ⟨k', hk', he⟩ := h.handlers_evolve i k hk
  exact ⟨k', hk', (he.pastSend hp).1⟩

/-- Everything a step can do to the accepted and to the rejected jobs. -/
inductive JobsEffect (cfg : Config) (s t : State) : Prop
  | none (hj : t.jobs = s.jobs) (hq : t.queue.length ≤ s.queue.length)
      (ha : t.accepted = s.accepted) (hr : t.rejected = s.rejected)
  | accept {i : ℕ} {h : Handler} {id : String} (hi : s.handlers[i]? = some h)
      (hp : h.phase = .enqueueing id)
      (hi' : ∃ h', t.handlers[i]? = some h' ∧ h'.pastSend = true ∧ h'.call = h.call ∧
        h'.stamped = h.stamped)
      (hq : t.queue.length ≤ cfg.queueCapacity)
      (hj : t.jobs = s.jobs ++ [{ request := h.call.jobRequest id, responseTx := i }])
      (ha : t.accepted = s.accepted ++ [i]) (hr : t.rejected = s.rejected)
  | reject {i : ℕ} {h : Handler} {id : String} (hi : s.handlers[i]? = some h)
      (hp : h.phase = .enqueueing id) (hi' : t.PastSend i) (hq : t.queue = s.queue)
      (hj : t.jobs = s.jobs) (ha : t.accepted = s.accepted) (hr : t.rejected = s.rejected ++ [i])

private theorem jobs_setWorker {j : ℕ} {w w' : Worker} (hj : s.workers[j]? = some w)
    (hw : w'.job = w.job) : (s.setWorker j w').jobs = s.jobs := by
  rw [State.jobs, State.setWorker, map_set_of_eq hj hw, State.jobs]

theorem Step.jobsEffect (h : Step cfg s a t) : JobsEffect cfg s t := by
  cases h with
  | arrive | validateKnown | validateUnknown | recordBegin | wait | recordFinish | answer | poll
  | elapse | drop | syncRegistry => exact .none rfl le_rfl rfl rfl
  | @accept i h id hi hp hq =>
    refine .accept hi hp ⟨_, getElem?_set_of_some hi _, rfl, rfl, rfl⟩ ?_ ?_ rfl rfl
    · simp only [List.length_append, List.length_singleton]
      omega
    · simp only [State.jobs, State.setHandler, List.append_assoc]
  | @reject i h id hi hp hq =>
    exact .reject hi hp ⟨_, getElem?_set_of_some hi _, rfl⟩ rfl rfl rfl rfl
  | recv hd hq =>
    exact .none (by simp [State.jobs, hd, hq, DispatcherPhase.job]) (by simp [hq]) rfl rfl
  | resize hd | publish hd | published hd | acquire hd | spawn hd =>
    exact .none (by simp [State.jobs, hd, DispatcherPhase.job]) le_rfl rfl rfl
  | start hj | coreReturns _ hj | deliver hj | panic hj | release hj | releasePanicked hj =>
    exact .none (jobs_setWorker hj rfl) le_rfl rfl rfl

/-- Only the first poll of a worker calls the core. -/
theorem Step.coreCalls_eq (h : Step cfg s a t) :
    t.coreCalls = s.coreCalls ∨
      ∃ (j : ℕ) (w : Worker), s.workers[j]? = some w ∧ w.started = false ∧
        t.coreCalls = s.coreCalls ++ [(w.job.responseTx, w.job.request)] ∧
        t.workers[j]? = some { w with phase := .calling } := by
  cases h with
  | start hj hp =>
    exact .inr ⟨_, _, hj, by rw [Worker.started, hp], rfl, getElem?_set_of_some hj _⟩
  | _ => exact .inl rfl

/-! ## The invariant of every run -/

/-- A started worker has handler `i`'s job. -/
def State.Started (s : State) (i : ℕ) : Prop :=
  ∃ (j : ℕ) (w : Worker), s.workers[j]? = some w ∧ w.started = true ∧ w.job.responseTx = i

theorem Step.started (h : Step cfg s a t) {i : ℕ} (hi : s.Started i) : t.Started i := by
  obtain ⟨j, w, hj, hw, rfl⟩ := hi
  obtain ⟨w', hj', he⟩ := h.workers_evolve j w hj
  exact ⟨j, w', hj', he.started hw, by rw [he.job]⟩

/-- What holds of the jobs in every reachable state. -/
structure CustodyInv (cfg : Config) (s : State) : Prop where
  order : s.jobs.map (·.responseTx) = s.accepted
  nodup : s.accepted.Nodup
  capacity : s.queue.length ≤ cfg.queueCapacity
  accepted : ∀ i ∈ s.accepted, s.PastSend i
  rejected : ∀ i ∈ s.rejected, s.PastSend i ∧ i ∉ s.accepted

theorem CustodyInv.init (cfg : Config) : CustodyInv cfg (initState cfg) where
  order := rfl
  nodup := List.nodup_nil
  capacity := Nat.zero_le _
  accepted := by simp [initState]
  rejected := by simp [initState]

private theorem not_pastSend {i : ℕ} {h : Handler} {id : String} (hi : s.handlers[i]? = some h)
    (hp : h.phase = .enqueueing id) : ¬ s.PastSend i := by
  rintro ⟨h', hi', hpast⟩
  rw [hi] at hi'
  cases hi'
  simp [Handler.pastSend, hp] at hpast

theorem CustodyInv.step (hi : CustodyInv cfg s) (h : Step cfg s a t) : CustodyInv cfg t := by
  obtain ⟨hord, hnd, hcap, hacc, hrej⟩ := hi
  cases h.jobsEffect with
  | none hj hq ha hr =>
    refine ⟨by rw [hj, ha, hord], ha ▸ hnd, le_trans hq hcap, ?_, ?_⟩
    · exact fun i hi => h.pastSend (hacc i (ha ▸ hi))
    · intro i hi
      rw [ha]
      exact (hrej i (hr ▸ hi)).imp h.pastSend id
  | @accept i _ _ hih hp hi' hq hj ha hr =>
    -- A handler that is about to send is neither accepted nor rejected yet.
    have hnot := not_pastSend hih hp
    have hfresh : i ∉ s.accepted := fun hi => hnot (hacc i hi)
    refine ⟨by rw [hj, ha, List.map_append, hord]; rfl, ?_, hq, ?_, ?_⟩
    · rw [ha, ← List.concat_eq_append]
      exact hnd.concat hfresh
    · intro k hk
      rw [ha, List.mem_append, List.mem_singleton] at hk
      rcases hk with hk | rfl
      · exact h.pastSend (hacc k hk)
      · exact hi'.imp fun _ h => ⟨h.1, h.2.1⟩
    · intro k hk
      obtain ⟨hpast, hk⟩ := hrej k (hr ▸ hk)
      refine ⟨h.pastSend hpast, ?_⟩
      rw [ha, List.mem_append, List.mem_singleton]
      rintro (hk' | rfl)
      · exact hk hk'
      · exact hnot hpast
  | @reject i _ _ hih hp hi' hq hj ha hr =>
    have hnot := not_pastSend hih hp
    refine ⟨by rw [hj, ha, hord], ha ▸ hnd, hq ▸ hcap, ?_, ?_⟩
    · exact fun k hk => h.pastSend (hacc k (ha ▸ hk))
    · intro k hk
      rw [hr, List.mem_append, List.mem_singleton] at hk
      rw [ha]
      rcases hk with hk | rfl
      · exact (hrej k hk).imp h.pastSend id
      · exact ⟨hi', fun hk => hnot (hacc k hk)⟩

theorem custodyInv_of_reachable (h : (gateway cfg).Reachable s) : CustodyInv cfg s :=
  gateway_invariant (CustodyInv.init cfg) (fun _ _ _ _ hi _ hs => hi.step hs) h

/-- Workers are spawned in the order of acceptance, one for each accepted job at most. -/
theorem CustodyInv.startOrder_prefix (hi : CustodyInv cfg s) : s.startOrder <+: s.accepted := by
  rw [← hi.order, State.jobs, List.append_assoc, List.map_append, List.map_map]
  exact List.prefix_append _ _

theorem CustodyInv.startOrder_nodup (hi : CustodyInv cfg s) : s.startOrder.Nodup :=
  hi.nodup.sublist hi.startOrder_prefix.sublist

/-- No two workers have the same job. -/
theorem CustodyInv.worker_unique (hi : CustodyInv cfg s) {j k : ℕ} {w w' : Worker}
    (hj : s.workers[j]? = some w) (hk : s.workers[k]? = some w')
    (hw : w.job.responseTx = w'.job.responseTx) : j = k :=
  eq_of_map_eq_of_nodup hi.startOrder_nodup hj hk hw

/-! ## Calls of the core -/

/-- What holds of the calls of the core in every reachable state. -/
structure CoreCallsInv (s : State) : Prop where
  nodup : (s.coreCalls.map Prod.fst).Nodup
  started : ∀ i ∈ s.coreCalls.map Prod.fst, s.Started i

theorem CoreCallsInv.step (hc : CustodyInv cfg s) (hi : CoreCallsInv s) (h : Step cfg s a t) :
    CoreCallsInv t := by
  obtain ⟨hnd, hst⟩ := hi
  rcases h.coreCalls_eq with he | ⟨j, w, hj, hw, he, hj'⟩
  · exact ⟨he ▸ hnd, fun i hi => h.started (hst i (he ▸ hi))⟩
  · -- Were the core called for this job before, a second worker would have the job.
    have hfresh : w.job.responseTx ∉ s.coreCalls.map Prod.fst := fun hmem => by
      obtain ⟨k, w', hk, hw', htx⟩ := hst _ hmem
      obtain rfl := hc.worker_unique hk hj htx
      rw [hj] at hk
      cases hk
      rw [hw] at hw'
      cases hw'
    constructor
    · rw [he, List.map_append, List.map_singleton, ← List.concat_eq_append]
      exact hnd.concat hfresh
    · intro i hi
      rw [he, List.map_append, List.mem_append] at hi
      rcases hi with hi | hi
      · exact h.started (hst i hi)
      · obtain rfl := List.mem_singleton.mp hi
        exact ⟨j, _, hj', rfl, rfl⟩

theorem coreCallsInv_of_reachable (h : (gateway cfg).Reachable s) : CoreCallsInv s := by
  refine gateway_invariant ⟨List.nodup_nil, by simp [initState]⟩ ?_ h
  intro s _ t hr hi _ hs
  exact hi.step (custodyInv_of_reachable hr) hs

/-! ## Custody -/

/-- In every reachable state an accepted job is in exactly one place and no other job is anywhere, the
queue is within its capacity, the core is called at most once for an accepted job and never for
another, no rejected job is accepted, and the workers were spawned in the order of acceptance. -/
theorem custody (cfg : Config) {s : State} (h : (gateway cfg).Reachable s) :
    (∀ i, (s.places i).length = if i ∈ s.accepted then 1 else 0) ∧
      s.queue.length ≤ cfg.queueCapacity ∧
      (∀ i, s.coreCallsFor i ≤ if i ∈ s.accepted then 1 else 0) ∧
      (∀ i ∈ s.rejected, i ∉ s.accepted) ∧
      s.startOrder <+: s.accepted := by
  have hc := custodyInv_of_reachable h
  obtain ⟨hnd, hst⟩ := coreCallsInv_of_reachable h
  refine ⟨fun i => ?_, hc.capacity, fun i => ?_, fun i hi => (hc.rejected i hi).2,
    hc.startOrder_prefix⟩
  · rw [s.length_places, hc.order, List.Nodup.count hc.nodup]
  · rw [State.coreCallsFor, List.Nodup.count hnd]
    split_ifs with hcalled haccepted
    · exact le_rfl
    · obtain ⟨j, w, hj, -, rfl⟩ := hst i hcalled
      refine absurd (hc.startOrder_prefix.subset ?_) haccepted
      exact List.mem_map.mpr ⟨w, List.mem_of_getElem? hj, rfl⟩
    · exact Nat.zero_le _
    · exact le_rfl

/-- Seven requests against a queue of four places: one job runs, one waits in the dispatcher's hand,
four are queued, and the seventh is rejected. -/
theorem custody_seven :
    ∃ s, (gateway (scenarioConfig 1 1 .infer silentDecoder)).Reachable s ∧
      s.accepted = [0, 1, 2, 3, 4, 5] ∧ s.rejected = [6] ∧
      s.places 0 = [.running] ∧ s.places 1 = [.inHand] ∧ (s.places 6).length = 0 := by
  obtain ⟨s, hs, hacc, hrej, hzero, hone⟩ :=
    (reachable_init (scenarioConfig 1 1 .infer silentDecoder)).exists_of_run
      (fun s => s.accepted = [0, 1, 2, 3, 4, 5] ∧ s.rejected = [6] ∧
        s.places 0 = [.running] ∧ s.places 1 = [.inHand])
      (submit 0 httpCall ++ submit 1 grpcCall ++ dispatch 12 ++ [.worker 0 .start]
        ++ submit 2 httpCall ++ submit 3 grpcCall ++ submit 4 httpCall ++ submit 5 grpcCall
        ++ submit 6 httpCall)
      (by decide +kernel)
  refine ⟨s, hs, hacc, hrej, hzero, hone, ?_⟩
  have := (custody _ hs).1 6
  rwa [if_neg (by rw [hacc]; decide)] at this

end InferenceGateway.Gateway
