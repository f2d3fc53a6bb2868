import InferenceGateway.Common.Threads
import InferenceGateway.Gateway.Metrics

/-! # Concurrent metric updates

Reference: `metrics.rs`.

Any number of handlers perform the operations of `begin_request` and of one `finish_request`, interleaved
in any order. Each operation adds to counters and reads nothing, so the operations commute and the
registry is, at every moment, what the operations performed so far add up to. The order of the operations
within each handler is all that the inequalities between the counters need.

The counters are 64 bits wide. They hold those sums modulo `2 ^ 64`, and the inequalities survive as long
as fewer than `2 ^ 64` requests have begun.
-/

namespace InferenceGateway.Gateway

open Common

/-! ## The registry as a family of counters -/

/-- A value that the registry holds. -/
inductive Counter
  | requestsTotal
  | outcomeTotal (outcome : Outcome)
  | queueFullTotal
  | validationErrorsTotal
  | inFlight
  | latencyMsSum
  | latencyCount
  | bucket (i : Fin 9)
  | poolWorkersCurrent
  | poolWorkersMax

namespace Metrics

/-- The value of a counter. -/
def load (m : Metrics) : Counter → UInt64
  | .requestsTotal => m.requestsTotal
  | .outcomeTotal .ok => m.okTotal
  | .outcomeTotal .error => m.errorTotal
  | .outcomeTotal .timeout => m.timeoutTotal
  | .queueFullTotal => m.queueFullTotal
  | .validationErrorsTotal => m.validationErrorsTotal
  | .inFlight => m.inFlight
  | .latencyMsSum => m.latencyMsSum
  | .latencyCount => m.latencyCount
  | .bucket i => m.latencyHistogram[i]
  | .poolWorkersCurrent => m.poolWorkersCurrent
  | .poolWorkersMax => m.poolWorkersMax

/-- The counters are all there is in a registry. -/
theorem ext_load {m m' : Metrics} (h : ∀ c, m.load c = m'.load c) : m = m' := by
  have hist : m.latencyHistogram = m'.latencyHistogram := by
    refine Vector.ext fun i hi => ?_
    exact h (.bucket ⟨i, hi⟩)
  have h₁ := h .requestsTotal
  have h₂ := h (.outcomeTotal .ok)
  have h₃ := h (.outcomeTotal .error)
  have h₄ := h (.outcomeTotal .timeout)
  have h₅ := h .queueFullTotal
  have h₆ := h .validationErrorsTotal
  have h₇ := h .inFlight
  have h₈ := h .latencyMsSum
  have h₉ := h .latencyCount
  have h₁₀ := h .poolWorkersCurrent
  have h₁₁ := h .poolWorkersMax
  rcases m with ⟨⟩
  rcases m' with ⟨⟩
  simp only [load] at *
  simp only [Metrics.mk.injEq]
  exact ⟨h₁, h₂, h₃, h₄, h₅, h₆, h₇, h₈, h₉, hist, h₁₀, h₁₁⟩

end Metrics

namespace MetricOp

/-- The operation overwrites a value. -/
def isStore : MetricOp → Bool
  | .storePoolCurrent _ => true
  | .storePoolMax _ => true
  | _ => false

/-- What an operation adds to a counter. -/
def delta : MetricOp → Counter → ℤ
  | .addRequests, .requestsTotal => 1
  | .incInFlight, .inFlight => 1
  | .decInFlight, .inFlight => -1
  | .addOutcome outcome, .outcomeTotal outcome' => if outcome = outcome' then 1 else 0
  | .addLatencySum ms, .latencyMsSum => ms.toNat
  | .addLatencyCount, .latencyCount => 1
  | .observeLatency ms, .bucket i => if ms ≤ LATENCY_BUCKETS_MS[i] then 1 else 0
  | .addQueueFull, .queueFullTotal => 1
  | .addValidationError, .validationErrorsTotal => 1
  | _, _ => 0

end MetricOp

/-- Every operation but a store adds its delta to each counter, wrapping. -/
theorem Metrics.load_apply (m : Metrics) {op : MetricOp} (hop : op.isStore = false) (c : Counter) :
    (m.apply op).load c = m.load c + UInt64.ofInt (op.delta c) := by
  cases op with
  | storePoolCurrent n => cases hop
  | storePoolMax n => cases hop
  | addOutcome outcome =>
    cases outcome <;> rcases c with _ | ⟨_ | _ | _⟩ | _ <;>
      simp [Metrics.apply, Metrics.load, MetricOp.delta, ofInt_zero]
  | observeLatency ms =>
    rcases c with _ | ⟨_ | _ | _⟩ | _ | _ | _ | _ | _ | i | _ | _
    case bucket =>
      show (Metrics.bumpBuckets m.latencyHistogram ms)[i] = _
      simp only [Metrics.bumpBuckets, Metrics.load, MetricOp.delta, Fin.getElem_fin,
        Vector.getElem_zipWith]
      split <;> simp [ofInt_zero]
    all_goals simp [Metrics.apply, Metrics.load, MetricOp.delta, ofInt_zero]
  | decInFlight =>
    rcases c with _ | ⟨_ | _ | _⟩ | _ <;>
      simp [Metrics.apply, Metrics.load, MetricOp.delta, ofInt_zero, UInt64.sub_eq_add_neg]
  | addLatencySum ms =>
    rcases c with _ | ⟨_ | _ | _⟩ | _ <;>
      simp [Metrics.apply, Metrics.load, MetricOp.delta, ofInt_zero, ofInt_natCast]
  | _ =>
    rcases c with _ | ⟨_ | _ | _⟩ | _ <;>
      simp [Metrics.apply, Metrics.load, MetricOp.delta, ofInt_zero]

/-- What a list of operations adds to a counter. -/
def moved (ops : List MetricOp) (c : Counter) : ℤ := (ops.map fun op => op.delta c).sum

theorem moved_nil (c : Counter) : moved [] c = 0 := rfl

theorem moved_cons (op : MetricOp) (ops : List MetricOp) (c : Counter) :
    moved (op :: ops) c = op.delta c + moved ops c := by
  unfold moved
  rw [List.map_cons, List.sum_cons]

theorem moved_flatMap {α : Type*} (l : List α) (f : α → List MetricOp) (c : Counter) :
    moved (l.flatMap f) c = (l.map fun a => moved (f a) c).sum := by
  unfold moved
  induction l with
  | nil => rfl
  | cons a l ih =>
    rw [List.flatMap_cons, List.map_append, List.sum_append, ih, List.map_cons, List.sum_cons]

theorem Metrics.load_foldl (m : Metrics) {ops : List MetricOp} (hops : ∀ op ∈ ops, op.isStore = false)
    (c : Counter) : (ops.foldl Metrics.apply m).load c = m.load c + UInt64.ofInt (moved ops c) := by
  induction ops generalizing m with
  | nil => exact (UInt64.add_zero _).symm
  | cons op ops ih =>
    rw [List.foldl_cons, ih (m.apply op) (fun op' h => hops op' (List.mem_cons_of_mem op h)),
      m.load_apply (hops op List.mem_cons_self), moved_cons, UInt64.ofInt_add, UInt64.add_assoc]

/-- The operation counts an outcome. -/
def MetricOp.answers : MetricOp → ℤ
  | .addOutcome _ => 1
  | _ => 0

/-- What a list of operations adds to the three outcome counters. -/
def answered (ops : List MetricOp) : ℤ :=
  moved ops (.outcomeTotal .ok) + moved ops (.outcomeTotal .error) + moved ops (.outcomeTotal .timeout)

theorem answered_nil : answered [] = 0 := rfl

theorem answered_cons (op : MetricOp) (ops : List MetricOp) :
    answered (op :: ops) = op.answers + answered ops := by
  have hop : op.delta (.outcomeTotal .ok) + op.delta (.outcomeTotal .error)
      + op.delta (.outcomeTotal .timeout) = op.answers := by
    cases op with
    | addOutcome outcome => cases outcome <;> rfl
    | _ => rfl
  unfold answered
  rw [moved_cons, moved_cons, moved_cons, ← hop]
  omega

/-- Operations that store nothing commute. -/
theorem Metrics.apply_comm (m : Metrics) {x y : MetricOp} (hx : x.isStore = false)
    (hy : y.isStore = false) : (m.apply x).apply y = (m.apply y).apply x := by
  refine ext_load fun c => ?_
  rw [load_apply _ hy, load_apply _ hx, load_apply _ hx, load_apply _ hy, UInt64.add_assoc,
    UInt64.add_comm (UInt64.ofInt _), ← UInt64.add_assoc]

/-! ## Handlers -/

/-- What a handler reports: the outcome of its request and how long it took. -/
structure Report where
  outcome : Outcome
  latencyMs : UInt64
deriving DecidableEq

/-- `begin_request` and later `finish_request`. -/
def Report.updates (r : Report) : List MetricOp :=
  Metrics.beginRequest ++ Metrics.finishRequest r.outcome r.latencyMs

/-- Handlers that record on a fresh registry. -/
def recording (reports : List Report) : System (Threads Metrics (Progress MetricOp)) ℕ :=
  programs Metrics.apply {} (reports.map Report.updates)

theorem recording_init (reports : List Report) :
    (recording reports).Reachable ⟨{}, (reports.map Report.updates).map fun ops => ⟨[], ops⟩⟩ :=
  .init rfl

/-- The handlers can all finish. -/
theorem exists_recorded (reports : List Report) :
    ∃ s, (recording reports).Reachable s ∧ s.Finished :=
  exists_finished (recording_init reports)

/-- The registry after the requests were recorded one after the other. -/
def recordAll (reports : List Report) : Metrics :=
  (reports.flatMap Report.updates).foldl Metrics.apply {}

theorem isStore_of_mem_updates {r : Report} {op : MetricOp} (h : op ∈ r.updates) :
    op.isStore = false := by
  simp only [Report.updates, Metrics.beginRequest, Metrics.finishRequest, List.cons_append,
    List.nil_append, List.mem_cons, List.not_mem_nil, or_false] at h
  rcases h with rfl | rfl | rfl | rfl | rfl | rfl | rfl <;> rfl

/-- What a request adds to a counter in the end. -/
def Report.share (r : Report) : Counter → ℤ
  | .requestsTotal => 1
  | .outcomeTotal outcome => if r.outcome = outcome then 1 else 0
  | .latencyMsSum => r.latencyMs.toNat
  | .latencyCount => 1
  | .bucket i => if r.latencyMs ≤ LATENCY_BUCKETS_MS[i] then 1 else 0
  | _ => 0

theorem moved_updates (r : Report) (c : Counter) : moved r.updates c = r.share c := by
  rcases c with _ | _ | _ | _ | _ | _ | _ | _ | _ | _ <;>
    simp [moved, Report.updates, Metrics.beginRequest, Metrics.finishRequest, MetricOp.delta,
      Report.share]

/-- What the order of the operations within a handler says about the performed ones. -/
structure InOrder (p : Progress MetricOp) : Prop where
  counted_nonneg : 0 ≤ moved p.done .latencyCount
  observed (i : Fin 9) : moved p.done (.bucket i) ≤ moved p.done .latencyCount
  counted : moved p.done .latencyCount ≤ answered p.done
  answered : answered p.done ≤ moved p.done .requestsTotal
  begun_le : moved p.done .requestsTotal ≤ 1
  inFlight_nonneg : 0 ≤ moved p.done .inFlight
  inFlight_le : moved p.done .inFlight ≤ moved p.done .requestsTotal
  begun : ∀ rest, p.rest = .decInFlight :: rest → moved p.done .inFlight = 1

theorem inOrder_of_program {r : Report} {p : Progress MetricOp} (h : p.program = r.updates) :
    InOrder p := by
  rcases p with ⟨done, rest⟩
  have hdone : done = r.updates.take done.length := by
    rw [← h]
    exact (List.take_left' rfl).symm
  have hrest : rest = r.updates.drop done.length := by
    rw [← h]
    exact (List.drop_left' rfl).symm
  have hk : done.length ≤ 7 := by
    have hlen : done.length + rest.length = 7 := by
      rw [← List.length_append]
      exact congrArg List.length h
    omega
  generalize done.length = k at hdone hrest hk
  subst hdone hrest
  interval_cases k <;> constructor
  case «7».observed =>
    intro i
    simp only [Report.updates, Metrics.beginRequest, Metrics.finishRequest, moved_cons, moved_nil,
      MetricOp.delta, List.cons_append, List.nil_append, List.take]
    split <;> omega
  all_goals
    simp [moved_cons, moved_nil, answered_cons, answered_nil, Report.updates,
      Metrics.beginRequest, Metrics.finishRequest, MetricOp.delta, MetricOp.answers]

section Recording

variable {reports : List Report} {s : Threads Metrics (Progress MetricOp)}

private theorem isStore_of_mem_flatten {op : MetricOp}
    (h : op ∈ (reports.map Report.updates).flatten) : op.isStore = false := by
  obtain ⟨ops, hops, hop⟩ := List.mem_flatten.mp h
  obtain ⟨r, -, rfl⟩ := List.mem_map.mp hops
  exact isStore_of_mem_updates hop

/-- At every moment the registry is what the performed operations add up to. -/
theorem load_of_recording (h : (recording reports).Reachable s) (c : Counter) :
    s.shared.load c = UInt64.ofInt (moved s.performed c) := by
  have hshared := shared_of_reachable
    (fun x hx y hy m => m.apply_comm (isStore_of_mem_flatten hx) (isStore_of_mem_flatten hy)) h
  rw [hshared, Metrics.load_foldl _
    (fun op hop => isStore_of_mem_flatten (mem_flatten_of_performed h hop))]
  have hfresh : ({} : Metrics).load c = 0 := by
    rcases c with _ | ⟨_ | _ | _⟩ | _ <;> simp [Metrics.load]
  rw [hfresh, UInt64.zero_add]

/-- In the end the registry is that of any sequential order. -/
theorem shared_of_finished (h : (recording reports).Reachable s) (hs : s.Finished)
    {order : List Report} (horder : order.Perm reports) : s.shared = recordAll order := by
  have hcomm : ∀ x ∈ (reports.map Report.updates).flatten,
      ∀ y ∈ (reports.map Report.updates).flatten, ∀ m : Metrics,
        (m.apply x).apply y = (m.apply y).apply x :=
    fun x hx y hy m => m.apply_comm (isStore_of_mem_flatten hx) (isStore_of_mem_flatten hy)
  rw [shared_of_reachable hcomm h, performed_of_finished h hs, recordAll, ← List.flatMap_def]
  refine (horder.symm.flatMap_right Report.updates).foldl_eq' ?_ ({} : Metrics)
  rw [List.flatMap_def]
  exact hcomm

/-- In the end a counter holds the sum of what the requests add. -/
theorem load_of_finished (h : (recording reports).Reachable s) (hs : s.Finished) (c : Counter) :
    s.shared.load c = UInt64.ofInt ((reports.map fun r => r.share c).sum) := by
  rw [load_of_recording h, performed_of_finished h hs, ← List.flatMap_def, moved_flatMap]
  simp only [moved_updates]

/-! ## Between two operations -/

theorem moved_performed (s : Threads Metrics (Progress MetricOp)) (c : Counter) :
    moved s.performed c = (s.locals.map fun p => moved p.done c).sum :=
  moved_flatMap s.locals Progress.done c

private theorem answered_performed (s : Threads Metrics (Progress MetricOp)) :
    answered s.performed = (s.locals.map fun p => answered p.done).sum := by
  unfold answered
  rw [moved_performed, moved_performed, moved_performed, ← List.sum_map_add, ← List.sum_map_add]

private theorem inOrder_of_recording (h : (recording reports).Reachable s) {p : Progress MetricOp}
    (hp : p ∈ s.locals) : InOrder p := by
  have hmem := List.mem_map_of_mem (f := Progress.program) hp
  rw [program_of_reachable h] at hmem
  obtain ⟨r, -, hr⟩ := List.mem_map.mp hmem
  exact inOrder_of_program hr.symm

/-- A histogram update comes after the count. -/
theorem observed_le (h : (recording reports).Reachable s) (i : Fin 9) :
    moved s.performed (.bucket i) ≤ moved s.performed .latencyCount := by
  rw [moved_performed, moved_performed]
  exact List.sum_le_sum fun p hp => (inOrder_of_recording h hp).observed i

/-- Every handler begins one request. -/
theorem begun_le_length (h : (recording reports).Reachable s) :
    moved s.performed .requestsTotal ≤ reports.length := by
  have hlen : s.locals.length = reports.length := by
    have := congrArg List.length (program_of_reachable h)
    rwa [List.length_map, List.length_map] at this
  have hsum := List.sum_le_card_nsmul (s.locals.map fun p => moved p.done .requestsTotal) 1 ?_
  · rw [moved_performed, ← hlen]
    simpa using hsum
  · intro x hx
    obtain ⟨p, hp, rfl⟩ := List.mem_map.mp hx
    exact (inOrder_of_recording h hp).begun_le

/-- The inequalities between the sums of the performed operations. -/
theorem performed_le (h : (recording reports).Reachable s) :
    0 ≤ moved s.performed .latencyCount ∧
      moved s.performed .latencyCount ≤ answered s.performed ∧
      answered s.performed ≤ moved s.performed .requestsTotal ∧
      moved s.performed .inFlight ≤ moved s.performed .requestsTotal := by
  rw [moved_performed, moved_performed, moved_performed, answered_performed]
  refine ⟨List.sum_nonneg ?_, List.sum_le_sum ?_, List.sum_le_sum ?_, List.sum_le_sum ?_⟩
  · intro x hx
    obtain ⟨p, hp, rfl⟩ := List.mem_map.mp hx
    exact (inOrder_of_recording h hp).counted_nonneg
  · exact fun p hp => (inOrder_of_recording h hp).counted
  · exact fun p hp => (inOrder_of_recording h hp).answered
  · exact fun p hp => (inOrder_of_recording h hp).inFlight_le

/-- A handler that is about to decrement the gauge has incremented it. -/
theorem one_le_inFlight (h : (recording reports).Reachable s) {p : Progress MetricOp}
    (hp : p ∈ s.locals) {rest : List MetricOp} (hrest : p.rest = .decInFlight :: rest) :
    1 ≤ moved s.performed .inFlight := by
  rw [moved_performed, ← (inOrder_of_recording h hp).begun rest hrest]
  refine List.single_le_sum ?_ _ (List.mem_map_of_mem hp)
  intro x hx
  obtain ⟨q, hq, rfl⟩ := List.mem_map.mp hx
  exact (inOrder_of_recording h hq).inFlight_nonneg

/-- The number of requests that have begun. -/
def begun (s : Threads Metrics (Progress MetricOp)) : ℕ := s.performed.count .addRequests

theorem moved_requestsTotal (ops : List MetricOp) :
    moved ops .requestsTotal = ops.count .addRequests := by
  induction ops with
  | nil => rfl
  | cons op ops ih =>
    rw [moved_cons, ih, List.count_cons]
    cases op <;> (simp [MetricOp.delta]; try omega)

/-! ## The counters themselves -/

theorem toNat_ofInt {z : ℤ} (hz : 0 ≤ z) (hlt : z < 2 ^ 64) :
    ((UInt64.ofInt z).toNat : ℤ) = z := by
  obtain ⟨n, rfl⟩ := Int.eq_ofNat_of_zero_le hz
  have hsize : n < UInt64.size := by exact_mod_cast hlt
  rw [ofInt_natCast, UInt64.toNat_ofNat_of_lt' hsize]

private theorem moved_outcomeTotal_nonneg (ops : List MetricOp) (outcome : Outcome) :
    0 ≤ moved ops (.outcomeTotal outcome) := by
  refine List.sum_nonneg fun x hx => ?_
  obtain ⟨op, -, rfl⟩ := List.mem_map.mp hx
  cases op with
  | addOutcome outcome' =>
    show (0 : ℤ) ≤ if outcome' = outcome then 1 else 0
    split <;> omega
  | _ => exact le_rfl

/-- The three outcome counters together. -/
def Metrics.answeredTotal (m : Metrics) : ℕ := m.okTotal.toNat + m.errorTotal.toNat + m.timeoutTotal.toNat

/-- As long as the counters have not wrapped they hold the sums and so obey their inequalities. -/
theorem counters_le (h : (recording reports).Reachable s) (hbegun : begun s < 2 ^ 64) :
    s.shared.latencyCount.toNat ≤ s.shared.answeredTotal ∧
      s.shared.answeredTotal ≤ s.shared.requestsTotal.toNat := by
  obtain ⟨hcount, hanswered, hrequests, -⟩ := performed_le h
  have hlt : moved s.performed .requestsTotal < 2 ^ 64 := by
    rw [moved_requestsTotal]
    exact_mod_cast hbegun
  have hok := moved_outcomeTotal_nonneg s.performed .ok
  have herror := moved_outcomeTotal_nonneg s.performed .error
  have htimeout := moved_outcomeTotal_nonneg s.performed .timeout
  have hsum : answered s.performed = moved s.performed (.outcomeTotal .ok)
      + moved s.performed (.outcomeTotal .error) + moved s.performed (.outcomeTotal .timeout) := rfl
  have hvalue : ∀ c, 0 ≤ moved s.performed c → moved s.performed c < 2 ^ 64 →
      ((s.shared.load c).toNat : ℤ) = moved s.performed c := by
    intro c hc hclt
    rw [load_of_recording h]
    exact toNat_ofInt hc hclt
  have h₁ := hvalue .latencyCount hcount (by omega)
  have h₂ := hvalue (.outcomeTotal .ok) hok (by omega)
  have h₃ := hvalue (.outcomeTotal .error) herror (by omega)
  have h₄ := hvalue (.outcomeTotal .timeout) htimeout (by omega)
  have h₅ := hvalue .requestsTotal (by omega) hlt
  unfold Metrics.answeredTotal
  simp only [Metrics.load] at h₁ h₂ h₃ h₄ h₅
  omega

/-- As long as the counters have not wrapped the gauge is not decremented below zero. -/
theorem inFlight_ne_zero (h : (recording reports).Reachable s) (hbegun : begun s < 2 ^ 64)
    {p : Progress MetricOp} (hp : p ∈ s.locals) {rest : List MetricOp}
    (hrest : p.rest = .decInFlight :: rest) : s.shared.inFlight ≠ 0 := by
  have hone := one_le_inFlight h hp hrest
  have hle := (performed_le h).2.2.2
  rw [moved_requestsTotal] at hle
  have hbegun' : ((s.performed.count .addRequests : ℕ) : ℤ) < 2 ^ 64 := by exact_mod_cast hbegun
  have hvalue := toNat_ofInt (z := moved s.performed .inFlight) (by omega) (by omega)
  rw [← load_of_recording h] at hvalue
  intro hzero
  rw [Metrics.load, hzero, UInt64.toNat_zero] at hvalue
  omega

theorem outcomeTotal_of_finished (h : (recording reports).Reachable s) (hs : s.Finished)
    (outcome : Outcome) : s.shared.load (.outcomeTotal outcome) =
      UInt64.ofNat (reports.countP fun r => r.outcome = outcome) := by
  rw [load_of_finished h hs, ← ofInt_natCast, ← sum_map_ite_eq_countP]
  simp only [Report.share, decide_eq_true_eq]

theorem histogram_of_finished (h : (recording reports).Reachable s) (hs : s.Finished) (i : Fin 9) :
    s.shared.latencyHistogram[i] =
      UInt64.ofNat (reports.countP fun r => r.latencyMs ≤ LATENCY_BUCKETS_MS[i]) := by
  have hload := load_of_finished h hs (.bucket i)
  rw [Metrics.load] at hload
  rw [hload, ← ofInt_natCast, ← sum_map_ite_eq_countP]
  simp only [Report.share, decide_eq_true_eq]

theorem latencyMsSum_of_finished (h : (recording reports).Reachable s) (hs : s.Finished) :
    s.shared.latencyMsSum = UInt64.ofNat (reports.map fun r => r.latencyMs.toNat).sum := by
  have hload := load_of_finished h hs .latencyMsSum
  rw [Metrics.load] at hload
  rw [hload, ← ofInt_natCast, Nat.cast_list_sum, List.map_map]
  rfl

theorem latencyCount_of_finished (h : (recording reports).Reachable s) (hs : s.Finished) :
    s.shared.latencyCount = UInt64.ofNat reports.length := by
  have hload := load_of_finished h hs .latencyCount
  rw [Metrics.load] at hload
  rw [hload, ← ofInt_natCast]
  simp only [Report.share, List.map_const', List.sum_replicate, nsmul_eq_mul, mul_one]

theorem inFlight_of_finished (h : (recording reports).Reachable s) (hs : s.Finished) :
    s.shared.inFlight = 0 := by
  have hload := load_of_finished h hs .inFlight
  rw [Metrics.load] at hload
  rw [hload, ← ofInt_zero]
  simp only [Report.share, List.map_const', List.sum_replicate, smul_zero]

/-- The bounds of the buckets grow. -/
theorem bound_mono {i j : Fin 9} (hij : i ≤ j) : LATENCY_BUCKETS_MS[i] ≤ LATENCY_BUCKETS_MS[j] := by
  revert i j
  decide

private theorem ofNat_le_ofNat {a b : ℕ} (hab : a ≤ b) (hb : b < 2 ^ 64) :
    UInt64.ofNat a ≤ UInt64.ofNat b := by
  rw [UInt64.le_iff_toNat_le, UInt64.toNat_ofNat_of_lt' (hab.trans_lt hb),
    UInt64.toNat_ofNat_of_lt' hb]
  exact hab

/-- The metric updates of any number of handlers commute. While fewer than `2 ^ 64` requests have begun,
the gauge is not decremented at zero and the counters of requests, outcomes and latencies stay in that
order; when all handlers have finished, the registry is that of any sequential order and holds the numbers
and sums over the requests, modulo `2 ^ 64`. -/
theorem metric_updates_commute (reports : List Report) {s : Threads Metrics (Progress MetricOp)}
    (h : (recording reports).Reachable s) :
    (begun s < 2 ^ 64 →
      (∀ p ∈ s.locals, ∀ rest, p.rest = .decInFlight :: rest → s.shared.inFlight ≠ 0) ∧
        s.shared.latencyCount.toNat ≤ s.shared.answeredTotal ∧
        s.shared.answeredTotal ≤ s.shared.requestsTotal.toNat) ∧
    (s.Finished →
      s.shared.inFlight = 0 ∧
        (∀ outcome, s.shared.load (.outcomeTotal outcome) =
          UInt64.ofNat (reports.countP fun r => r.outcome = outcome)) ∧
        s.shared.latencyMsSum = UInt64.ofNat (reports.map fun r => r.latencyMs.toNat).sum ∧
        (∀ i : Fin 9, s.shared.latencyHistogram[i] =
          UInt64.ofNat (reports.countP fun r => r.latencyMs ≤ LATENCY_BUCKETS_MS[i])) ∧
        (reports.length < 2 ^ 64 →
          (∀ i j : Fin 9, i ≤ j → s.shared.latencyHistogram[i] ≤ s.shared.latencyHistogram[j]) ∧
            ∀ i : Fin 9, s.shared.latencyHistogram[i] ≤ s.shared.latencyCount) ∧
        ∀ order : List Report, order.Perm reports → s.shared = recordAll order) := by
  refine ⟨fun hbegun => ⟨fun p hp rest hrest => inFlight_ne_zero h hbegun hp hrest,
    counters_le h hbegun⟩, fun hs => ?_⟩
  refine ⟨inFlight_of_finished h hs, outcomeTotal_of_finished h hs, latencyMsSum_of_finished h hs,
    histogram_of_finished h hs, ?_, fun order horder => shared_of_finished h hs horder⟩
  intro hlen
  constructor
  · intro i j hij
    rw [histogram_of_finished h hs, histogram_of_finished h hs]
    refine ofNat_le_ofNat (List.countP_mono_left fun r _ hr => ?_) (List.countP_le_length.trans_lt hlen)
    exact decide_eq_true (UInt64.le_trans (of_decide_eq_true hr) (bound_mono hij))
  · intro i
    rw [histogram_of_finished h hs, latencyCount_of_finished h hs]
    exact ofNat_le_ofNat List.countP_le_length hlen

end Recording

/-- Two handlers whose operations alternate. -/
theorem metric_updates_commute_two :
    ∃ s, (recording [⟨.ok, 3⟩, ⟨.timeout, 2000⟩]).Reachable s ∧ s.shared.inFlight = 0 ∧
      s.shared = recordAll [⟨.timeout, 2000⟩, ⟨.ok, 3⟩] := by
  obtain ⟨s, hs, hfinished⟩ :=
    (recording_init [⟨.ok, 3⟩, ⟨.timeout, 2000⟩]).exists_of_run (fun s => s.Finished)
      [0, 1, 1, 0, 1, 0, 0, 1, 1, 0, 0, 1, 0, 1] (by decide +kernel)
  have hend := (metric_updates_commute [⟨.ok, 3⟩, ⟨.timeout, 2000⟩] hs).2 hfinished
  exact ⟨s, hs, hend.1, hend.2.2.2.2.2 _ (List.Perm.swap _ _ [])⟩

private theorem okTotal_of_replicate {n : ℕ} {s : Threads Metrics (Progress MetricOp)}
    (h : (recording (List.replicate n ⟨.ok, 0⟩)).Reachable s) (hs : s.Finished) :
    s.shared.okTotal = UInt64.ofNat n := by
  have hcount := outcomeTotal_of_finished h hs .ok
  rw [List.countP_replicate, if_pos (decide_eq_true rfl)] at hcount
  exact hcount

/-- The counters wrap: after `2 ^ 64` successful requests `ok_total` is zero. -/
theorem okTotal_wraps :
    ∃ s, (recording (List.replicate (2 ^ 64) ⟨.ok, 0⟩)).Reachable s ∧ s.Finished ∧
      s.shared.okTotal = 0 ∧
      (List.replicate (2 ^ 64) (⟨.ok, 0⟩ : Report)).countP (fun r => r.outcome = .ok) = 2 ^ 64 := by
  obtain ⟨s, hs, hfinished⟩ := exists_recorded (List.replicate (2 ^ 64) ⟨.ok, 0⟩)
  have hzero : UInt64.ofNat (2 ^ 64) = 0 := by decide
  refine ⟨s, hs, hfinished, ?_, ?_⟩
  · rw [okTotal_of_replicate hs hfinished, hzero]
  · rw [List.countP_replicate, if_pos (decide_eq_true rfl)]

end InferenceGateway.Gateway
