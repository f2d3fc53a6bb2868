import Mathlib

/-! # The metrics registry

Reference: `metrics.rs`.

Every counter is an `AtomicU64`, so a method of `Metrics` is not atomic: it is a list of atomic
operations, and other tasks may run between two of them. `fetch_add` and `fetch_sub` wrap. The
histogram update is one operation, since it runs under its mutex.
-/

namespace InferenceGateway.Gateway

/-- Latency bucket upper bounds in milliseconds (inclusive). -/
def LATENCY_BUCKETS_MS : Vector UInt64 9 := #v[1, 5, 10, 25, 50, 100, 250, 500, 1000]

/-- Final outcome of a processed inference request. -/
inductive Outcome
  | ok
  | error
  | timeout
deriving DecidableEq, Repr

/-- Process-wide gateway metrics. -/
structure Metrics where
  requestsTotal : UInt64 := 0
  okTotal : UInt64 := 0
  errorTotal : UInt64 := 0
  timeoutTotal : UInt64 := 0
  queueFullTotal : UInt64 := 0
  validationErrorsTotal : UInt64 := 0
  inFlight : UInt64 := 0
  latencyMsSum : UInt64 := 0
  latencyCount : UInt64 := 0
  latencyHistogram : Vector UInt64 9 := Vector.replicate 9 0
  poolWorkersCurrent : UInt64 := 0
  poolWorkersMax : UInt64 := 0
deriving DecidableEq

/-- One atomic operation on the registry. -/
inductive MetricOp
  | addRequests
  | incInFlight
  | decInFlight
  | addOutcome (outcome : Outcome)
  | addLatencySum (latencyMs : UInt64)
  | addLatencyCount
  | observeLatency (latencyMs : UInt64)
  | addQueueFull
  | addValidationError
  | storePoolCurrent (workers : UInt64)
  | storePoolMax (workers : UInt64)
deriving DecidableEq, Repr

namespace Metrics

/-- The loop of `finish_request` over the histogram. -/
def bumpBuckets (histogram : Vector UInt64 9) (latencyMs : UInt64) : Vector UInt64 9 :=
  Vector.zipWith (fun bucket bound => if latencyMs ≤ bound then bucket + 1 else bucket)
    histogram LATENCY_BUCKETS_MS

/-- The effect of one atomic operation. -/
def apply (m : Metrics) : MetricOp → Metrics
  | .addRequests => { m with requestsTotal := m.requestsTotal + 1 }
  | .incInFlight => { m with inFlight := m.inFlight + 1 }
  | .decInFlight => { m with inFlight := m.inFlight - 1 }
  | .addOutcome .ok => { m with okTotal := m.okTotal + 1 }
  | .addOutcome .error => { m with errorTotal := m.errorTotal + 1 }
  | .addOutcome .timeout => { m with timeoutTotal := m.timeoutTotal + 1 }
  | .addLatencySum ms => { m with latencyMsSum := m.latencyMsSum + ms }
  | .addLatencyCount => { m with latencyCount := m.latencyCount + 1 }
  | .observeLatency ms => { m with latencyHistogram := bumpBuckets m.latencyHistogram ms }
  | .addQueueFull => { m with queueFullTotal := m.queueFullTotal + 1 }
  | .addValidationError => { m with validationErrorsTotal := m.validationErrorsTotal + 1 }
  | .storePoolCurrent n => { m with poolWorkersCurrent := n }
  | .storePoolMax n => { m with poolWorkersMax := n }

/-- `begin_request`. -/
def beginRequest : List MetricOp := [.addRequests, .incInFlight]

/-- `finish_request`. -/
def finishRequest (outcome : Outcome) (latencyMs : UInt64) : List MetricOp :=
  [.decInFlight, .addOutcome outcome, .addLatencySum latencyMs, .addLatencyCount,
    .observeLatency latencyMs]

/-- `note_queue_full`. -/
def noteQueueFull : List MetricOp := [.addQueueFull]

/-- `note_validation_error`. -/
def noteValidationError : List MetricOp := [.addValidationError]

/-- `set_pool_workers`; `usize as u64` is the identity on a 64-bit target. -/
def setPoolWorkers (current max : ℕ) : List MetricOp :=
  [.storePoolCurrent (UInt64.ofNat current), .storePoolMax (UInt64.ofNat max)]

end Metrics

namespace MetricOp

/-- The operations that count a request under its terminal status in `inference_responses_total`. -/
def isTerminal : MetricOp → Bool
  | .addOutcome _ => true
  | .addQueueFull => true
  | .addValidationError => true
  | _ => false

/-- What an operation adds to the in-flight gauge. -/
def inFlightDelta : MetricOp → ℤ
  | .incInFlight => 1
  | .decInFlight => -1
  | _ => 0

end MetricOp

/-! ## What the operations do -/

theorem ofInt_zero : UInt64.ofInt 0 = 0 := rfl

theorem ofInt_natCast (n : ℕ) : UInt64.ofInt n = UInt64.ofNat n := by
  have hmod : ((n : ℤ) % 2 ^ 64).toNat = n % 2 ^ 64 := by omega
  rw [UInt64.ofInt, hmod, UInt64.ofNat_mod_size]

/-- Only the two gauge operations touch the in-flight gauge, which wraps. -/
theorem Metrics.apply_inFlight (m : Metrics) (op : MetricOp) :
    (m.apply op).inFlight = m.inFlight + UInt64.ofInt op.inFlightDelta := by
  cases op with
  | incInFlight => simp [Metrics.apply, MetricOp.inFlightDelta]
  | decInFlight => simp [Metrics.apply, MetricOp.inFlightDelta, UInt64.sub_eq_add_neg]
  | addOutcome outcome =>
    cases outcome <;> simp [Metrics.apply, MetricOp.inFlightDelta, ofInt_zero]
  | _ => simp [Metrics.apply, MetricOp.inFlightDelta, ofInt_zero]

/-- An operation that adds nothing to the gauge keeps it. -/
theorem Metrics.apply_inFlight_of_delta_zero (m : Metrics) {op : MetricOp}
    (h : op.inFlightDelta = 0) : (m.apply op).inFlight = m.inFlight := by
  rw [m.apply_inFlight, h, ofInt_zero, UInt64.add_zero]

end InferenceGateway.Gateway
