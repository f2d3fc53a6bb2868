import InferenceGateway.Gateway.Recording

/-! # Scraping the registry

Reference: `Metrics::render` in `metrics.rs`.

A scrape reads the registry while handlers record on it. `render` first loads `latency_count`, then locks
the histogram, which it holds until it returns, and loads every other counter where it prints it. The count
and the buckets are therefore from two moments, and the printed histogram is monotone up to `+Inf` exactly
if the buckets had not overtaken the count in between.
-/

namespace InferenceGateway.Gateway

open Common

/-! ## The text format -/

/-- A line of the exposition format. -/
inductive Line
  | help (name text : String)
  | type (name metricType : String)
  | sample (name : String) (labels : List (String × String)) (value : UInt64)
  | blank
deriving DecidableEq

namespace Line

/-- A label list in braces, if there is one. -/
def labelText : List (String × String) → String
  | [] => ""
  | labels =>
    "\x7b" ++ ",".intercalate (labels.map fun l => l.1 ++ "=\"" ++ l.2 ++ "\"") ++ "\x7d"

/-- What `writeln!` appends. -/
def text : Line → String
  | .help name text => "# HELP " ++ name ++ " " ++ text ++ "\n"
  | .type name metricType => "# TYPE " ++ name ++ " " ++ metricType ++ "\n"
  | .sample name labels value => name ++ labelText labels ++ " " ++ toString value.toNat ++ "\n"
  | .blank => "\n"

end Line

/-- `family`. -/
def family (name help metricType : String) : List Line := [.help name help, .type name metricType]

/-- The samples of a metric, in the order of the text: labels and value. -/
def samples (name : String) (lines : List Line) : List (List (String × String) × UInt64) :=
  lines.filterMap fun
    | .sample name' labels value => if name' = name then some (labels, value) else none
    | _ => none

/-! ## `render` -/

/-- A step of `render`. -/
inductive RenderOp
  /-- Loads `latency_count` into a local variable. -/
  | loadCount
  | lockHistogram
  | write (lines : List Line)
  /-- Loads a counter and prints it. -/
  | writeLoad (name : String) (labels : List (String × String)) (counter : Counter)
  /-- Prints the buckets of the locked histogram. -/
  | writeBuckets
  /-- Prints the count loaded at the start. -/
  | writeCount (name : String) (labels : List (String × String))
  /-- The guard is dropped. -/
  | unlockHistogram

/-- What `render` prints, all of it under the lock. -/
def renderLines : List RenderOp :=
  [.write (family "inference_requests_total" "Total inference requests accepted by the gateway."
      "counter"),
    .writeLoad "inference_requests_total" [] .requestsTotal,
    .write [.blank],
    .write (family "inference_requests_in_flight" "Inference requests currently being processed."
      "gauge"),
    .writeLoad "inference_requests_in_flight" [] .inFlight,
    .write [.blank],
    .write (family "inference_worker_pool_size"
      "Current adaptive worker pool size (number of concurrent workers)." "gauge"),
    .writeLoad "inference_worker_pool_size" [] .poolWorkersCurrent,
    .write (family "inference_worker_pool_max" "Maximum allowed worker pool size (MAX_CONCURRENCY)."
      "gauge"),
    .writeLoad "inference_worker_pool_max" [] .poolWorkersMax,
    .write [.blank],
    .write (family "inference_responses_total" "Inference responses by terminal status." "counter"),
    .writeLoad "inference_responses_total" [("status", "ok")] (.outcomeTotal .ok),
    .writeLoad "inference_responses_total" [("status", "error")] (.outcomeTotal .error),
    .writeLoad "inference_responses_total" [("status", "timeout")] (.outcomeTotal .timeout),
    .writeLoad "inference_responses_total" [("status", "queue_full")] .queueFullTotal,
    .writeLoad "inference_responses_total" [("status", "invalid_request")] .validationErrorsTotal,
    .write [.blank],
    .write (family "inference_latency_ms_sum"
      "Total end-to-end latency across completed requests (ms)." "counter"),
    .writeLoad "inference_latency_ms_sum" [] .latencyMsSum,
    .writeCount "inference_latency_ms_count" [],
    .write [.blank],
    .write (family "inference_latency_ms_bucket" "End-to-end latency distribution (ms)." "counter"),
    .writeBuckets,
    .writeCount "inference_latency_ms_bucket" [("le", "+Inf")],
    .write [.blank]]

/-- A call of `render`: the loaded count, the lines printed so far and what is left to do. -/
structure Render where
  count : UInt64 := 0
  out : List Line := []
  rest : List RenderOp := .loadCount :: .lockHistogram :: (renderLines ++ [.unlockHistogram])

/-- The string that `render` returns. -/
def Render.text (r : Render) : String := String.join (r.out.map Line.text)

/-- The bucket lines. -/
def bucketLines (histogram : Vector UInt64 9) : List Line :=
  List.ofFn fun i : Fin 9 => .sample "inference_latency_ms_bucket"
    [("le", toString (LATENCY_BUCKETS_MS.get i).toNat)] (histogram.get i)

/-- The lines that a step prints. -/
def RenderOp.lines (m : Metrics) (count : UInt64) : RenderOp → List Line
  | .write lines => lines
  | .writeLoad name labels counter => [.sample name labels (m.load counter)]
  | .writeBuckets => bucketLines m.latencyHistogram
  | .writeCount name labels => [.sample name labels count]
  | _ => []

/-- The registry with its histogram lock, the handlers that record on it and one scrape. -/
structure Scrape where
  registry : Threads Metrics (Progress MetricOp)
  locked : Bool := false
  render : Render := {}

/-- Who moves: a handler or the scrape. -/
inductive ScrapeAction
  | handler (i : ℕ)
  | render
deriving DecidableEq

/-- The next operation is the one that takes the histogram lock. -/
def observesNext (p : Progress MetricOp) : Bool :=
  match p.rest with
  | .observeLatency _ :: _ => true
  | _ => false

/-- The next step of `render`. -/
def Render.step (m : Metrics) (locked : Bool) (r : Render) : Option (Bool × Render) :=
  match r.rest with
  | [] => none
  | .loadCount :: rest => some (locked, { r with count := m.latencyCount, rest := rest })
  | .lockHistogram :: rest => some (true, { r with rest := rest })
  | .unlockHistogram :: rest => some (false, { r with rest := rest })
  | op :: rest => some (locked, { r with out := r.out ++ op.lines m r.count, rest := rest })

/-- A scrape among the handlers that report `reports`. -/
def scraping (reports : List Report) : System Scrape ScrapeAction where
  init s := (recording reports).init s.registry ∧ s.locked = false ∧ s.render = {}
  step s
    | .handler i =>
      if s.locked && s.registry.locals[i]?.any observesNext then none
      else ((recording reports).step s.registry i).map fun registry => { s with registry := registry }
    | .render => (s.render.step s.registry.shared s.locked).map fun p =>
      { s with locked := p.1, render := p.2 }

/-! ## The two moments of a scrape -/

/-- How many latencies had been counted when the scrape loaded the count, and how many had entered each
bucket when it locked the histogram. -/
structure Moments where
  counted : ℤ := 0
  observed : Fin 9 → ℤ := fun _ => 0

/-- Record the two moments. -/
def Moments.update (s : Scrape) (a : ScrapeAction) (x : Moments) : Moments :=
  match a, s.render.rest with
  | .render, .loadCount :: _ => { x with counted := moved s.registry.performed .latencyCount }
  | .render, .lockHistogram :: _ =>
    { x with observed := fun i => moved s.registry.performed (.bucket i) }
  | _, _ => x

/-- The scrape's view of the histogram, in 64 bits. -/
def Moments.histogram (x : Moments) : Vector UInt64 9 := Vector.ofFn fun i => UInt64.ofInt (x.observed i)

/-- The samples of a metric that a step prints once the count and the histogram are read. -/
def RenderOp.samples (name : String) (x : Moments) (op : RenderOp) :
    List (List (String × String) × UInt64) :=
  Gateway.samples name (op.lines { latencyHistogram := x.histogram } (UInt64.ofInt x.counted))

/-- The metrics whose samples form the histogram. -/
def histogramNames : List String := ["inference_latency_ms_count", "inference_latency_ms_bucket"]

/-- The step prints nothing of the histogram that it has yet to load. -/
def RenderOp.prints : RenderOp → Bool
  | .write _ => true
  | .writeLoad name _ _ => !histogramNames.contains name
  | .writeBuckets => true
  | .writeCount _ _ => true
  | _ => false

/-- What a printing step adds to the text does not depend on when it is taken. -/
theorem samples_lines {op : RenderOp} (hop : op.prints = true) {name : String}
    (hname : name ∈ histogramNames) {m : Metrics} {x : Moments}
    (hm : m.latencyHistogram = x.histogram) :
    samples name (op.lines m (UInt64.ofInt x.counted)) = op.samples name x := by
  cases op with
  | writeLoad name' labels counter =>
    have hne : name' ≠ name := by
      rintro rfl
      simp only [RenderOp.prints, Bool.not_eq_true', List.contains_eq_mem, decide_eq_false_iff_not] at hop
      exact hop hname
    simp only [RenderOp.samples, RenderOp.lines, samples, List.filterMap_cons, if_neg hne]
  | writeBuckets => simp only [RenderOp.samples, RenderOp.lines, hm]
  | _ => rfl

/-- Where a scrape stands. -/
inductive Phase (s : Scrape) (x : Moments) : Prop
  | start (h : s.render = {})
  | counted (h : s.render =
      ⟨UInt64.ofInt x.counted, [], .lockHistogram :: (renderLines ++ [.unlockHistogram])⟩)
  | printing (ops : List RenderOp) (hrest : s.render.rest = ops ++ [.unlockHistogram])
      (hops : ∀ op ∈ ops, op.prints = true) (hcount : s.render.count = UInt64.ofInt x.counted)
      (hlocked : s.locked = true) (hm : s.registry.shared.latencyHistogram = x.histogram)
      (hout : ∀ name ∈ histogramNames, samples name s.render.out
        ++ ops.flatMap (RenderOp.samples name x) = renderLines.flatMap (RenderOp.samples name x))
  | done (hrest : s.render.rest = [])
      (hout : ∀ name ∈ histogramNames,
        samples name s.render.out = renderLines.flatMap (RenderOp.samples name x))

/-- What holds of a scrape at every moment. -/
structure ScrapeInv (reports : List Report) (s : Scrape) (x : Moments) : Prop where
  registry : (recording reports).Reachable s.registry
  phase : Phase s x

section Scrape

variable {reports : List Report} {s t : Scrape} {x : Moments}

private theorem prints_renderLines : ∀ op ∈ renderLines, op.prints = true := by
  decide +kernel

/-- Only `observeLatency` touches the histogram. -/
theorem Metrics.apply_histogram (m : Metrics) {op : MetricOp} (hop : ∀ ms, op ≠ .observeLatency ms) :
    (m.apply op).latencyHistogram = m.latencyHistogram := by
  cases op with
  | observeLatency ms => exact absurd rfl (hop ms)
  | addOutcome outcome => cases outcome <;> rfl
  | _ => rfl

theorem ScrapeInv.handler (hinv : ScrapeInv reports s x) {i : ℕ}
    (h : (scraping reports).step s (.handler i) = some t) : ScrapeInv reports t x := by
  change (if s.locked && s.registry.locals[i]?.any observesNext then none
    else ((recording reports).step s.registry i).map fun registry => { s with registry := registry })
      = some t at h
  split at h
  · cases h
  rename_i hfree
  obtain ⟨registry, hstep, rfl⟩ := Option.map_eq_some_iff.mp h
  refine ⟨hinv.registry.step trivial hstep, ?_⟩
  cases hinv.phase with
  | start h => exact .start h
  | counted h => exact .counted h
  | done hrest hout => exact .done hrest hout
  | printing ops hrest hops hcount hlocked hm hout =>
    refine .printing ops hrest hops hcount hlocked ?_ hout
    -- The lock keeps the one operation out that changes the histogram.
    obtain ⟨p, op, rest, hp, hprest, rfl⟩ := programs_step hstep
    rw [hlocked, hp, Option.any_some, Bool.true_and] at hfree
    refine (Metrics.apply_histogram _ ?_).trans hm
    rintro ms rfl
    simp only [observesNext, hprest] at hfree
    exact hfree trivial

/-- A printing step of `render`. -/
theorem Render.step_prints {r : Render} {op : RenderOp} {rest : List RenderOp} (hrest : r.rest = op :: rest)
    (hop : op.prints = true) (m : Metrics) (locked : Bool) :
    r.step m locked = some (locked, { r with out := r.out ++ op.lines m r.count, rest := rest }) := by
  unfold Render.step
  rw [hrest]
  cases op with
  | loadCount | lockHistogram | unlockHistogram => cases hop
  | _ => rfl

theorem Moments.update_prints {op : RenderOp} {rest : List RenderOp} (hrest : s.render.rest = op :: rest)
    (hop : op.prints = true) : Moments.update s .render x = x := by
  unfold Moments.update
  rw [hrest]
  cases op with
  | loadCount | lockHistogram | unlockHistogram => cases hop
  | _ => rfl

theorem samples_append (name : String) (l l' : List Line) :
    samples name (l ++ l') = samples name l ++ samples name l' :=
  List.filterMap_append

/-- The histogram is what the operations so far have added up to. -/
theorem histogram_of_recording (h : (recording reports).Reachable s.registry) (x : Moments)
    (hx : x.observed = fun i => moved s.registry.performed (.bucket i)) :
    s.registry.shared.latencyHistogram = x.histogram := by
  refine Vector.ext fun i hi => ?_
  rw [Moments.histogram, Vector.getElem_ofFn, hx]
  exact load_of_recording h (.bucket ⟨i, hi⟩)

/-- Printing moves samples from what is left to the text. -/
theorem Phase.print {op : RenderOp} {ops : List RenderOp} (hops : ∀ o ∈ op :: ops, o.prints = true)
    (hcount : s.render.count = UInt64.ofInt x.counted) (hlocked : s.locked = true)
    (hm : s.registry.shared.latencyHistogram = x.histogram)
    (hout : ∀ name ∈ histogramNames, samples name s.render.out
      ++ (op :: ops).flatMap (RenderOp.samples name x) = renderLines.flatMap (RenderOp.samples name x)) :
    Phase { s with render := { s.render with
      out := s.render.out ++ op.lines s.registry.shared s.render.count
      rest := ops ++ [.unlockHistogram] } } x := by
  have hop := hops op List.mem_cons_self
  refine .printing ops rfl (fun o ho => hops o (List.mem_cons_of_mem op ho)) hcount hlocked hm
    fun name hname => ?_
  have hleft := hout name hname
  rw [List.flatMap_cons, ← samples_lines hop hname hm, ← hcount, ← List.append_assoc] at hleft
  rw [samples_append]
  exact hleft

theorem ScrapeInv.render (hinv : ScrapeInv reports s x)
    (h : (scraping reports).step s .render = some t) :
    ScrapeInv reports t (Moments.update s .render x) := by
  change (s.render.step s.registry.shared s.locked).map
    (fun p => { s with locked := p.1, render := p.2 }) = some t at h
  obtain ⟨⟨locked, render⟩, hstep, rfl⟩ := Option.map_eq_some_iff.mp h
  refine ⟨hinv.registry, ?_⟩
  cases hinv.phase with
  | start hr =>
    rw [hr] at hstep
    cases hstep
    have hx : Moments.update s .render x =
        { x with counted := moved s.registry.performed .latencyCount } := by
      unfold Moments.update
      rw [hr]
    refine .counted ?_
    rw [hx, ← load_of_recording hinv.registry]
    rfl
  | counted hr =>
    rw [hr] at hstep
    cases hstep
    have hx : Moments.update s .render x =
        { x with observed := fun i => moved s.registry.performed (.bucket i) } := by
      unfold Moments.update
      rw [hr]
    refine .printing renderLines rfl prints_renderLines ?_ rfl ?_ fun name _ => rfl
    · rw [hx]
    · exact histogram_of_recording hinv.registry _ (by rw [hx])
  | done hrest hout =>
    unfold Render.step at hstep
    rw [hrest] at hstep
    cases hstep
  | printing ops hrest hops hcount hlocked hm hout =>
    cases ops with
    | nil =>
      -- The guard is dropped and the text is complete.
      unfold Render.step at hstep
      rw [hrest] at hstep
      cases hstep
      have hx : Moments.update s .render x = x := by
        unfold Moments.update
        rw [hrest]
        rfl
      rw [hx]
      refine .done rfl fun name hname => ?_
      have := hout name hname
      rwa [List.flatMap_nil, List.append_nil] at this
    | cons op ops =>
      have hop := hops op List.mem_cons_self
      rw [Render.step_prints hrest hop] at hstep
      cases hstep
      rw [Moments.update_prints hrest hop]
      exact .print hops hcount hlocked hm hout

theorem scrapeInv_of_reachable (h : ((scraping reports).withHistory {} Moments.update).Reachable (s, x)) :
    ScrapeInv reports s x := by
  refine h.invariant (I := fun p => ScrapeInv reports p.1 p.2) ?_ ?_
  · rintro ⟨s, x⟩ ⟨⟨hregistry, -, hrender⟩, -⟩
    exact ⟨.init hregistry, .start hrender⟩
  · rintro ⟨s, x⟩ a ⟨t, y⟩ - hinv - hstep
    obtain ⟨t, ht, heq⟩ := Option.map_eq_some_iff.mp hstep
    cases heq
    cases a with
    | handler i => exact hinv.handler ht
    | render => exact hinv.render ht

/-! ## The printed histogram -/

/-- The samples of the buckets do not decrease up to and including `+Inf`, and that of `+Inf` is the count. -/
def WellFormedHistogram (lines : List Line) : Prop :=
  ((samples "inference_latency_ms_bucket" lines).map Prod.snd).Pairwise (· ≤ ·) ∧
    ((samples "inference_latency_ms_bucket" lines).filter fun p => p.1 = [("le", "+Inf")]).map Prod.snd =
      (samples "inference_latency_ms_count" lines).map Prod.snd

instance (lines : List Line) : Decidable (WellFormedHistogram lines) :=
  inferInstanceAs (Decidable (_ ∧ _))

/-- The updates that came before the two moments, counted as far as 64 bits go, are in order: of those of a
bucket no more than of a later one, and of no bucket more than of the count. -/
def Moments.Ordered (x : Moments) : Prop :=
  (∀ i j : Fin 9, i < j → x.observed i % 2 ^ 64 ≤ x.observed j % 2 ^ 64) ∧
    ∀ i : Fin 9, x.observed i % 2 ^ 64 ≤ x.counted % 2 ^ 64

private theorem ofInt_le_ofInt (y z : ℤ) : UInt64.ofInt y ≤ UInt64.ofInt z ↔ y % 2 ^ 64 ≤ z % 2 ^ 64 := by
  have hvalue (z : ℤ) : ((UInt64.ofInt z).toNat : ℤ) = z % 2 ^ 64 := by
    have hmod : UInt64.ofInt z = UInt64.ofInt (z % 2 ^ 64) := by
      rw [UInt64.ofInt, UInt64.ofInt, Int.emod_emod_of_dvd z dvd_rfl]
    rw [hmod]
    exact toNat_ofInt (Int.emod_nonneg z (by decide)) (Int.emod_lt_of_pos z (by decide))
  rw [UInt64.le_iff_toNat_le, ← Int.ofNat_le, hvalue, hvalue]

theorem count_samples (x : Moments) :
    renderLines.flatMap (RenderOp.samples "inference_latency_ms_count" x) =
      [([], UInt64.ofInt x.counted)] := by
  simp [renderLines, RenderOp.samples, RenderOp.lines, family, samples, bucketLines]

theorem bucket_samples (x : Moments) :
    renderLines.flatMap (RenderOp.samples "inference_latency_ms_bucket" x) =
      (List.ofFn fun i : Fin 9 => ([("le", toString (LATENCY_BUCKETS_MS.get i).toNat)],
        UInt64.ofInt (x.observed i))) ++ [([("le", "+Inf")], UInt64.ofInt x.counted)] := by
  simp [renderLines, RenderOp.samples, RenderOp.lines, family, samples, bucketLines,
    Moments.histogram]

private theorem bound_ne_inf (i : Fin 9) : toString (LATENCY_BUCKETS_MS.get i).toNat ≠ "+Inf" := by
  revert i
  decide +kernel

/-- A finished scrape shows the counters as it saw them. -/
theorem wellFormed_iff_ordered (hinv : ScrapeInv reports s x) (hs : s.render.rest = []) :
    WellFormedHistogram s.render.out ↔ x.Ordered := by
  have hout : ∀ name ∈ histogramNames,
      samples name s.render.out = renderLines.flatMap (RenderOp.samples name x) := by
    cases hinv.phase with
    | start h =>
      rw [h] at hs
      cases hs
    | counted h =>
      rw [h] at hs
      cases hs
    | printing ops hrest =>
      rw [hrest] at hs
      exact absurd hs (List.append_ne_nil_of_right_ne_nil ops (List.cons_ne_nil _ _))
    | done _ hout => exact hout
  have hcount := hout "inference_latency_ms_count" (by simp [histogramNames])
  have hbucket := hout "inference_latency_ms_bucket" (by simp [histogramNames])
  rw [count_samples] at hcount
  rw [bucket_samples] at hbucket
  have hnone : (List.ofFn fun i : Fin 9 => ([("le", toString (LATENCY_BUCKETS_MS.get i).toNat)],
      UInt64.ofInt (x.observed i))).filter (fun p => p.1 = [("le", "+Inf")]) = [] := by
    rw [List.filter_eq_nil_iff]
    intro p hp
    obtain ⟨i, rfl⟩ := List.mem_ofFn.mp hp
    simpa using bound_ne_inf i
  unfold WellFormedHistogram Moments.Ordered
  simp only [← ofInt_le_ofInt]
  rw [hcount, hbucket, List.filter_append, hnone, List.map_append, List.map_ofFn,
    List.pairwise_append, List.pairwise_ofFn]
  constructor
  · rintro ⟨⟨hpairs, -, hlast⟩, -⟩
    exact ⟨fun i j hij => hpairs hij, fun i =>
      hlast _ (List.mem_ofFn.mpr ⟨i, rfl⟩) _ (List.mem_singleton.mpr rfl)⟩
  · rintro ⟨hpairs, hlast⟩
    refine ⟨⟨fun i j hij => hpairs i j hij, List.pairwise_singleton _ _, ?_⟩, rfl⟩
    intro a ha b hb
    obtain ⟨i, rfl⟩ := List.mem_ofFn.mp ha
    obtain rfl := List.mem_singleton.mp hb
    exact hlast i

/-- The recorded moments are those of a recording. -/
structure Moments.Bounded (x : Moments) (n : ℕ) : Prop where
  counted_nonneg : 0 ≤ x.counted
  counted_le : x.counted ≤ n
  observed_nonneg (i : Fin 9) : 0 ≤ x.observed i
  observed_le (i : Fin 9) : x.observed i ≤ n
  observed_mono {i j : Fin 9} (hij : i ≤ j) : x.observed i ≤ x.observed j

theorem moved_bucket_mono (ops : List MetricOp) {i j : Fin 9} (hij : i ≤ j) :
    moved ops (.bucket i) ≤ moved ops (.bucket j) := by
  refine List.sum_le_sum fun op _ => ?_
  cases op with
  | observeLatency ms =>
    show (if ms ≤ LATENCY_BUCKETS_MS[i] then 1 else 0 : ℤ) ≤ if ms ≤ LATENCY_BUCKETS_MS[j] then 1 else 0
    by_cases hi : ms ≤ LATENCY_BUCKETS_MS[i]
    · rw [if_pos hi, if_pos (UInt64.le_trans hi (bound_mono hij))]
    · rw [if_neg hi]
      split <;> omega
  | _ => exact le_rfl

theorem moved_bucket_nonneg (ops : List MetricOp) (i : Fin 9) : 0 ≤ moved ops (.bucket i) := by
  refine List.sum_nonneg fun z hz => ?_
  obtain ⟨op, -, rfl⟩ := List.mem_map.mp hz
  cases op with
  | observeLatency ms =>
    show (0 : ℤ) ≤ if ms ≤ LATENCY_BUCKETS_MS[i] then 1 else 0
    split <;> omega
  | _ => exact le_rfl

theorem bounded_of_reachable
    (h : ((scraping reports).withHistory {} Moments.update).Reachable (s, x)) :
    x.Bounded reports.length := by
  refine h.invariant (I := fun p => p.2.Bounded reports.length) ?_ ?_
  · rintro ⟨s, x⟩ ⟨-, hx⟩
    obtain rfl : x = {} := hx
    exact ⟨le_rfl, Int.natCast_nonneg _, fun _ => le_rfl, fun _ => Int.natCast_nonneg _,
      fun _ => le_rfl⟩
  · rintro ⟨s, x⟩ a ⟨t, y⟩ hs hx - hstep
    have hregistry := (scrapeInv_of_reachable hs).registry
    have hlen := begun_le_length hregistry
    obtain ⟨hnonneg, hanswered, hrequests, -⟩ := performed_le hregistry
    obtain ⟨t, ht, heq⟩ := Option.map_eq_some_iff.mp hstep
    cases heq
    show (Moments.update s a x).Bounded reports.length
    unfold Moments.update
    split
    · exact { hx with counted_nonneg := hnonneg, counted_le := hanswered.trans (hrequests.trans hlen) }
    · refine { hx with
        observed_nonneg := fun i => moved_bucket_nonneg _ i
        observed_le := fun i => ?_
        observed_mono := fun hij => moved_bucket_mono _ hij }
      have := observed_le hregistry i
      show moved s.registry.performed (.bucket i) ≤ _
      omega
    · exact hx

/-- While the counters do not wrap, one inequality decides. -/
theorem Moments.Bounded.ordered_iff {n : ℕ} (hx : x.Bounded n) (hn : n < 2 ^ 64) :
    x.Ordered ↔ x.observed 8 ≤ x.counted := by
  have hn' : (n : ℤ) < 2 ^ 64 := by exact_mod_cast hn
  have hobserved (i : Fin 9) : x.observed i % 2 ^ 64 = x.observed i :=
    Int.emod_eq_of_lt (hx.observed_nonneg i) ((hx.observed_le i).trans_lt hn')
  have hcounted : x.counted % 2 ^ 64 = x.counted :=
    Int.emod_eq_of_lt hx.counted_nonneg (hx.counted_le.trans_lt hn')
  unfold Moments.Ordered
  simp only [hobserved, hcounted]
  constructor
  · intro h
    exact h.2 8
  · intro h
    exact ⟨fun i j hij => hx.observed_mono hij.le, fun i => (hx.observed_mono (Fin.le_last i)).trans h⟩

/-- A scrape shows a well-formed histogram exactly if the updates that came before its two moments are in order
when they are counted modulo `2 ^ 64`. Among fewer than `2 ^ 64` requests that means: no more latencies of the
last bucket had been entered into the histogram when the scrape locked it than latencies had been counted when
it loaded the count. -/
theorem wellFormedHistogram_iff (reports : List Report) {s : Scrape} {x : Moments}
    (h : ((scraping reports).withHistory {} Moments.update).Reachable (s, x))
    (hs : s.render.rest = []) :
    (WellFormedHistogram s.render.out ↔ x.Ordered) ∧
      (reports.length < 2 ^ 64 →
        (WellFormedHistogram s.render.out ↔ x.observed 8 ≤ x.counted)) := by
  have hiff := wellFormed_iff_ordered (scrapeInv_of_reachable h) hs
  exact ⟨hiff, fun hlen => hiff.trans ((bounded_of_reachable h).ordered_iff hlen)⟩

end Scrape

theorem scraping_init (reports : List Report) :
    ((scraping reports).withHistory {} Moments.update).Reachable
      (⟨⟨{}, (reports.map Report.updates).map fun ops => ⟨[], ops⟩⟩, false, {}⟩, {}) :=
  .init ⟨⟨rfl, rfl, rfl⟩, rfl⟩

/-- The schedule in which one handler takes all its steps at one moment of a scrape. -/
def meanwhile (before : ℕ) : List ScrapeAction :=
  List.replicate before .render ++ List.replicate 7 (.handler 0)
    ++ List.replicate (renderLines.length + 3 - before) .render

/-- A handler that has finished before the scrape. -/
theorem wellFormedHistogram_quiet :
    ∃ s, (scraping [⟨.ok, 1⟩]).Reachable s ∧ s.render.rest = [] ∧
      WellFormedHistogram s.render.out := by
  obtain ⟨⟨s, x⟩, h, hs, hx⟩ := (scraping_init [⟨.ok, 1⟩]).exists_of_run
    (fun p => p.1.render.rest = [] ∧ p.2.observed 8 ≤ p.2.counted) (meanwhile 0) (by decide +kernel)
  exact ⟨s, h.of_withHistory, hs,
    ((wellFormedHistogram_iff [⟨.ok, 1⟩] h hs).2 (by decide)).mpr hx⟩

/-- A handler finishes after the scrape has loaded the count and before it locks the histogram: the first
bucket shows one request and `+Inf` none. -/
theorem wellFormedHistogram_overtaken :
    ∃ s, (scraping [⟨.ok, 1⟩]).Reachable s ∧ s.render.rest = [] ∧
      ¬ WellFormedHistogram s.render.out := by
  obtain ⟨⟨s, x⟩, h, hs, hw⟩ := (scraping_init [⟨.ok, 1⟩]).exists_of_run
    (fun p => p.1.render.rest = [] ∧ ¬ WellFormedHistogram p.1.render.out) (meanwhile 1)
    (by decide +kernel)
  exact ⟨s, h.of_withHistory, hs, hw⟩

end InferenceGateway.Gateway
