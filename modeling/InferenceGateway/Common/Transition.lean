import Mathlib

/-!
# Transition systems with partial steps

A system has a set of initial states and, for each action, a partial function on states: `none` says
that the action is not enabled. All nondeterminism (scheduling, the environment) sits in the choice of
the action, so a run is a list of actions and can be executed.

`ReachableVia G` restricts the runs to those whose every step satisfies `G` at the state it leaves;
`Reachable` is the unrestricted case. `ReachableVia.invariant` packages the induction over a run once:
an invariant only has to be shown for the initial states and for one step. `run_map_congr` does the same
for two runs that are to look alike under an observation. `withHistory` puts a record of the run beside the
state, for statements about what the run did before.
-/

namespace InferenceGateway.Common

/-- Initial states and a partial step function. -/
structure System (σ α : Type*) where
  init : σ → Prop
  step : σ → α → Option σ

namespace System

variable {σ α : Type*} (M : System σ α)

/-- States reached by runs in which every step `a` leaves a state `s` with `G s a`. -/
inductive ReachableVia (G : σ → α → Prop) : σ → Prop
  | init {s : σ} (h : M.init s) : ReachableVia G s
  | step {s t : σ} {a : α} (hs : ReachableVia G s) (hg : G s a) (h : M.step s a = some t) :
      ReachableVia G t

/-- States reached by any run. -/
abbrev Reachable : σ → Prop := M.ReachableVia fun _ _ => True

variable {M}

/-- A weaker condition on the steps reaches at least as many states. -/
theorem ReachableVia.mono {G H : σ → α → Prop} (hGH : ∀ s a, G s a → H s a) {s : σ}
    (h : M.ReachableVia G s) : M.ReachableVia H s := by
  induction h with
  | init h => exact .init h
  | step _ hg h ih => exact .step ih (hGH _ _ hg) h

/-- Every conditioned run is a run. -/
theorem ReachableVia.reachable {G : σ → α → Prop} {s : σ} (h : M.ReachableVia G s) :
    M.Reachable s :=
  h.mono fun _ _ _ => trivial

/-- The invariant rule. The step case may use that the state before the step is reachable, so
invariants that were proved earlier are available when a later one is shown to be preserved. -/
theorem ReachableVia.invariant {G : σ → α → Prop} {I : σ → Prop} (hinit : ∀ s, M.init s → I s)
    (hstep : ∀ s a t, M.ReachableVia G s → I s → G s a → M.step s a = some t → I t) {s : σ}
    (h : M.ReachableVia G s) : I s := by
  induction h with
  | init h => exact hinit _ h
  | step hs hg h ih => exact hstep _ _ _ hs ih hg h

/-- Execute a list of actions, each only where `g` admits it; `none` as soon as one of them is not
admitted or not enabled. -/
def runIf (M : System σ α) (g : σ → α → Bool) (s : σ) : List α → Option σ
  | [] => some s
  | a :: as => if g s a then (M.step s a).bind fun t => M.runIf g t as else none

/-- Execute a list of actions. -/
abbrev run (M : System σ α) (s : σ) (as : List α) : Option σ := M.runIf (fun _ _ => true) s as

theorem run_cons (s : σ) (a : α) (as : List α) :
    M.run s (a :: as) = (M.step s a).bind fun t => M.run t as :=
  if_pos rfl

theorem run_append (s : σ) (as bs : List α) :
    M.run s (as ++ bs) = (M.run s as).bind fun t => M.run t bs := by
  induction as generalizing s with
  | nil => rfl
  | cons a as ih =>
    rw [List.cons_append, run_cons, run_cons, Option.bind_assoc]
    exact congrArg _ (funext ih)

/-- What every step preserves holds after a run if it held before. -/
theorem run_preserves {P : σ → Prop} (hstep : ∀ s a t, P s → M.step s a = some t → P t) {s t : σ}
    {as : List α} (hs : P s) (hrun : M.run s as = some t) : P t := by
  induction as generalizing s with
  | nil =>
    cases hrun
    exact hs
  | cons a as ih =>
    rw [run_cons] at hrun
    obtain ⟨u, hu, hrun⟩ := Option.bind_eq_some_iff.mp hrun
    exact ih (hstep s a u hs hu) hrun

/-- A quantity that no step decreases is not decreased by a run. -/
theorem run_le {β : Type*} [Preorder β] {m : σ → β} (hstep : ∀ s a t, M.step s a = some t → m s ≤ m t)
    {s t : σ} {as : List α} (hrun : M.run s as = some t) : m s ≤ m t :=
  run_preserves (P := fun u => m s ≤ m u) (fun u a v hu h => hu.trans (hstep u a v h)) le_rfl hrun

/-- A quantity that every step decreases bounds the length of a run. -/
theorem run_length_le {m : σ → ℕ} (hstep : ∀ s a t, M.step s a = some t → m t < m s) {s t : σ}
    {as : List α} (hrun : M.run s as = some t) : as.length + m t ≤ m s := by
  induction as generalizing s with
  | nil =>
    cases hrun
    exact (Nat.zero_add _).le
  | cons a as ih =>
    rw [run_cons] at hrun
    obtain ⟨u, hu, hrun⟩ := Option.bind_eq_some_iff.mp hrun
    have hless := hstep s a u hu
    have := ih hrun
    rw [List.length_cons]
    omega

/-- A run passes through a state after each number of steps. -/
theorem exists_run_take {s t : σ} {as : List α} (h : M.run s as = some t) (k : ℕ) :
    ∃ u, M.run s (as.take k) = some u := by
  rw [← List.take_append_drop k as, run_append] at h
  obtain ⟨u, hu, -⟩ := Option.bind_eq_some_iff.mp h
  exact ⟨u, hu⟩

/-- Two runs look alike if their actions do and one step cannot tell apart what looks alike. -/
theorem run_map_congr {β γ : Type*} {f : σ → β} {g : α → γ}
    (hstep : ∀ s s' a a', f s = f s' → g a = g a' → (M.step s a).map f = (M.step s' a').map f)
    {s s' : σ} (hs : f s = f s') {as as' : List α} (has : as.map g = as'.map g) :
    (M.run s as).map f = (M.run s' as').map f := by
  induction as generalizing s s' as' with
  | nil =>
    rw [List.map_nil, eq_comm, List.map_eq_nil_iff] at has
    rw [has]
    exact congrArg some hs
  | cons a as ih =>
    cases as' with
    | nil => cases has
    | cons a' as' =>
      rw [List.map_cons, List.map_cons, List.cons.injEq] at has
      have h := hstep s s' a a' hs has.1
      rw [run_cons, run_cons]
      cases ht : M.step s a with
      | none =>
        rw [ht, Option.map_none, eq_comm, Option.map_eq_none_iff] at h
        rw [h]
        rfl
      | some t =>
        rw [ht, Option.map_some, eq_comm, Option.map_eq_some_iff] at h
        obtain ⟨t', ht', hft⟩ := h
        rw [ht']
        exact ih hft.symm has.2

theorem runIf_cons {g : σ → α → Bool} {s : σ} {a : α} (hg : g s a = true) (as : List α) :
    M.runIf g s (a :: as) = (M.step s a).bind fun t => M.runIf g t as :=
  if_pos hg

/-- A run of admitted actions is a run. -/
theorem run_of_runIf {g : σ → α → Bool} {s t : σ} {as : List α} (h : M.runIf g s as = some t) :
    M.run s as = some t := by
  induction as generalizing s with
  | nil => exact h
  | cons a as ih =>
    unfold System.runIf at h
    split at h
    · obtain ⟨u, hu, h⟩ := Option.bind_eq_some_iff.mp h
      rw [run_cons, hu]
      exact ih h
    · cases h

/-- A quantity that admitted steps keep and other steps increase tells whether all the steps of a run were
admitted. -/
theorem runIf_iff_of_measure {β : Type*} [PartialOrder β] {g : σ → α → Bool} {m : σ → β}
    (hkeep : ∀ s a t, M.step s a = some t → g s a = true → m t = m s)
    (hgrow : ∀ s a t, M.step s a = some t → g s a = false → m s < m t) {s t : σ} {as : List α}
    (hrun : M.run s as = some t) : M.runIf g s as = some t ↔ m t = m s := by
  have hmono : ∀ s a t, M.step s a = some t → m s ≤ m t := by
    intro s a t h
    cases hg : g s a with
    | true => exact (hkeep s a t h hg).ge
    | false => exact (hgrow s a t h hg).le
  induction as generalizing s with
  | nil =>
    cases hrun
    exact ⟨fun _ => rfl, fun _ => rfl⟩
  | cons a as ih =>
    rw [run_cons] at hrun
    obtain ⟨u, hu, hrun⟩ := Option.bind_eq_some_iff.mp hrun
    cases hg : g s a with
    | true =>
      rw [runIf_cons hg, hu, Option.bind_some, ← hkeep s a u hu hg]
      exact ih hrun
    | false =>
      -- What was gained here is not lost again.
      have hlt := (hgrow s a u hu hg).trans_le (run_le hmono hrun)
      have hnone : M.runIf g s (a :: as) = none := if_neg (by rw [hg]; exact Bool.false_ne_true)
      rw [hnone]
      constructor
      · intro h
        cases h
      · intro h
        exact absurd h hlt.ne'

/-- A property that holds after a step exactly if it held before and the step was admitted tells whether all
the steps of a run were admitted. -/
theorem runIf_iff_of_step {g : σ → α → Bool} {I P : σ → Prop}
    (hI : ∀ s a t, I s → M.step s a = some t → I t)
    (hP : ∀ s a t, I s → M.step s a = some t → (P t ↔ P s ∧ g s a = true)) {s t : σ} {as : List α}
    (hs : I s) (hps : P s) (hrun : M.run s as = some t) : M.runIf g s as = some t ↔ P t := by
  induction as generalizing s with
  | nil =>
    cases hrun
    exact ⟨fun _ => hps, fun _ => rfl⟩
  | cons a as ih =>
    rw [run_cons] at hrun
    obtain ⟨u, hu, hrun⟩ := Option.bind_eq_some_iff.mp hrun
    have hIu := hI s a u hs hu
    have hPu := hP s a u hs hu
    by_cases hg : g s a = true
    · rw [runIf_cons hg, hu, Option.bind_some]
      exact ih hIu (hPu.mpr ⟨hps, hg⟩) hrun
    · have hnone : M.runIf g s (a :: as) = none := if_neg hg
      rw [hnone]
      refine ⟨fun h => (nomatch h), fun hPt => ?_⟩
      -- What fails once fails from then on.
      have hback (hfail : ¬P u) : I t ∧ ¬P t :=
        run_preserves (P := fun v => I v ∧ ¬P v)
          (fun v b w hv hstep => ⟨hI v b w hv.1 hstep, fun hw => hv.2 ((hP v b w hv.1 hstep).mp hw).1⟩)
          ⟨hIu, hfail⟩ hrun
      have hu : P u := by_contra fun hfail => (hback hfail).2 hPt
      exact absurd (hPu.mp hu).2 hg

/-- Continuing a reachable state by an executed list of admitted actions gives a reachable state. -/
theorem ReachableVia.runIf {g : σ → α → Bool} {s t : σ}
    (h : M.ReachableVia (fun s a => g s a = true) s) {as : List α}
    (hrun : M.runIf g s as = some t) : M.ReachableVia (fun s a => g s a = true) t := by
  induction as generalizing s with
  | nil => cases hrun; exact h
  | cons a as ih =>
    unfold System.runIf at hrun
    split at hrun
    · obtain ⟨u, hu, hrun⟩ := Option.bind_eq_some_iff.mp hrun
      exact ih (.step h ‹_› hu) hrun
    · cases hrun

/-- A decidable property checked at the end of an executed run of admitted actions holds of some state
that such runs reach. -/
theorem ReachableVia.exists_of_runIf {g : σ → α → Bool} {s : σ}
    (h : M.ReachableVia (fun s a => g s a = true) s) (P : σ → Prop) [DecidablePred P] (as : List α)
    (hrun : ((M.runIf g s as).map fun t => decide (P t)) = some true) :
    ∃ t, M.ReachableVia (fun s a => g s a = true) t ∧ P t := by
  obtain ⟨t, ht, hp⟩ := Option.map_eq_some_iff.mp hrun
  exact ⟨t, h.runIf ht, of_decide_eq_true hp⟩

/-- Continuing a reachable state by an executed list of actions gives a reachable state. -/
theorem Reachable.run {s t : σ} (h : M.Reachable s) {as : List α} (hrun : M.run s as = some t) :
    M.Reachable t :=
  ((h.mono fun _ _ _ => rfl : M.ReachableVia _ s).runIf hrun).reachable

/-- A decidable property checked at the end of an executed run holds of some reachable state. -/
theorem Reachable.exists_of_run {s : σ} (h : M.Reachable s) (P : σ → Prop) [DecidablePred P]
    (as : List α) (hrun : ((M.run s as).map fun t => decide (P t)) = some true) :
    ∃ t, M.Reachable t ∧ P t := by
  obtain ⟨t, ht, hp⟩ := Option.map_eq_some_iff.mp hrun
  exact ⟨t, h.run ht, of_decide_eq_true hp⟩

/-! ## History -/

/-- The system with a record of its run beside the state, which no step reads. -/
def withHistory {η : Type*} (M : System σ α) (x₀ : η) (update : σ → α → η → η) : System (σ × η) α where
  init p := M.init p.1 ∧ p.2 = x₀
  step p a := (M.step p.1 a).map fun t => (t, update p.1 a p.2)

variable {η : Type*} {x₀ : η} {update : σ → α → η → η}

theorem Reachable.of_withHistory {p : σ × η} (h : (M.withHistory x₀ update).Reachable p) :
    M.Reachable p.1 := by
  induction h with
  | init h => exact .init h.1
  | step _ _ h ih =>
    obtain ⟨t, ht, rfl⟩ := Option.map_eq_some_iff.mp h
    exact .step ih trivial ht

/-- Every reachable state has a history. -/
theorem Reachable.exists_history {s : σ} (h : M.Reachable s) :
    ∃ x, (M.withHistory x₀ update).Reachable (s, x) := by
  induction h with
  | init h => exact ⟨x₀, .init ⟨h, rfl⟩⟩
  | @step s t a _ _ h ih =>
    obtain ⟨x, hx⟩ := ih
    refine ⟨update s a x, .step hx trivial (a := a) ?_⟩
    show (M.step s a).map _ = _
    rw [h, Option.map_some]

end System

end InferenceGateway.Common
