import InferenceGateway.Common.Transition

/-!
# Refinement of transition systems

A simulation relates the states of a concrete system to those of an abstract one. Each concrete step amounts
to some abstract actions, often to one or to none, and the abstract system can follow with them. So every
run of the concrete system has a trace that is a run of the abstract one (`Simulation.run_from`), and what
holds of the abstract runs holds of the traces.

`run_erase` is about one system seen through a function: steps that the function does not show can be left
out of a run.
-/

namespace InferenceGateway.Common

variable {σ τ α β : Type*}

/-- The abstract system can follow every step of the concrete one. The states that are related may be
assumed to be reachable. -/
structure Simulation (C : System σ α) (A : System τ β) where
  rel : σ → τ → Prop
  /-- The abstract actions that a concrete step amounts to. -/
  act : σ → α → List β
  init : ∀ s, C.init s → ∃ b, A.init b ∧ rel s b
  step : ∀ s b a t, C.Reachable s → rel s b → C.step s a = some t →
    ∃ b', A.run b (act s a) = some b' ∧ rel t b'

namespace Simulation

variable {C : System σ α} {A : System τ β} (R : Simulation C A)

/-- The abstract actions of a run. -/
def trace (s : σ) : List α → List β
  | [] => []
  | a :: as => R.act s a ++ ((C.step s a).map fun t => trace t as).getD []

/-- The abstract system can follow a run from where it is. -/
theorem run_from {s t : σ} {b : τ} (hs : C.Reachable s) (hrel : R.rel s b) {as : List α}
    (hrun : C.run s as = some t) : ∃ b', A.run b (R.trace s as) = some b' ∧ R.rel t b' := by
  induction as generalizing s b with
  | nil =>
    cases hrun
    exact ⟨b, rfl, hrel⟩
  | cons a as ih =>
    rw [System.run_cons] at hrun
    obtain ⟨u, hu, hrun⟩ := Option.bind_eq_some_iff.mp hrun
    obtain ⟨c, hc, hrelu⟩ := R.step s b a u hs hrel hu
    obtain ⟨b', hb', hrelt⟩ := ih (hs.step trivial hu) hrelu hrun
    refine ⟨b', ?_, hrelt⟩
    rw [trace, hu, Option.map_some, Option.getD_some, System.run_append, hc]
    exact hb'

/-- A state that the concrete system reaches is related to one that the abstract system reaches. -/
theorem exists_reachable {s : σ} (hs : C.Reachable s) : ∃ b, A.Reachable b ∧ R.rel s b := by
  induction hs with
  | init h =>
    obtain ⟨b, hb, hrel⟩ := R.init _ h
    exact ⟨b, .init hb, hrel⟩
  | step hs _ h ih =>
    obtain ⟨b, hb, hrel⟩ := ih
    obtain ⟨b', hrun, hrel'⟩ := R.step _ b _ _ hs hrel h
    exact ⟨b', hb.run hrun, hrel'⟩

/-- A history that grows with every step by what the trace shows of it is what the trace shows in all. -/
theorem trace_filterMap {γ : Type*} (history : σ → List γ) (shows : β → Option γ)
    (hstep : ∀ s a t, C.step s a = some t → history t = history s ++ (R.act s a).filterMap shows)
    {s t : σ} {as : List α} (hrun : C.run s as = some t) :
    history t = history s ++ (R.trace s as).filterMap shows := by
  induction as generalizing s with
  | nil =>
    cases hrun
    exact (List.append_nil _).symm
  | cons a as ih =>
    rw [System.run_cons] at hrun
    obtain ⟨u, hu, hrun⟩ := Option.bind_eq_some_iff.mp hrun
    rw [ih hrun, hstep s a u hu, trace, hu, Option.map_some, Option.getD_some, List.filterMap_append,
      List.append_assoc]

end Simulation

namespace System

variable {M : System σ α}

/-- Steps that `f` does not show can be left out of a run, if `f` shows enough for the other steps. -/
theorem run_erase (f : σ → β) (keep : α → Bool)
    (herase : ∀ s a t, keep a = false → M.step s a = some t → f t = f s)
    (hkeep : ∀ s s' a, keep a = true → f s = f s' → (M.step s a).map f = (M.step s' a).map f)
    {s s' t : σ} (hs : f s = f s') {as : List α} (hrun : M.run s as = some t) :
    ∃ t', M.run s' (as.filter keep) = some t' ∧ f t' = f t := by
  induction as generalizing s s' with
  | nil =>
    cases hrun
    exact ⟨s', rfl, hs.symm⟩
  | cons a as ih =>
    rw [run_cons] at hrun
    obtain ⟨u, hu, hrun⟩ := Option.bind_eq_some_iff.mp hrun
    cases ha : keep a with
    | false =>
      rw [List.filter_cons_of_neg (by rw [ha]; exact Bool.false_ne_true)]
      exact ih ((herase s a u ha hu).trans hs) hrun
    | true =>
      have hstep := hkeep s s' a ha hs
      rw [hu, Option.map_some] at hstep
      obtain ⟨u', hu', hf⟩ := Option.map_eq_some_iff.mp hstep.symm
      rw [List.filter_cons_of_pos ha, run_cons, hu']
      exact ih hf.symm hrun

end System

end InferenceGateway.Common
