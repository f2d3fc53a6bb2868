import InferenceGateway.Common.Lists
import InferenceGateway.Common.Transition

/-!
# Threads over a shared state

A number of threads with a local state each work on one shared state, one atomic step at a time. The
action of the transition system is the index of the thread that moves next, so a run is a schedule and a
statement about every run is one about every interleaving.

`programs` is the case of threads that perform given lists of operations. When the operations commute,
what is shared after any number of steps is what the operations performed so far give one after the other,
in any order (`shared_of_reachable`): a statement about all schedules becomes one about a list.
-/

namespace InferenceGateway.Common

variable {σ τ ι : Type*}

/-- The shared state and the local state of each thread. -/
structure Threads (σ τ : Type*) where
  shared : σ
  locals : List τ

namespace Threads

/-- The next atomic step of thread `i`. -/
def stepOf (step : σ → τ → Option (σ × τ)) (s : Threads σ τ) (i : ℕ) : Option (Threads σ τ) :=
  s.locals[i]?.bind fun l => (step s.shared l).map fun p => ⟨p.1, s.locals.set i p.2⟩

theorem stepOf_eq_some_iff {step : σ → τ → Option (σ × τ)} {s t : Threads σ τ} {i : ℕ} :
    stepOf step s i = some t ↔ ∃ l c l', s.locals[i]? = some l ∧ step s.shared l = some (c, l') ∧
      t = ⟨c, s.locals.set i l'⟩ := by
  unfold stepOf
  constructor
  · intro h
    obtain ⟨l, hl, h⟩ := Option.bind_eq_some_iff.mp h
    obtain ⟨⟨c, l'⟩, hp, rfl⟩ := Option.map_eq_some_iff.mp h
    exact ⟨l, c, l', hl, hp, rfl⟩
  · rintro ⟨l, c, l', hl, hp, rfl⟩
    rw [hl, Option.bind_some, hp, Option.map_some]

/-- A thread that can move makes the system move. -/
theorem stepOf_isSome {step : σ → τ → Option (σ × τ)} {s : Threads σ τ} {i : ℕ} {l : τ}
    (hl : s.locals[i]? = some l) (hstep : (step s.shared l).isSome) : (stepOf step s i).isSome := by
  unfold stepOf
  rw [hl, Option.bind_some, Option.isSome_map]
  exact hstep

end Threads

/-- A system of threads. -/
def threadSystem (init : Threads σ τ → Prop) (step : σ → τ → Option (σ × τ)) :
    System (Threads σ τ) ℕ where
  init := init
  step := Threads.stepOf step

/-! ## Programs -/

/-- A thread that performs a list of operations: what it has performed and what is left. -/
structure Progress (ι : Type*) where
  done : List ι
  rest : List ι
deriving DecidableEq

/-- The whole list of operations. -/
def Progress.program (p : Progress ι) : List ι := p.done ++ p.rest

/-- Perform the next operation. -/
def Progress.step (apply : σ → ι → σ) (c : σ) : Progress ι → Option (σ × Progress ι)
  | ⟨_, []⟩ => none
  | ⟨done, op :: rest⟩ => some (apply c op, ⟨done ++ [op], rest⟩)

theorem Progress.step_eq_some_iff {apply : σ → ι → σ} {c c' : σ} {p p' : Progress ι} :
    p.step apply c = some (c', p') ↔
      ∃ op rest, p.rest = op :: rest ∧ c' = apply c op ∧ p' = ⟨p.done ++ [op], rest⟩ := by
  rcases p with ⟨done, rest⟩
  cases rest with
  | nil =>
    constructor
    · intro h
      cases h
    · rintro ⟨op, rest, h, -⟩
      cases h
  | cons op rest =>
    constructor
    · intro h
      cases h
      exact ⟨op, rest, rfl, rfl, rfl⟩
    · rintro ⟨op', rest', h, rfl, rfl⟩
      cases h
      rfl

/-- Threads that perform the given programs. -/
def programs (apply : σ → ι → σ) (c₀ : σ) (progs : List (List ι)) :
    System (Threads σ (Progress ι)) ℕ :=
  threadSystem (fun s => s = ⟨c₀, progs.map fun ops => ⟨[], ops⟩⟩) fun c p => p.step apply c

namespace Threads

/-- The operations performed so far, thread by thread. -/
def performed (s : Threads σ (Progress ι)) : List ι := s.locals.flatMap Progress.done

/-- Every thread has performed all of its operations. -/
def Finished (s : Threads σ (Progress ι)) : Prop := ∀ p ∈ s.locals, p.rest = []

instance (s : Threads σ (Progress ι)) : Decidable s.Finished :=
  decidable_of_iff (∀ p ∈ s.locals, p.rest.isEmpty = true) (by simp [Finished])

end Threads

section Programs

variable {apply : σ → ι → σ} {c₀ : σ} {progs : List (List ι)} {s t : Threads σ (Progress ι)}

/-- What a step does: some thread performs its next operation. -/
theorem programs_step {i : ℕ} (h : (programs apply c₀ progs).step s i = some t) :
    ∃ p op rest, s.locals[i]? = some p ∧ p.rest = op :: rest ∧
      t = ⟨apply s.shared op, s.locals.set i ⟨p.done ++ [op], rest⟩⟩ := by
  obtain ⟨p, c, p', hp, hstep, rfl⟩ := Threads.stepOf_eq_some_iff.mp h
  obtain ⟨op, rest, hrest, rfl, rfl⟩ := Progress.step_eq_some_iff.mp hstep
  exact ⟨p, op, rest, hp, hrest, rfl⟩

/-- The programs stay what they are. -/
theorem program_of_reachable (h : (programs apply c₀ progs).Reachable s) :
    s.locals.map Progress.program = progs := by
  refine h.invariant (I := fun s => s.locals.map Progress.program = progs) ?_ ?_
  · rintro _ rfl
    rw [List.map_map]
    exact List.map_id progs
  · rintro s i t - hs - hstep
    obtain ⟨p, op, rest, hp, hrest, rfl⟩ := programs_step hstep
    rw [map_set_of_eq hp ?_]
    · exact hs
    · rw [Progress.program, Progress.program, hrest, List.append_assoc]
      rfl

/-- An operation that was performed is one of some program. -/
theorem mem_flatten_of_performed (h : (programs apply c₀ progs).Reachable s) {op : ι}
    (hop : op ∈ s.performed) : op ∈ progs.flatten := by
  obtain ⟨p, hp, hop⟩ := List.mem_flatMap.mp hop
  rw [← program_of_reachable h]
  exact List.mem_flatten.mpr
    ⟨p.program, List.mem_map_of_mem hp, List.mem_append_left p.rest hop⟩

/-- When the operations commute, what is shared is what the performed ones give one after the other. -/
theorem shared_of_reachable
    (hcomm : ∀ x ∈ progs.flatten, ∀ y ∈ progs.flatten, ∀ c, apply (apply c x) y = apply (apply c y) x)
    (h : (programs apply c₀ progs).Reachable s) : s.shared = s.performed.foldl apply c₀ := by
  refine h.invariant (I := fun s => s.shared = s.performed.foldl apply c₀) ?_ ?_
  · rintro _ rfl
    have hnone : Threads.performed (⟨c₀, progs.map fun ops => ⟨[], ops⟩⟩ : Threads σ (Progress ι)) = [] := by
      unfold Threads.performed
      rw [List.flatMap_map, List.flatMap_eq_nil_iff]
      intro _ _
      rfl
    rw [hnone]
    rfl
  · rintro s i t hs hshared - hstep
    have ht : ∀ x ∈ t.performed, x ∈ progs.flatten :=
      fun _ => mem_flatten_of_performed (hs.step trivial hstep)
    obtain ⟨p, op, rest, hp, hrest, rfl⟩ := programs_step hstep
    -- The operation is performed last; in the list it stands behind the others of its thread.
    have hperm := flatMap_set_perm (f := Progress.done) (b := ⟨p.done ++ [op], rest⟩) hp rfl
    rw [Threads.performed, hperm.foldl_eq' (fun x hx y hy c => hcomm x (ht x hx) y (ht y hy) c),
      List.foldl_append, ← Threads.performed, ← hshared]
    rfl

/-- A finished run has performed the programs. -/
theorem performed_of_finished (h : (programs apply c₀ progs).Reachable s) (hs : s.Finished) :
    s.performed = progs.flatten := by
  rw [← program_of_reachable h, Threads.performed, List.flatMap]
  congr 1
  refine List.map_congr_left fun p hp => ?_
  rw [Progress.program, hs p hp, List.append_nil]

/-- From every state the threads can be run to their ends. -/
theorem exists_finished (h : (programs apply c₀ progs).Reachable s) :
    ∃ t, (programs apply c₀ progs).Reachable t ∧ t.Finished := by
  -- The induction is on the number of operations that are left.
  induction hn : (s.locals.map fun p => p.rest.length).sum using Nat.strong_induction_on
    generalizing s with
  | _ n ih =>
    by_cases hs : s.Finished
    · exact ⟨s, h, hs⟩
    · unfold Threads.Finished at hs
      push Not at hs
      obtain ⟨p, hp, hrest⟩ := hs
      obtain ⟨i, hi⟩ := List.mem_iff_getElem?.mp hp
      obtain ⟨op, rest, hrest⟩ := List.exists_cons_of_ne_nil hrest
      have hstep : (programs apply c₀ progs).step s i =
          some ⟨apply s.shared op, s.locals.set i ⟨p.done ++ [op], rest⟩⟩ :=
        Threads.stepOf_eq_some_iff.mpr
          ⟨p, _, _, hi, Progress.step_eq_some_iff.mpr ⟨op, rest, hrest, rfl, rfl⟩, rfl⟩
      refine ih _ ?_ (h.step trivial hstep) rfl
      have hless := natSum_map_set hi ⟨p.done ++ [op], rest⟩ fun p => p.rest.length
      simp only [hrest, List.length_cons] at hless
      show ((s.locals.set i ⟨p.done ++ [op], rest⟩).map fun p => p.rest.length).sum < n
      omega

end Programs

end InferenceGateway.Common
