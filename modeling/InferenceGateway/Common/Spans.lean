import Mathlib

/-!
# Spans and the threads that enter them

A tracing facility keeps, for each thread, the stack of the spans that are entered on it. A new span gets
the top of the stack of its thread as its parent, and belongs to the parent's trace; without a parent it
begins a trace of its own. Leaving a span takes it off the stack of the thread on which it is left, and does
nothing if it is not there.

Threads are numbers. `entries` and `exits` record where spans were entered and left, and `WellNested` says
that this alone determines the stacks, for programs that enter a span at most once.
-/

namespace InferenceGateway.Common

variable {ι : Type*} [DecidableEq ι]

/-- A span with the parent and the trace that it got when it was made. A trace is named by its first
span. -/
structure Span (ι : Type*) where
  id : ι
  parent : Option ι
  trace : ι

/-- The spans that were made, the stacks of those that are entered, and where spans were entered and left,
each in its order. -/
structure Tracing (ι : Type*) where
  spans : List (Span ι) := []
  stackOf : ℕ → List ι := fun _ => []
  entries : List (ι × ℕ) := []
  exits : List (ι × ℕ) := []

namespace Tracing

variable (x : Tracing ι) (thread : ℕ) (id : ι)

/-- The trace of a span that was made. -/
def traceOf : Option ι := (x.spans.find? (·.id = id)).map Span.trace

/-- The span that is made on a thread. -/
def newSpan : Span ι where
  id := id
  parent := (x.stackOf thread).head?
  trace := ((x.stackOf thread).head?.bind x.traceOf).getD id

/-- A span is made. -/
def create : Tracing ι := { x with spans := x.spans ++ [x.newSpan thread id] }

/-- A span is entered. -/
def enter : Tracing ι :=
  { x with
    stackOf := Function.update x.stackOf thread (id :: x.stackOf thread)
    entries := x.entries ++ [(id, thread)] }

/-- A span is left. -/
def exit : Tracing ι :=
  { x with
    stackOf := Function.update x.stackOf thread ((x.stackOf thread).erase id)
    exits := x.exits ++ [(id, thread)] }

/-- The span was entered, on some thread. -/
def Entered : Prop := id ∈ x.entries.map Prod.fst

instance : Decidable (x.Entered id) := inferInstanceAs (Decidable (_ ∈ _))

/-- The spans that were entered on a thread and not left there, in the order in which they were entered. -/
def live : List ι := (x.entries.filter fun e => e.2 = thread ∧ e ∉ x.exits).map Prod.fst

/-- The last one of them. -/
def innermost : Option ι := (x.live thread).getLast?

/-- No span was entered twice or left without having been entered, the stacks are what was entered and not
left, and the traces of parents are those of their children. -/
structure WellNested : Prop where
  nodup : (x.entries.map Prod.fst).Nodup
  exits : ∀ e ∈ x.exits, x.Entered e.1
  made : ∀ id, x.Entered id → ∃ trace, x.traceOf id = some trace
  stackOf : ∀ thread, x.stackOf thread = (x.live thread).reverse
  parents : ∀ span ∈ x.spans, ∀ p, span.parent = some p → x.traceOf p = some span.trace

end Tracing

namespace Tracing

variable {x : Tracing ι} {thread : ℕ} {id : ι}

theorem entered_of_mem_live (h : id ∈ x.live thread) : x.Entered id := by
  obtain ⟨e, he, rfl⟩ := List.mem_map.mp h
  exact List.mem_map_of_mem (List.mem_filter.mp he).1

theorem wellNested_empty : ({} : Tracing ι).WellNested where
  nodup := List.nodup_nil
  exits := nofun
  made := nofun
  stackOf _ := rfl
  parents := nofun

/-- The parent of a new span is the span that was entered last on the thread and not left there. -/
theorem WellNested.newSpan_parent (h : x.WellNested) (thread : ℕ) (id : ι) :
    (x.newSpan thread id).parent = x.innermost thread := by
  show (x.stackOf thread).head? = _
  rw [h.stackOf, List.head?_reverse, innermost]

/-- A span that was made keeps its trace. -/
theorem traceOf_create {p trace : ι} (h : x.traceOf p = some trace) (thread : ℕ) (id : ι) :
    (x.create thread id).traceOf p = some trace := by
  obtain ⟨span, hspan, rfl⟩ := Option.map_eq_some_iff.mp h
  rw [traceOf, create, List.find?_append, hspan]
  rfl

theorem exists_traceOf_create_self (x : Tracing ι) (thread : ℕ) (id : ι) :
    ∃ trace, (x.create thread id).traceOf id = some trace := by
  rw [traceOf, create, List.find?_append]
  cases x.spans.find? (·.id = id) with
  | some span => exact ⟨span.trace, rfl⟩
  | none => exact ⟨(x.newSpan thread id).trace, by simp [newSpan]⟩

theorem WellNested.create (h : x.WellNested) (thread : ℕ) (id : ι) : (x.create thread id).WellNested where
  nodup := h.nodup
  exits := h.exits
  made p hp := by
    obtain ⟨trace, htrace⟩ := h.made p hp
    exact ⟨trace, traceOf_create htrace thread id⟩
  stackOf := h.stackOf
  parents span hspan p hp := by
    rcases List.mem_append.mp hspan with hspan | hspan
    · exact traceOf_create (h.parents span hspan p hp) thread id
    · rw [List.mem_singleton] at hspan
      subst hspan
      have hmem : p ∈ x.live thread := by
        rw [h.newSpan_parent] at hp
        exact List.mem_of_getLast? hp
      obtain ⟨trace, htrace⟩ := h.made p (entered_of_mem_live hmem)
      have hhead : (x.stackOf thread).head? = some p := hp
      rw [newSpan, hhead, Option.bind_some, htrace, Option.getD_some]
      exact traceOf_create htrace thread id

omit [DecidableEq ι] in
theorem entered_enter_iff {p : ι} : (x.enter thread id).Entered p ↔ x.Entered p ∨ p = id := by
  show p ∈ (x.entries ++ [(id, thread)]).map Prod.fst ↔ _
  rw [List.map_append, List.mem_append, List.map_singleton, List.mem_singleton, Entered]

theorem WellNested.nodup_live (h : x.WellNested) (thread : ℕ) : (x.live thread).Nodup :=
  h.nodup.sublist (List.filter_sublist.map Prod.fst)

/-- What is entered is live from then on. -/
theorem live_enter (hnew : (id, thread) ∉ x.exits) (t : ℕ) :
    (x.enter thread id).live t = x.live t ++ if thread = t then [id] else [] := by
  show ((x.entries ++ [(id, thread)]).filter _).map _ = _
  rw [List.filter_append, List.map_append]
  refine congrArg₂ _ rfl ?_
  by_cases ht : thread = t
  · rw [if_pos ht, List.filter_cons_of_pos]
    · rfl
    · exact decide_eq_true ⟨ht, hnew⟩
  · rw [if_neg ht, List.filter_cons_of_neg]
    · rfl
    · exact fun h => ht (of_decide_eq_true h).1

/-- What is left is not live any more on that thread. -/
theorem live_exit (t : ℕ) :
    (x.exit thread id).live t = if thread = t then (x.live t).filter (· != id) else x.live t := by
  have hkeep (e : ι × ℕ) : e ∉ (x.exit thread id).exits ↔ e ∉ x.exits ∧ e ≠ (id, thread) := by
    show e ∉ x.exits ++ [(id, thread)] ↔ _
    rw [List.mem_append, List.mem_singleton, not_or]
  by_cases ht : thread = t
  · subst ht
    rw [if_pos rfl, live, live, List.filter_map, List.filter_filter]
    refine congrArg _ (List.filter_congr fun e _ => ?_)
    rw [Bool.eq_iff_iff]
    simp only [hkeep, Function.comp_apply, Bool.and_eq_true, bne_iff_ne, decide_eq_true_eq]
    constructor
    · rintro ⟨hthread, hexits, hne⟩
      exact ⟨fun hid => hne (Prod.ext hid hthread), hthread, hexits⟩
    · rintro ⟨hne, hthread, hexits⟩
      exact ⟨hthread, hexits, fun heq => hne (by rw [heq])⟩
  · rw [if_neg ht, live, live]
    refine congrArg _ (List.filter_congr fun e _ => decide_eq_decide.mpr ?_)
    rw [hkeep]
    exact ⟨fun h => ⟨h.1, h.2.1⟩, fun h => ⟨h.1, h.2, fun heq => ht (by rw [← h.1, heq])⟩⟩

/-- Entering a span that was made and not entered before. -/
theorem WellNested.enter (h : x.WellNested) (hid : ¬x.Entered id) {trace : ι}
    (htrace : x.traceOf id = some trace) (thread : ℕ) : (x.enter thread id).WellNested where
  nodup := by
    show ((x.entries ++ [(id, thread)]).map Prod.fst).Nodup
    rw [List.map_append, List.map_singleton, ← List.concat_eq_append]
    exact h.nodup.concat hid
  exits e he := by
    show e.1 ∈ (x.entries ++ [(id, thread)]).map Prod.fst
    rw [List.map_append]
    exact List.mem_append_left _ (h.exits e he)
  made p hp := by
    rcases entered_enter_iff.mp hp with hp | rfl
    · exact h.made p hp
    · exact ⟨trace, htrace⟩
  stackOf t := by
    have hnew : (id, thread) ∉ x.exits := fun hmem => hid (h.exits _ hmem)
    show Function.update x.stackOf thread (id :: x.stackOf thread) t = _
    rw [live_enter hnew]
    by_cases ht : t = thread
    · subst ht
      rw [Function.update_self, if_pos rfl, List.reverse_append, h.stackOf, List.reverse_singleton,
        List.singleton_append]
    · rw [Function.update_of_ne ht, if_neg fun heq => ht heq.symm, List.append_nil, h.stackOf]
  parents := h.parents

/-- Leaving a span that was entered. -/
theorem WellNested.exit (h : x.WellNested) (hid : x.Entered id) (thread : ℕ) :
    (x.exit thread id).WellNested where
  nodup := h.nodup
  exits e he := by
    rcases List.mem_append.mp he with he | he
    · exact h.exits e he
    · rw [List.mem_singleton.mp he]
      exact hid
  made := h.made
  stackOf t := by
    show Function.update x.stackOf thread ((x.stackOf thread).erase id) t = _
    rw [live_exit]
    by_cases ht : t = thread
    · subst ht
      have hnodup : (x.live t).reverse.Nodup := List.nodup_reverse.mpr (h.nodup_live t)
      rw [Function.update_self, if_pos rfl, h.stackOf, hnodup.erase_eq_filter, List.filter_reverse]
    · rw [Function.update_of_ne ht, if_neg fun heq => ht heq.symm, h.stackOf]
  parents := h.parents

end Tracing

end InferenceGateway.Common
