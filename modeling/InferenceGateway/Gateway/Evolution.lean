import InferenceGateway.Common.Lists
import InferenceGateway.Gateway.Steps

/-! # What never goes back

Handlers and workers stay listed, and some of what is true of one of them stays true in every later
state: the request of a handler, the id it stamped, the job of a worker, the result it sent. An
invariant that says "there is a worker that ..." is preserved by every step for this reason alone.
-/

namespace InferenceGateway.Gateway

open Common

/-! ## Handlers -/

/-- The handler will not call `try_send` any more. -/
def Handler.pastSend (h : Handler) : Bool :=
  match h.phase with
  | .validating => false
  | .enqueueing _ => false
  | _ => true

/-- The handler has left its await, or answers without one. -/
def Handler.leftAwait (h : Handler) : Bool :=
  match h.phase with
  | .finishing _ _ => true
  | .done _ => true
  | .dropped => true
  | _ => false

/-- What stays true of a handler. -/
structure Handler.Evolves (h h' : Handler) : Prop where
  call : h'.call = h.call
  pastSend : h.pastSend = true → h'.pastSend = true ∧ h'.stamped = h.stamped
  leftAwait : h.leftAwait = true → h'.leftAwait = true ∧ h'.awaited = h.awaited

theorem Handler.Evolves.refl (h : Handler) : h.Evolves h :=
  ⟨rfl, fun h => ⟨h, rfl⟩, fun h => ⟨h, rfl⟩⟩

/-- A change of the oneshot channel leaves the rest of the handler alone. -/
theorem Handler.Evolves.onChannel (f : Oneshot → Oneshot) (h : Handler) :
    h.Evolves { h with channel := f h.channel } :=
  ⟨rfl, fun h => ⟨h, rfl⟩, fun h => ⟨h, rfl⟩⟩

/-! ## Workers -/

/-- The worker was polled, so that it called the core unless it panicked first. -/
def Worker.started (w : Worker) : Bool :=
  match w.phase with
  | .spawned => false
  | _ => true

/-- The worker sent `result`. -/
def Worker.HasSent (w : Worker) (result : JobResult) : Prop :=
  w.phase = .delivered result ∨ w.phase = .finished (some result)

/-- The worker panicked. -/
def Worker.Crashed (w : Worker) : Prop := w.phase = .panicked ∨ w.phase = .finished none

/-- What stays true of a worker. -/
structure Worker.Evolves (w w' : Worker) : Prop where
  job : w'.job = w.job
  started : w.started = true → w'.started = true
  sent : ∀ r, w.HasSent r → w'.HasSent r
  crashed : w.Crashed → w'.Crashed

theorem Worker.Evolves.refl (w : Worker) : w.Evolves w := ⟨rfl, id, fun _ => id, id⟩

/-! ## Every step -/

variable {cfg : Config} {s t : State} {a : Action}

/-- Handlers only move forward. -/
theorem Step.handlers_evolve (h : Step cfg s a t) :
    Extends Handler.Evolves s.handlers t.handlers := by
  have hset {i : ℕ} {h h' : Handler} (hi : s.handlers[i]? = some h) (he : h.Evolves h') :
      Extends Handler.Evolves s.handlers (s.handlers.set i h') := .set .refl hi he
  cases h with
  | arrive => exact .append .refl _ _
  | recv | resize | publish | published | acquire | spawn | start | coreReturns | release
  | releasePanicked | syncRegistry => exact .refl .refl _
  | @deliver j w result => exact .modify .refl _ (Handler.Evolves.onChannel fun ch => ch.send result)
  | panic => exact .modify .refl _ (Handler.Evolves.onChannel Oneshot.dropSender)
  | validateKnown _ hi hp | validateUnknown _ hi hp | accept hi hp | reject hi hp
  | recordBegin hi hp | wait hi hp | recordFinish hi hp | answer hi hp | poll _ hi hp
  | elapse hi hp | drop hi hp =>
    refine hset hi ⟨rfl, ?_, ?_⟩ <;>
      simp [Handler.pastSend, Handler.leftAwait, Handler.resume, hp]

/-- Workers only move forward. -/
theorem Step.workers_evolve (h : Step cfg s a t) :
    Extends Worker.Evolves s.workers t.workers := by
  have hset {j : ℕ} {w w' : Worker} (hj : s.workers[j]? = some w) (he : w.Evolves w') :
      Extends Worker.Evolves s.workers (s.workers.set j w') := .set .refl hj he
  cases h with
  | arrive | validateKnown | validateUnknown | accept | reject | recordBegin | wait | recordFinish
  | answer | poll | elapse | drop | recv | resize | publish | published | acquire
  | syncRegistry => exact .refl .refl _
  | spawn => exact .append .refl _ _
  | start hj hp | coreReturns _ hj hp | deliver hj hp | release hj hp | releasePanicked hj hp =>
    refine hset hj ⟨rfl, ?_, ?_, ?_⟩ <;>
      simp [Worker.started, Worker.HasSent, Worker.Crashed, hp]
  | panic hj hp =>
    refine hset hj ⟨rfl, ?_, ?_, ?_⟩ <;>
      rcases hp with hp | hp | ⟨result, hp⟩ <;>
        simp [Worker.started, Worker.HasSent, Worker.Crashed, hp]

/-- A worker has the reply of the core that its call returned. -/
theorem Step.coreReply (h : Step cfg s a t) {j : ℕ} {w' : Worker} {reply : CoreReply}
    (hj : t.workers[j]? = some w') (hreply : w'.coreReply = some reply) :
    ∃ w, s.workers[j]? = some w ∧ w.job = w'.job ∧
      (w.coreReply = some reply ∨ a = .worker j (.coreReturns reply)) := by
  have hset {i : ℕ} {w v : Worker} (hi : s.workers[i]? = some w)
      (hj : (s.workers.set i v)[j]? = some w') (hjob : w.job = v.job)
      (hnew : v.coreReply = some reply → w.coreReply = some reply ∨ a = .worker i (.coreReturns reply)) :
      ∃ w, s.workers[j]? = some w ∧ w.job = w'.job ∧
        (w.coreReply = some reply ∨ a = .worker j (.coreReturns reply)) := by
    rcases getElem?_set_eq_some hj with ⟨rfl, rfl⟩ | ⟨-, hj⟩
    · exact ⟨w, hi, hjob, hnew hreply⟩
    · exact ⟨w', hj, rfl, .inl hreply⟩
  cases h with
  | arrive | validateKnown | validateUnknown | accept | reject | recordBegin | wait | recordFinish
  | answer | poll | elapse | drop | recv | resize | publish | published | acquire
  | syncRegistry => exact ⟨w', hj, rfl, .inl hreply⟩
  | spawn =>
    rcases getElem?_append_singleton hj with ⟨-, rfl⟩ | hj
    · cases hreply
    · exact ⟨w', hj, rfl, .inl hreply⟩
  | start hi | deliver hi | panic hi | release hi | releasePanicked hi => exact hset hi hj rfl .inl
  | coreReturns answer hi =>
    refine hset hi hj rfl fun hnew => .inr ?_
    cases hnew
    rfl

end InferenceGateway.Gateway
