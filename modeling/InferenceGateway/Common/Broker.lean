import InferenceGateway.Common.Refinement

/-!
# A bounded broker

Clients come with requests. The broker turns some of them away and lets the others stand in a line of
bounded length; only when the line is long enough may it refuse for want of room. Whoever is first in the
line is served next, any number of clients at a time, and is done with some outcome that the request allows.
A client is told once how it went: that it was refused, the outcome, or that it took too long.

The broker is nothing but its rules. What follows from them for a sequence of events is stated about the
events alone: whatever refines a broker obeys it.
-/

namespace InferenceGateway.Common

/-- Where a client stands. -/
inductive Stage (ρ ε : Type*)
  | unknown
  | refused
  | waiting (r : ρ)
  | serving (r : ρ)
  | settled (e : ε)

/-- What a client is told. -/
inductive Verdict (ε : Type*)
  | refused
  | outcome (e : ε)
  | expired

/-- What happens at a broker. -/
inductive BrokerEvent (κ ρ ε : Type*)
  /-- The client joins the line. -/
  | accept (i : κ) (r : ρ)
  /-- The client is sent away because the line is too long. -/
  | refuse (i : κ)
  /-- The client is sent away because of what it asks for. -/
  | turnAway (i : κ)
  | start (i : κ) (r : ρ)
  | settle (i : κ) (e : ε)
  | tell (i : κ) (v : Verdict ε)

/-- The state of a broker. -/
structure Broker (κ ρ ε : Type*) where
  stage : κ → Stage ρ ε
  line : List κ
  told : κ → Option (Verdict ε)

/-- The rules of a broker: for how many clients there is room, from what length of the line on it may refuse
one, and which outcomes a request allows. -/
structure BrokerRules (ρ ε : Type*) where
  room : ℕ
  full : ℕ
  allows : ρ → ε → Prop

namespace Broker

variable {κ ρ ε : Type*} [DecidableEq κ]

/-- What may be told to a client that stands there. A client that is in the line or further on may always be
told that it took too long. -/
inductive MayTell : Stage ρ ε → Verdict ε → Prop
  | refused : MayTell .refused .refused
  | outcome (e : ε) : MayTell (.settled e) (.outcome e)
  | expiredWaiting (r : ρ) : MayTell (.waiting r) .expired
  | expiredServing (r : ρ) : MayTell (.serving r) .expired
  | expiredSettled (e : ε) : MayTell (.settled e) .expired

/-- The client moves to another stage. -/
def move (b : Broker κ ρ ε) (i : κ) (stage : Stage ρ ε) : Broker κ ρ ε :=
  { b with stage := Function.update b.stage i stage }

open Classical in
/-- The rules, as a step function. -/
noncomputable def next (rules : BrokerRules ρ ε) (b : Broker κ ρ ε) :
    BrokerEvent κ ρ ε → Option (Broker κ ρ ε)
  | .accept i r =>
    if b.stage i = .unknown ∧ b.line.length < rules.room then
      some { b.move i (.waiting r) with line := b.line ++ [i] }
    else none
  | .refuse i =>
    if b.stage i = .unknown ∧ rules.full ≤ b.line.length then some (b.move i .refused) else none
  | .turnAway i => if b.stage i = .unknown then some (b.move i .refused) else none
  | .start i r =>
    if b.stage i = .waiting r ∧ b.line.head? = some i then
      some { b.move i (.serving r) with line := b.line.tail }
    else none
  | .settle i e =>
    if ∃ r, b.stage i = .serving r ∧ rules.allows r e then some (b.move i (.settled e)) else none
  | .tell i v =>
    if MayTell (b.stage i) v ∧ b.told i = none then
      some { b with told := Function.update b.told i (some v) }
    else none

/-- Nobody has come yet. -/
def empty : Broker κ ρ ε where
  stage _ := .unknown
  line := []
  told _ := none

/-- A broker with its rules. -/
noncomputable def system (κ : Type*) [DecidableEq κ] (rules : BrokerRules ρ ε) :
    System (Broker κ ρ ε) (BrokerEvent κ ρ ε) where
  init b := b = empty
  step b e := b.next rules e

/-! ## One event -/

/-- What an event does, rule by rule. -/
inductive Step (rules : BrokerRules ρ ε) (b : Broker κ ρ ε) : BrokerEvent κ ρ ε → Broker κ ρ ε → Prop
  | accept {i : κ} (r : ρ) (hs : b.stage i = .unknown) (hroom : b.line.length < rules.room) :
      Step rules b (.accept i r) { b.move i (.waiting r) with line := b.line ++ [i] }
  | refuse {i : κ} (hs : b.stage i = .unknown) (hfull : rules.full ≤ b.line.length) :
      Step rules b (.refuse i) (b.move i .refused)
  | turnAway {i : κ} (hs : b.stage i = .unknown) : Step rules b (.turnAway i) (b.move i .refused)
  | start {i : κ} {r : ρ} {line : List κ} (hs : b.stage i = .waiting r) (hline : b.line = i :: line) :
      Step rules b (.start i r) { b.move i (.serving r) with line }
  | settle {i : κ} {e : ε} {r : ρ} (hs : b.stage i = .serving r) (hallows : rules.allows r e) :
      Step rules b (.settle i e) (b.move i (.settled e))
  | tell {i : κ} {v : Verdict ε} (hv : MayTell (b.stage i) v) (ht : b.told i = none) :
      Step rules b (.tell i v) { b with told := Function.update b.told i (some v) }

theorem Step.next_eq {rules : BrokerRules ρ ε} {b b' : Broker κ ρ ε} {e : BrokerEvent κ ρ ε}
    (h : Step rules b e b') : b.next rules e = some b' := by
  cases h with
  | accept r hs hroom => exact if_pos ⟨hs, hroom⟩
  | refuse hs hfull => exact if_pos ⟨hs, hfull⟩
  | turnAway hs => exact if_pos hs
  | @start i r line hs hline =>
    rw [next, if_pos ⟨hs, by rw [hline, List.head?_cons]⟩, hline, List.tail_cons]
  | settle hs hallows => exact if_pos ⟨_, hs, hallows⟩
  | tell hv ht => exact if_pos ⟨hv, ht⟩

theorem next_eq_some_iff {rules : BrokerRules ρ ε} {b b' : Broker κ ρ ε} {e : BrokerEvent κ ρ ε} :
    b.next rules e = some b' ↔ Step rules b e b' := by
  refine ⟨fun h => ?_, Step.next_eq⟩
  cases e with
  | accept i r =>
    obtain ⟨⟨hs, hroom⟩, heq⟩ := Option.ite_none_right_eq_some.mp h
    cases heq
    exact .accept r hs hroom
  | refuse i =>
    obtain ⟨⟨hs, hfull⟩, heq⟩ := Option.ite_none_right_eq_some.mp h
    cases heq
    exact .refuse hs hfull
  | turnAway i =>
    obtain ⟨hs, heq⟩ := Option.ite_none_right_eq_some.mp h
    cases heq
    exact .turnAway hs
  | start i r =>
    obtain ⟨⟨hs, hhead⟩, heq⟩ := Option.ite_none_right_eq_some.mp h
    cases heq
    exact .start hs (List.eq_cons_of_mem_head? hhead)
  | settle i e =>
    obtain ⟨⟨r, hs, hallows⟩, heq⟩ := Option.ite_none_right_eq_some.mp h
    cases heq
    exact .settle hs hallows
  | tell i v =>
    obtain ⟨⟨hv, ht⟩, heq⟩ := Option.ite_none_right_eq_some.mp h
    cases heq
    exact .tell hv ht

@[simp] theorem move_stage_self (b : Broker κ ρ ε) (i : κ) (stage : Stage ρ ε) :
    (b.move i stage).stage i = stage := Function.update_self _ _ _

theorem move_stage_of_ne (b : Broker κ ρ ε) {i k : κ} (h : k ≠ i) (stage : Stage ρ ε) :
    (b.move i stage).stage k = b.stage k := Function.update_of_ne h _ _

/-! ## What follows for the events -/

variable {rules : BrokerRules ρ ε} {b b' : Broker κ ρ ε} {es : List (BrokerEvent κ ρ ε)}

/-- The client that joins the line with an event. -/
def joins : BrokerEvent κ ρ ε → Option κ
  | .accept i _ => some i
  | _ => none

/-- The client whose turn comes with an event. -/
def starts : BrokerEvent κ ρ ε → Option κ
  | .start i _ => some i
  | _ => none

/-- First come, first served: the clients that joined, behind those in the line before, are the clients
whose turn came, followed by those in the line after. -/
theorem line_conserved (hrun : (system κ rules).run b es = some b') :
    b.line ++ es.filterMap joins = es.filterMap starts ++ b'.line := by
  induction es generalizing b with
  | nil =>
    cases hrun
    exact List.append_nil _
  | cons e es ih =>
    rw [System.run_cons] at hrun
    obtain ⟨u, hu, hrun⟩ := Option.bind_eq_some_iff.mp hrun
    have hrest := ih hrun
    cases next_eq_some_iff.mp hu with
    | accept r =>
      rw [List.filterMap_cons_some (rfl : joins _ = some _), List.filterMap_cons_none rfl, ← hrest,
        List.append_assoc]
      rfl
    | start hs hline =>
      rw [List.filterMap_cons_none rfl, List.filterMap_cons_some (rfl : starts _ = some _), hline,
        List.cons_append, List.cons_append, ← hrest]
    | refuse | turnAway | settle | tell =>
      rw [List.filterMap_cons_none rfl, List.filterMap_cons_none rfl]
      exact hrest

/-- What the stage of a client says about what has happened. -/
def Recorded (rules : BrokerRules ρ ε) (es : List (BrokerEvent κ ρ ε)) (i : κ) : Stage ρ ε → Prop
  | .unknown => True
  | .refused => .refuse i ∈ es ∨ .turnAway i ∈ es
  | .waiting r => .accept i r ∈ es
  | .serving r => .accept i r ∈ es ∧ .start i r ∈ es
  | .settled e => ∃ r, .accept i r ∈ es ∧ .start i r ∈ es ∧ rules.allows r e ∧ .settle i e ∈ es

omit [DecidableEq κ] in
theorem Recorded.append {i : κ} {stage : Stage ρ ε} (h : Recorded rules es i stage)
    (e : BrokerEvent κ ρ ε) : Recorded rules (es ++ [e]) i stage := by
  have hmem {x : BrokerEvent κ ρ ε} (hx : x ∈ es) : x ∈ es ++ [e] := List.mem_append_left _ hx
  cases stage with
  | unknown => trivial
  | refused => exact h.imp hmem hmem
  | waiting r => exact hmem h
  | serving r => exact ⟨hmem h.1, hmem h.2⟩
  | settled e =>
    obtain ⟨r, haccept, hstart, hallows, hsettle⟩ := h
    exact ⟨r, hmem haccept, hmem hstart, hallows, hmem hsettle⟩

/-- An event moves one client at most, to a stage that it accounts for. -/
theorem Recorded.move {i k : κ} {stage : Stage ρ ε} {e : BrokerEvent κ ρ ε}
    (hi : Recorded rules es i (b.stage i)) (hk : Recorded rules (es ++ [e]) k stage) :
    Recorded rules (es ++ [e]) i ((b.move k stage).stage i) := by
  by_cases h : i = k
  · rw [h, move_stage_self]
    exact hk
  · rw [move_stage_of_ne _ h]
    exact hi.append e

/-- Every stage was reached through the events that lead to it. -/
theorem recorded_of_run (hrun : (system κ rules).run empty es = some b) (i : κ) :
    Recorded rules es i (b.stage i) := by
  induction es using List.reverseRecOn generalizing b i with
  | nil =>
    cases hrun
    trivial
  | append_singleton es e ih =>
    rw [System.run_append] at hrun
    obtain ⟨u, hu, hstep⟩ := Option.bind_eq_some_iff.mp hrun
    rw [System.run_cons, Option.bind_eq_some_iff] at hstep
    obtain ⟨v, hv, hnil⟩ := hstep
    cases hnil
    have hold {x : BrokerEvent κ ρ ε} (hx : x ∈ es) : x ∈ es ++ [e] := List.mem_append_left _ hx
    have hlast : e ∈ es ++ [e] := List.mem_append_right _ List.mem_cons_self
    cases next_eq_some_iff.mp hv with
    | accept r => exact (ih hu i).move hlast
    | refuse => exact (ih hu i).move (.inl hlast)
    | turnAway => exact (ih hu i).move (.inr hlast)
    | @start k r line hs =>
      have hk := ih hu k
      rw [hs] at hk
      exact (ih hu i).move ⟨hold hk, hlast⟩
    | @settle k e r hs hallows =>
      have hk := ih hu k
      rw [hs] at hk
      exact (ih hu i).move ⟨r, hold hk.1, hold hk.2, hallows, hlast⟩
    | tell => exact (ih hu i).append _

/-- A client has been told what the events say. -/
theorem told_of_run (hrun : (system κ rules).run empty es = some b) (i : κ) (v : Verdict ε) :
    b.told i = some v ↔ .tell i v ∈ es := by
  induction es using List.reverseRecOn generalizing b with
  | nil =>
    cases hrun
    simp [empty]
  | append_singleton es e ih =>
    rw [System.run_append] at hrun
    obtain ⟨u, hu, hstep⟩ := Option.bind_eq_some_iff.mp hrun
    rw [System.run_cons, Option.bind_eq_some_iff] at hstep
    obtain ⟨w, hw, hnil⟩ := hstep
    cases hnil
    rw [List.mem_append, ← ih hu, List.mem_singleton]
    cases next_eq_some_iff.mp hw with
    | accept | refuse | turnAway | start | settle =>
      refine (or_iff_left fun h => ?_).symm
      cases h
    | @tell k w hv ht =>
      by_cases hi : i = k
      · subst hi
        show Function.update u.told i (some w) i = some v ↔ _
        rw [Function.update_self, ht, Option.some.injEq, BrokerEvent.tell.injEq]
        simp [eq_comm]
      · show Function.update u.told k (some w) i = some v ↔ _
        rw [Function.update_of_ne hi, BrokerEvent.tell.injEq]
        exact (or_iff_left fun h => hi h.1).symm

/-- What must have happened before an event can. -/
def Justified (rules : BrokerRules ρ ε) (before : List (BrokerEvent κ ρ ε)) : BrokerEvent κ ρ ε → Prop
  | .accept _ _ => (before.filterMap joins).length < (before.filterMap starts).length + rules.room
  | .refuse _ => (before.filterMap starts).length + rules.full ≤ (before.filterMap joins).length
  | .turnAway _ => True
  | .start i r => .accept i r ∈ before ∧ before.filterMap starts ++ [i] <+: before.filterMap joins
  | .settle i e => ∃ r, .accept i r ∈ before ∧ .start i r ∈ before ∧ rules.allows r e
  | .tell i .refused => .refuse i ∈ before ∨ .turnAway i ∈ before
  | .tell i (.outcome e) => .settle i e ∈ before
  | .tell i .expired => ∃ r, .accept i r ∈ before

/-- Where an event of a client stands in its course: it comes or is sent away, its turn comes, it is done;
being told is apart from that. -/
inductive Milestone
  | arrival
  | turn
  | completion
  | verdict
deriving DecidableEq

/-- The client of an event and what the event is in its course. -/
def milestone : BrokerEvent κ ρ ε → κ × Milestone
  | .accept i _ => (i, .arrival)
  | .refuse i => (i, .arrival)
  | .turnAway i => (i, .arrival)
  | .start i _ => (i, .turn)
  | .settle i _ => (i, .completion)
  | .tell i _ => (i, .verdict)

/-- The laws of a broker, in terms of the events alone: each is justified by what happened before, and no
client comes to the same milestone twice. -/
structure Lawful (rules : BrokerRules ρ ε) (es : List (BrokerEvent κ ρ ε)) : Prop where
  justified : ∀ before e after, es = before ++ e :: after → Justified rules before e
  once : (es.map milestone).Nodup

theorem justified_of_step (hrun : (system κ rules).run empty es = some b) {e : BrokerEvent κ ρ ε}
    (h : Step rules b e b') : Justified rules es e := by
  have hline : es.filterMap joins = es.filterMap starts ++ b.line := line_conserved hrun
  have hlength := congrArg List.length hline
  rw [List.length_append] at hlength
  cases h with
  | accept r hs hroom =>
    show (es.filterMap joins).length < _
    omega
  | refuse hs hfull =>
    show _ ≤ (es.filterMap joins).length
    omega
  | turnAway hs => trivial
  | @start i r line hs hhead =>
    have hi := recorded_of_run hrun i
    rw [hs] at hi
    refine ⟨hi, line, ?_⟩
    rw [hline, hhead, List.append_assoc, List.singleton_append]
  | @settle i e r hs hallows =>
    have hi := recorded_of_run hrun i
    rw [hs] at hi
    exact ⟨r, hi.1, hi.2, hallows⟩
  | @tell i v hv ht =>
    have hi := recorded_of_run hrun i
    generalize b.stage i = stage at hv hi
    cases hv with
    | refused => exact hi
    | outcome e =>
      obtain ⟨r, -, -, -, hsettle⟩ := hi
      exact hsettle
    | expiredWaiting r => exact ⟨r, hi⟩
    | expiredServing r => exact ⟨r, hi.1⟩
    | expiredSettled e =>
      obtain ⟨r, haccept, -⟩ := hi
      exact ⟨r, haccept⟩

/-- Which milestones a client has still before it. -/
def Ahead (b : Broker κ ρ ε) (i : κ) : Milestone → Prop
  | .arrival => b.stage i = .unknown
  | .turn => b.stage i = .unknown ∨ ∃ r, b.stage i = .waiting r
  | .completion => b.stage i = .unknown ∨ (∃ r, b.stage i = .waiting r) ∨ ∃ r, b.stage i = .serving r
  | .verdict => b.told i = none

/-- A client that moves on leaves a milestone behind; nothing changes for the others. -/
private theorem ahead_move {k : κ} {stage : Stage ρ ε} {n : Milestone} (hn : n ≠ .verdict)
    (hk : ∀ m, m ≠ .verdict → (b.move k stage).Ahead k m → b.Ahead k m ∧ m ≠ n) (i : κ) (m : Milestone)
    (h : (b.move k stage).Ahead i m) : b.Ahead i m ∧ (i, m) ≠ (k, n) := by
  by_cases hm : m = .verdict
  · subst hm
    exact ⟨h, fun heq => hn (Prod.mk.inj heq).2.symm⟩
  by_cases hi : i = k
  · subst hi
    exact (hk m hm h).imp_right fun hne heq => hne (Prod.mk.inj heq).2
  · refine ⟨?_, fun heq => hi (Prod.mk.inj heq).1⟩
    cases m with
    | arrival | turn | completion => simpa only [Ahead, move_stage_of_ne b hi stage] using h
    | verdict => exact absurd rfl hm

/-- An event is a milestone that was ahead and no longer is, and puts no other one ahead. -/
theorem Step.ahead {e : BrokerEvent κ ρ ε} (h : Step rules b e b') :
    b.Ahead (milestone e).1 (milestone e).2 ∧
      ∀ i m, b'.Ahead i m → b.Ahead i m ∧ (i, m) ≠ milestone e := by
  cases h with
  | accept r hs =>
    refine ⟨hs, ahead_move (n := .arrival) (by decide) fun m _ h => ?_⟩
    cases m <;> simp_all [Ahead]
  | refuse hs | turnAway hs =>
    refine ⟨hs, ahead_move (n := .arrival) (by decide) fun m _ h => ?_⟩
    cases m <;> simp_all [Ahead]
  | start hs =>
    refine ⟨.inr ⟨_, hs⟩, ahead_move (n := .turn) (by decide) fun m _ h => ?_⟩
    cases m <;> simp_all [Ahead]
  | settle hs =>
    refine ⟨.inr (.inr ⟨_, hs⟩), ahead_move (n := .completion) (by decide) fun m _ h => ?_⟩
    cases m <;> simp_all [Ahead]
  | @tell k v hv ht =>
    refine ⟨ht, fun i m h => ?_⟩
    cases m with
    | arrival | turn | completion => exact ⟨h, fun heq => Milestone.noConfusion (Prod.mk.inj heq).2⟩
    | verdict =>
      -- Whoever has not been told after the event is another client.
      have hne : i ≠ k := by
        rintro rfl
        exact absurd ((Function.update_self _ _ _).symm.trans h) (Option.some_ne_none v)
      exact ⟨(Function.update_of_ne hne _ _).symm.trans h, fun heq => hne (Prod.mk.inj heq).1⟩

/-- What a run of a broker looks like. -/
theorem lawful_of_run (hrun : (system κ rules).run empty es = some b) : Lawful rules es := by
  -- What is still ahead has not happened.
  suffices h : Lawful rules es ∧ ∀ i m, b.Ahead i m → (i, m) ∉ es.map milestone from h.1
  induction es using List.reverseRecOn generalizing b with
  | nil =>
    refine ⟨⟨fun before e after h => ?_, List.nodup_nil⟩, fun _ _ _ => List.not_mem_nil⟩
    exact absurd h.symm (List.append_ne_nil_of_right_ne_nil _ (List.cons_ne_nil _ _))
  | append_singleton es e ih =>
    rw [System.run_append] at hrun
    obtain ⟨u, hu, hstep⟩ := Option.bind_eq_some_iff.mp hrun
    rw [System.run_cons, Option.bind_eq_some_iff] at hstep
    obtain ⟨v, hv, hnil⟩ := hstep
    cases hnil
    obtain ⟨hlawful, hfresh⟩ := ih hu
    have hs := next_eq_some_iff.mp hv
    obtain ⟨hahead, hkeep⟩ := hs.ahead
    refine ⟨⟨fun before x after h => ?_, ?_⟩, fun i m hm => ?_⟩
    · rcases List.eq_nil_or_concat after with rfl | ⟨rest, y, rfl⟩
      · obtain ⟨rfl, heq⟩ := List.append_inj' h rfl
        cases heq
        exact justified_of_step hu hs
      · rw [List.concat_eq_append, ← List.cons_append, ← List.append_assoc] at h
        exact hlawful.justified before x rest (List.append_inj' h rfl).1
    · rw [List.map_append, List.map_singleton, ← List.concat_eq_append]
      exact hlawful.once.concat (hfresh _ _ hahead)
    · obtain ⟨hm, hne⟩ := hkeep i m hm
      rw [List.map_append, List.map_singleton, List.mem_append, List.mem_singleton]
      exact fun h => h.elim (hfresh i m hm) hne

end Broker

end InferenceGateway.Common
