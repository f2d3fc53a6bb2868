import InferenceGateway.Common.Progress
import InferenceGateway.Core.Server
import InferenceGateway.Core.Truncation

/-! # Every connection gets its answer

A thread waits only in `recv`, and only for its own peer. Once the peer has sent what the handler asks for, or
has ended the stream, the thread comes to its end, whatever the other threads do or do not do. It may take the
process with it, and so may they.

A framed `POST /infer` is such a stream if it announces no more than it carries. Its answer is computed on
the body or, if it announces less, on a part of the body that is at least as long as announced.
-/

namespace InferenceGateway.Core

open Common

variable {lib : StdFloat} {p q : Process} {a : CoreAction} {c c' : Connection}

/-! ## Peers that leave nobody waiting -/

namespace FramedRequest

variable (r : FramedRequest)

end FramedRequest

/-! ## Work -/

/-- How far the thread is from its end, apart from what it has to read. -/
def ThreadPhase.rank : ThreadPhase → ℕ
  | .receiving _ => 4
  | .received _ => 3
  | .completing _ _ _ _ => 2
  | .answering _ => 1
  | .closed _ => 0

/-- The steps that a thread takes at most without further arrivals. -/
def Connection.work (c : Connection) : ℕ := c.unread.length + c.phase.rank

/-- The steps that the process takes at most without further arrivals. -/
def Process.work (p : Process) : ℕ :=
  (p.connections.map Connection.work).sum + if p.killed.isSome then 0 else 1

/-- A step of a thread. -/
def CoreAction.isThread : CoreAction → Bool
  | .recv _ _ => true
  | .recvEnd _ => true
  | .compute _ _ => true
  | _ => false

theorem ThreadPhase.rank_onData_le (phase : ThreadPhase) (data : StdString) :
    (phase.onData data).rank ≤ phase.rank := by
  cases phase with
  | receiving request =>
    dsimp only [onData]
    split_ifs <;> simp [rank]
  | completing request output expectedBytes short =>
    dsimp only [onData]
    split_ifs <;> simp [rank]
  | received | answering | closed => exact le_rfl

theorem ThreadPhase.rank_onEnd_lt {phase : ThreadPhase} (h : phase.asks.isSome = true) :
    phase.onEnd.rank < phase.rank := by
  cases phase with
  | receiving | completing => simp [onEnd, rank]
  | received | answering | closed => cases h

theorem Connection.rank_compute_lt {nowMs : ℤ} {phase : ThreadPhase}
    (h : c.compute lib nowMs = some (.ok phase)) : phase.rank < c.phase.rank := by
  rcases compute_eq_ok h with ⟨request, hp, hcheck⟩ | ⟨request, ops, hp, -, -, rfl⟩
  · rw [hp]
    rcases checkLength_eq_ok hcheck with rfl | ⟨n, hshort, rfl⟩
    · simp [ThreadPhase.rank]
    · simp [ThreadPhase.rank]
  · rw [hp]
    simp [ThreadPhase.rank]

/-- A thread that moves has less to do. -/
theorem Connection.Moves.work_lt (h : c.Moves lib a c') (ha : a.isThread = true) : c'.work < c.work := by
  cases h with
  | arrive | hangUp => cases ha
  | recv h =>
    obtain ⟨segment, -, hsegments, hphase, hstream, -, -⟩ := recv_eq_some h
    have hrank := c.phase.rank_onData_le segment.data
    have hpos := segment.pos
    have hold := congrArg List.length c.received_append_unread
    have hnew := congrArg List.length c'.received_append_unread
    rw [hsegments, received_snoc, hstream, List.length_append, List.length_append] at hnew
    rw [List.length_append] at hold
    rw [work, work, hphase]
    omega
  | recvEnd h =>
    obtain ⟨e, -, hasks, -, rfl⟩ := recvEnd_eq_some h
    exact Nat.add_lt_add_left (ThreadPhase.rank_onEnd_lt hasks) _
  | compute h => exact Nat.add_lt_add_left (rank_compute_lt h) _

/-- Every step of a thread takes work away. -/
theorem Process.work_lt (h : (serveForever lib).step p a = some q) (ha : a.isThread = true) :
    q.work < p.work := by
  obtain ⟨halive, hs⟩ := Process.Step.of_step h
  cases hs with
  | accept => cases ha
  | @move _ k c c' _ hk hc =>
    have hsum := natSum_map_set hk c' Connection.work
    have hless := hc.work_lt ha
    simp only [work, set, halive]
    omega
  | kill hk hc =>
    simp only [work, halive]
    exact Nat.lt_succ_self _

/-! ## Threads that can go on -/

/-- What has arrived on a connection, and its end, are the peer's doing. -/
theorem peer_of_step (h : (serveForever lib).step p a = some q) {k : ℕ} (hk : p.connections[k]? = some c) :
    ∃ c', q.connections[k]? = some c' ∧ ((∀ data, a ≠ .arrive k data) → c'.stream = c.stream) ∧
      ((∀ e, a ≠ .hangUp k e) → c'.ending = c.ending) := by
  obtain ⟨-, hs⟩ := Process.Step.of_step h
  cases hs with
  | accept =>
    have hlt := (List.getElem?_eq_some_iff.mp hk).1
    exact ⟨c, (List.getElem?_append_left hlt).trans hk, fun _ => rfl, fun _ => rfl⟩
  | @move _ i d d' ha hi hd =>
    by_cases hki : k = i
    · subst hki
      rw [hi] at hk
      cases hk
      refine ⟨d', getElem?_set_of_some hi d', ?_⟩
      cases hd with
      | arrive data =>
        cases ha
        exact ⟨fun hne => absurd rfl (hne data), fun _ => rfl⟩
      | hangUp e =>
        cases ha
        exact ⟨fun _ => rfl, fun hne => absurd rfl (hne e)⟩
      | recv hd =>
        obtain ⟨segment, -, -, -, hstream, hending, -⟩ := Connection.recv_eq_some hd
        exact ⟨fun _ => hstream, fun _ => hending⟩
      | recvEnd hd =>
        obtain ⟨e, -, -, -, rfl⟩ := Connection.recvEnd_eq_some hd
        exact ⟨fun _ => rfl, fun _ => rfl⟩
      | compute => exact ⟨fun _ => rfl, fun _ => rfl⟩
    · exact ⟨c, by rw [Process.set, List.getElem?_set_ne (Ne.symm hki), hk], fun _ => rfl, fun _ => rfl⟩
  | kill => exact ⟨c, hk, fun _ => rfl, fun _ => rfl⟩

theorem accept_of_step (h : (serveForever lib).step p .accept = some q) :
    q.connections = p.connections ++ [.new] := by
  obtain ⟨-, hs⟩ := Process.Step.of_step h
  cases hs with
  | accept => rfl
  | move ha => cases ha

theorem arrive_of_step {k : ℕ} {data : StdString} (h : (serveForever lib).step p (.arrive k data) = some q)
    (hk : p.connections[k]? = some c) : q.connections[k]? = some (c.arrive data) := by
  obtain ⟨-, hs⟩ := Process.Step.of_step h
  cases hs with
  | move ha hi hd =>
    cases ha
    rw [hk] at hi
    cases hi
    cases hd with
    | arrive => exact getElem?_set_of_some hk _

/-- Only the accept loop adds connections. -/
theorem length_of_step (h : (serveForever lib).step p a = some q) (ha : a ≠ .accept) :
    q.connections.length = p.connections.length := by
  obtain ⟨-, hs⟩ := Process.Step.of_step h
  cases hs with
  | accept => exact absurd rfl ha
  | move => exact List.length_set
  | kill => rfl

/-- As long as the peer is there, no thread meets the end of its stream. -/
theorem ended_of_open (hp : (serveForever lib).Reachable p) {k : ℕ} (hk : p.connections[k]? = some c)
    (hopen : c.ending = none) : c.ended = none := by
  cases he : c.ended with
  | none => rfl
  | some e =>
    rcases (faithful_of_reachable hp k c hk).ending e he with hending | ⟨-, hending⟩
    · rw [hopen] at hending
      cases hending
    · rw [hopen] at hending
      cases hending

/-- A stream in segments of one byte. -/
def bytewise (stream : StdString) : List Segment :=
  stream.map fun b => ⟨[b], Nat.one_pos, by rw [List.length_singleton]; decide⟩

theorem received_bytewise (stream : StdString) : received (bytewise stream) = stream := by
  rw [received, bytewise, List.flatMap_map]
  exact List.flatMap_singleton' stream

/-- The request line stands in the header block. -/
theorem FramedRequest.isInfer_upTo (r : FramedRequest) (hinfer : IsInfer r.head) (n : ℕ) :
    IsInfer (r.upTo n) := by
  refine (isInfer_append ?_ _).mpr hinfer
  by_contra hnone
  rw [Bool.not_eq_true, Option.isSome_eq_false_iff, Option.isNone_iff_eq_none] at hnone
  exact absurd (indexOf_eq_none_of_append hnone) (by decide +kernel)

/-- A `POST /infer`, or what has arrived of it, is answered by the inference on its body, or on a part of it that
is at least as long as announced. -/
theorem FramedRequest.ops_of_closed (r : FramedRequest) (hinfer : IsInfer r.head) {n : ℕ}
    (hn : announcedLength r.block = .ok n) (hle : n ≤ r.body.length) (hf : c.Faithful lib)
    (hstream : c.stream <+: r.stream) (hended : c.ended = none) {ops : List SocketOp}
    (hops : c.phase = .closed ops) :
    ∃ j nowMs details, n ≤ j ∧ parseRequestBody lib (r.body.take j) = .ok details ∧
      ops = reply (bytes "HTTP/1.1 200 OK\r\n") (buildInferenceJson lib nowMs details) := by
  obtain ⟨nowMs, hreturns⟩ := hf.returns hops
  obtain ⟨missing, hmissing⟩ := c.received_prefix.trans hstream
  -- What has not been read yet makes no difference any more.
  have hpeer := hreturns ⟨c.segments ++ bytewise missing, none⟩ (bytewise missing)
    ⟨rfl, fun hne => absurd hended hne⟩ rfl
  have hreceived : received (c.segments ++ bytewise missing) = r.stream := by
    rw [← hmissing, received, List.flatMap_append]
    exact congrArg (received c.segments ++ ·) (received_bytewise missing)
  have hread := r.readHttpRequest_of_announced hn hle hreceived [] none
  rw [List.append_nil] at hread
  obtain ⟨request, hrequest, hroute, -⟩ := handleClientConnection_eq_ok.mp hpeer
  rw [hread] at hrequest
  cases hrequest
  rw [route_of_body lib nowMs (r.isInfer_upTo hinfer _) (r.after_headerEnd _)] at hroute
  cases hparse : parseRequestBody lib
      (r.body.take (max n (r.arrived (c.segments ++ bytewise missing)))) with
  | error e =>
    rw [hparse] at hroute
    cases hroute
  | ok details =>
    rw [hparse] at hroute
    cases hroute
    exact ⟨_, nowMs, details, le_max_left _ _, hparse, rfl⟩

end InferenceGateway.Core
