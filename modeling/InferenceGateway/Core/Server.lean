import InferenceGateway.Common.Lists
import InferenceGateway.Common.Transition
import InferenceGateway.Core.Survival

/-! # The server of the inference core

Reference: `serve_forever`, `handle_client_connection`, `read_http_request` and `read_available_data` in
`inference_core.cpp`.

The accept loop starts a detached thread for each connection. A thread waits in `recv`, which returns some
of the bytes that have arrived, as many as it asks for at most; between two calls of `recv` it computes. So
the steps of the threads and the arrivals from their peers interleave in any way. The threads share nothing
but the process: an exception that leaves one of them ends all of them, and so does a `SIGPIPE`.
-/

namespace InferenceGateway.Core

open Common

/-! ## Threads -/

/-- Where the thread of a connection stands. -/
inductive ThreadPhase
  /-- At the `recv` of `read_http_request`. -/
  | receiving (request : StdString)
  /-- Behind the loop around it. -/
  | received (request : StdString)
  /-- At the `recv` of `read_available_data`. -/
  | completing (request output : StdString) (expectedBytes : ℕ) (short : output.length < expectedBytes)
  /-- `read_http_request` returned. -/
  | answering (request : StdString)
  /-- `handle_client_connection` returned, having done this to the socket. -/
  | closed (ops : List SocketOp)

/-- What `read_http_request` does behind its loop, up to the next `recv` if there is one. -/
def checkLength (request : StdString) : Throws ThreadPhase := do
  let header ← substr request 0 (find request headerEnd 0)
  let contentLengthHeader := bytes "Content-Length:"
  match find header contentLengthHeader 0 with
  | none => return .answering request
  | some position =>
    let valueStart := position + contentLengthHeader.length
    let valueEnd := find header crlf valueStart
    let value ← substr header valueStart (valueEnd.map (· - valueStart))
    let lengthValue ← trim value
    let contentLength ← stoul lengthValue
    match find request headerEnd 0 with
    | none => return .answering request
    | some bodyStart =>
      let existingBody ← substr request (bodyStart + 4) none
      if h : existingBody.length < contentLength then
        return .completing request [] (contentLength - existingBody.length) (Nat.sub_pos_of_lt h)
      else return .answering request

namespace ThreadPhase

/-- How many bytes the thread asks for, if it is at a `recv`. -/
def asks : ThreadPhase → Option ℕ
  | .receiving _ => some 4096
  | .completing _ output expectedBytes _ => some (min 4096 (expectedBytes - output.length))
  | _ => none

/-- The thread is inside `read_http_request`. -/
def isReading : ThreadPhase → Bool
  | .answering _ => false
  | .closed _ => false
  | _ => true

/-- `recv` returned bytes. -/
def onData (data : StdString) : ThreadPhase → ThreadPhase
  | .receiving request =>
    let request := request ++ data
    if (find request headerEnd 0).isSome then .received request
    else if request.length > 64 * 1024 then .received request
    else .receiving request
  | .completing request output expectedBytes _ =>
    let output := output ++ data
    if h : output.length < expectedBytes then .completing request output expectedBytes h
    else .answering (request ++ output)
  | phase => phase

/-- `recv` returned 0 or -1. -/
def onEnd : ThreadPhase → ThreadPhase
  | .receiving request => .answering request
  | .completing request _ _ _ => .answering request
  | phase => phase

end ThreadPhase

/-! ## Connections -/

/-- A connection and its thread: what has arrived, whether the peer has ended the stream, and what the calls
of `recv` returned so far. -/
structure Connection where
  stream : StdString := []
  ending : Option PeerEnd := none
  segments : List Segment := []
  ended : Option PeerEnd := none
  phase : ThreadPhase := .receiving []
  received_prefix : received segments <+: stream

namespace Connection

/-- A connection that was just accepted. -/
def new : Connection where
  received_prefix := show received [] <+: [] from List.nil_prefix

/-- What has arrived and was not returned by `recv` yet. -/
def unread (c : Connection) : StdString := c.stream.drop (received c.segments).length

theorem received_append_unread (c : Connection) : received c.segments ++ c.unread = c.stream :=
  List.prefix_iff_eq_append.mp c.received_prefix

/-- Bytes arrive. -/
def arrive (c : Connection) (data : StdString) : Connection :=
  { c with
    stream := c.stream ++ data
    received_prefix := c.received_prefix.trans (List.prefix_append _ _) }

theorem received_snoc (segments : List Segment) (segment : Segment) :
    received (segments ++ [segment]) = received segments ++ segment.data := by
  rw [received, List.flatMap_append, List.flatMap_singleton, received]

/-- `recv` returns the next `n` bytes. -/
def recv (c : Connection) (n : ℕ) : Option Connection :=
  if h : 0 < n ∧ n ≤ 4096 ∧ n ≤ c.unread.length ∧ n ≤ c.phase.asks.getD 0 then
    some
      { c with
        segments := c.segments ++
          [⟨c.unread.take n, by rw [List.length_take]; omega, by rw [List.length_take]; omega⟩]
        phase := c.phase.onData (c.unread.take n)
        received_prefix := by
          rw [received_snoc]
          refine ⟨c.unread.drop n, ?_⟩
          rw [List.append_assoc, List.take_append_drop, received_append_unread] }
  else none

/-- `recv` finds the end of the stream. A failed connection may lose what was not read. -/
def recvEnd (c : Connection) : Option Connection :=
  match c.ending with
  | none => none
  | some e =>
    if c.phase.asks.isSome ∧ (e ≠ .failed → c.unread = []) then
      some { c with ended := some e, phase := c.phase.onEnd }
    else none

/-- The peer may end the stream so: once, and then reset what it has closed. -/
def mayEnd (c : Connection) (e : PeerEnd) : Bool :=
  match c.ending with
  | none => true
  | some .closed => e = .gone
  | _ => false

/-- `send` raises `SIGPIPE`. -/
def brokenPipe (c : Connection) : Bool := c.ending = some .gone ∨ c.ended = some .failed

/-- What the thread computes when it is not at a `recv`. -/
def compute (c : Connection) (lib : StdFloat) (nowMs : ℤ) : Option (Except Halt ThreadPhase) :=
  match c.phase with
  | .received request => some (uncaught (checkLength request))
  | .answering request => some do
    let ops ← uncaught (route lib nowMs request)
    if c.brokenPipe then .error .sigpipe else return .closed ops
  | _ => none

end Connection

/-! ## The process -/

/-- The process, with what ended it and the connection in whose thread that happened. -/
structure Process where
  connections : List Connection := []
  killed : Option (ℕ × Halt) := none

/-- A step of the accept loop, of a peer or of a thread. -/
inductive CoreAction
  | accept
  | arrive (k : ℕ) (data : StdString)
  | hangUp (k : ℕ) (e : PeerEnd)
  | recv (k : ℕ) (n : ℕ)
  | recvEnd (k : ℕ)
  | compute (k : ℕ) (nowMs : ℤ)

/-- Replace connection `k`. -/
def Process.set (p : Process) (k : ℕ) (c : Connection) : Process :=
  { p with connections := p.connections.set k c }

/-- A step of connection `k`, which is `c`. -/
def Process.step (lib : StdFloat) (p : Process) : CoreAction → Option Process
  | .accept => some { p with connections := p.connections ++ [.new] }
  | .arrive k data =>
    (p.connections[k]?).bind fun c =>
      if c.ending = none then some (p.set k (c.arrive data)) else none
  | .hangUp k e =>
    (p.connections[k]?).bind fun c =>
      if c.mayEnd e then some (p.set k { c with ending := some e }) else none
  | .recv k n => (p.connections[k]?).bind fun c => (c.recv n).map (p.set k)
  | .recvEnd k => (p.connections[k]?).bind fun c => c.recvEnd.map (p.set k)
  | .compute k nowMs =>
    (p.connections[k]?).bind fun c => (c.compute lib nowMs).map fun
      | .ok phase => p.set k { c with phase := phase }
      -- The exception leaves the detached thread, or nothing handles the signal.
      | .error halt => { p with killed := some (k, halt) }

/-- The process of `serve_forever`, which takes no step after its end. -/
def serveForever (lib : StdFloat) : System Process CoreAction where
  init p := p = {}
  step p a := if p.killed.isSome then none else p.step lib a

/-! ## One step -/

/-- What a step does to a connection. -/
inductive Connection.Moves (lib : StdFloat) (c : Connection) : CoreAction → Connection → Prop
  | arrive {k : ℕ} (data : StdString) (h : c.ending = none) : Moves lib c (.arrive k data) (c.arrive data)
  | hangUp {k : ℕ} (e : PeerEnd) (h : c.mayEnd e = true) : Moves lib c (.hangUp k e) { c with ending := some e }
  | recv {k n : ℕ} {c' : Connection} (h : c.recv n = some c') : Moves lib c (.recv k n) c'
  | recvEnd {k : ℕ} {c' : Connection} (h : c.recvEnd = some c') : Moves lib c (.recvEnd k) c'
  | compute {k : ℕ} {nowMs : ℤ} {phase : ThreadPhase} (h : c.compute lib nowMs = some (.ok phase)) :
      Moves lib c (.compute k nowMs) { c with phase := phase }

/-- The connection of an action. -/
def CoreAction.connection : CoreAction → Option ℕ
  | .accept => none
  | .arrive k _ => some k
  | .hangUp k _ => some k
  | .recv k _ => some k
  | .recvEnd k => some k
  | .compute k _ => some k

/-- The transitions of the process. -/
inductive Process.Step (lib : StdFloat) (p : Process) : CoreAction → Process → Prop
  | accept : Step lib p .accept { p with connections := p.connections ++ [.new] }
  | move {a : CoreAction} {k : ℕ} {c c' : Connection} (ha : a.connection = some k)
      (hk : p.connections[k]? = some c) (hc : c.Moves lib a c') : Step lib p a (p.set k c')
  | kill {k : ℕ} {nowMs : ℤ} {c : Connection} {halt : Halt} (hk : p.connections[k]? = some c)
      (hc : c.compute lib nowMs = some (.error halt)) :
      Step lib p (.compute k nowMs) { p with killed := some (k, halt) }

variable {lib : StdFloat} {p q : Process} {a : CoreAction}

theorem Process.Step.of_step (h : (serveForever lib).step p a = some q) :
    p.killed = none ∧ Process.Step lib p a q := by
  obtain ⟨halive, h⟩ := Option.ite_none_left_eq_some.mp h
  refine ⟨by simpa using halive, ?_⟩
  cases a with
  | accept =>
    cases h
    exact .accept
  | arrive k data =>
    obtain ⟨c, hk, h⟩ := Option.bind_eq_some_iff.mp h
    obtain ⟨hc, h⟩ := Option.ite_none_right_eq_some.mp h
    cases h
    exact .move rfl hk (.arrive data hc)
  | hangUp k e =>
    obtain ⟨c, hk, h⟩ := Option.bind_eq_some_iff.mp h
    obtain ⟨hc, h⟩ := Option.ite_none_right_eq_some.mp h
    cases h
    exact .move rfl hk (.hangUp e hc)
  | recv k n =>
    obtain ⟨c, hk, h⟩ := Option.bind_eq_some_iff.mp h
    obtain ⟨c', hc, h⟩ := Option.map_eq_some_iff.mp h
    cases h
    exact .move rfl hk (.recv hc)
  | recvEnd k =>
    obtain ⟨c, hk, h⟩ := Option.bind_eq_some_iff.mp h
    obtain ⟨c', hc, h⟩ := Option.map_eq_some_iff.mp h
    cases h
    exact .move rfl hk (.recvEnd hc)
  | compute k nowMs =>
    obtain ⟨c, hk, h⟩ := Option.bind_eq_some_iff.mp h
    obtain ⟨x, hc, h⟩ := Option.map_eq_some_iff.mp h
    cases x with
    | ok phase =>
      cases h
      exact .move rfl hk (.compute hc)
    | error halt =>
      cases h
      exact .kill hk hc

theorem Connection.recv_eq_some {c c' : Connection} {n : ℕ} (h : c.recv n = some c') :
    ∃ segment : Segment, segment.data.length ≤ c.phase.asks.getD 0 ∧
      c'.segments = c.segments ++ [segment] ∧ c'.phase = c.phase.onData segment.data ∧
      c'.stream = c.stream ∧ c'.ending = c.ending ∧ c'.ended = c.ended := by
  unfold recv at h
  split at h
  · rename_i hn
    cases h
    refine ⟨_, ?_, rfl, rfl, rfl, rfl, rfl⟩
    dsimp only
    rw [List.length_take]
    omega
  · cases h

theorem Connection.recvEnd_eq_some {c c' : Connection} (h : c.recvEnd = some c') :
    ∃ e, c.ending = some e ∧ c.phase.asks.isSome = true ∧ (e ≠ .failed → c.unread = []) ∧
      c' = { c with ended := some e, phase := c.phase.onEnd } := by
  unfold recvEnd at h
  split at h
  · cases h
  · rename_i e he
    obtain ⟨⟨hasks, hunread⟩, h⟩ := Option.ite_none_right_eq_some.mp h
    cases h
    exact ⟨e, he, hasks, hunread, rfl⟩

/-! ## A thread computes what its handler computes -/

/-- What `read_http_request` returns from here on, if the `recv`s find the segments and then the end of the
peer. -/
def ThreadPhase.resume (peer : Peer) (segments : List Segment) : ThreadPhase → Except Halt StdString
  | .receiving request =>
    match readHeader request segments with
    | (request, _, false) => peer.atEnd request
    | (request, segments, true) => readBody peer request segments
  | .received request => readBody peer request segments
  | .completing request output expectedBytes _ =>
    match readAvailableData expectedBytes output segments with
    | some rest => .ok (request ++ rest)
    | none => peer.atEnd request
  | .answering request => .ok request
  | .closed _ => .error .blocked

theorem readBody_eq_resume (peer : Peer) (request : StdString) (segments : List Segment) :
    readBody peer request segments =
      uncaught (checkLength request) >>= fun phase => phase.resume peer segments := by
  rw [readBody, checkLength]
  simp only [uncaught, Except.mapError, bind, Except.bind, pure, Except.pure]
  cases substr request 0 (find request headerEnd 0) with
  | error e => rfl
  | ok header =>
    dsimp only
    cases hpos : find header (bytes "Content-Length:") 0 with
    | none => rfl
    | some position =>
      dsimp only
      -- The calls that may throw are the same on both sides.
      cases substr header (position + (bytes "Content-Length:").length)
          ((find header crlf (position + (bytes "Content-Length:").length)).map
            (· - (position + (bytes "Content-Length:").length))) with
      | error e => rfl
      | ok value =>
        dsimp only
        cases trim value with
        | error e => rfl
        | ok lengthValue =>
          dsimp only
          cases stoul lengthValue with
          | error e => rfl
          | ok contentLength =>
            dsimp only
            cases find request headerEnd 0 with
            | none => rfl
            | some bodyStart =>
              dsimp only
              cases substr request (bodyStart + 4) none with
              | error e => rfl
              | ok existingBody =>
                dsimp only
                split_ifs <;> rfl

theorem readAvailableData_of_le {expectedBytes : ℕ} {output : StdString} (h : expectedBytes ≤ output.length)
    (segments : List Segment) : readAvailableData expectedBytes output segments = some output := by
  cases segments with
  | nil => exact if_neg (Nat.not_lt.mpr h)
  | cons segment segments => exact if_neg (Nat.not_lt.mpr h)

/-- Data leaves what the thread will return as it is. -/
theorem ThreadPhase.resume_onData {peer : Peer} {phase : ThreadPhase} {segment : Segment}
    (h : segment.data.length ≤ phase.asks.getD 0) (segments : List Segment) :
    phase.resume peer (segment :: segments) = (phase.onData segment.data).resume peer segments := by
  cases phase with
  | receiving request =>
    simp only [resume, onData, readHeader]
    split_ifs <;> rfl
  | completing request output expectedBytes short =>
    have hle : segment.data.length ≤ min 4096 (expectedBytes - output.length) := h
    have htake : segment.data.take (min 4096 (expectedBytes - output.length)) = segment.data :=
      List.take_of_length_le hle
    simp only [resume, onData, readAvailableData, if_pos short, htake]
    split_ifs with hmore
    · rfl
    · rw [readAvailableData_of_le (Nat.not_lt.mp hmore)]
  | received | answering | closed =>
    -- A thread that is not at a `recv` asks for nothing.
    exact absurd h (Nat.not_le.mpr segment.pos)

/-- So does the end of the stream. -/
theorem ThreadPhase.resume_onEnd {peer : Peer} {phase : ThreadPhase} (hasks : phase.asks.isSome = true)
    (hend : peer.ending ≠ none) : phase.resume peer [] = phase.onEnd.resume peer [] := by
  obtain ⟨e, he⟩ := Option.ne_none_iff_exists'.mp hend
  cases phase with
  | receiving request => simp [resume, onEnd, readHeader, Peer.atEnd, he]
  | completing request output expectedBytes short =>
    simp [resume, onEnd, readAvailableData, short, Peer.atEnd, he]
  | received | answering | closed => cases hasks

/-- A thread that waits for a silent peer is a handler that waits. -/
theorem ThreadPhase.resume_blocked {peer : Peer} (he : peer.ending = none) {phase : ThreadPhase}
    (hasks : phase.asks.isSome = true) : phase.resume peer [] = .error .blocked := by
  cases phase with
  | receiving request => simp [resume, readHeader, Peer.atEnd, he]
  | completing request output expectedBytes short =>
    simp [resume, readAvailableData, short, Peer.atEnd, he]
  | received | answering | closed => cases hasks

namespace Connection

/-- The peer is one that the thread may have had before it so far, and the segments are what its next
`recv`s would find. How the stream ends makes no difference to the reader. -/
def Sees (c : Connection) (peer : Peer) (segments : List Segment) : Prop :=
  peer.segments = c.segments ++ segments ∧ (c.ended ≠ none → segments = [] ∧ peer.ending ≠ none)

/-- The thread has done what its handler does. -/
structure Faithful (lib : StdFloat) (c : Connection) : Prop where
  stopped : c.ended ≠ none →
    c.phase.isReading = false ∧ readHttpRequest ⟨c.segments, none⟩ = .error .blocked
  ending : ∀ e, c.ended = some e → c.ending = some e ∨ e = .closed ∧ c.ending = some .gone
  reads : ∀ peer segments, c.Sees peer segments → (∀ ops, c.phase ≠ .closed ops) →
    readHttpRequest peer = c.phase.resume peer segments
  closed : ∀ ops, c.phase = .closed ops → c.ended ≠ some .gone ∧ c.ended ≠ some .failed ∧
    ∃ request nowMs, (∀ peer segments, c.Sees peer segments → readHttpRequest peer = .ok request) ∧
      route lib nowMs request = .ok ops

theorem Faithful.new (lib : StdFloat) : new.Faithful lib where
  stopped h := absurd rfl h
  ending e h := by cases h
  reads peer segments h _ := by
    have hsegments : peer.segments = segments := h.1
    rw [← hsegments]
    rfl
  closed _ h := ThreadPhase.noConfusion h

variable {c c' : Connection}

/-- The peer may do what it likes as long as it does not take back the end of its stream. -/
theorem Faithful.congr (hf : c.Faithful lib) (hsegments : c'.segments = c.segments) (hended : c'.ended = c.ended)
    (hphase : c'.phase = c.phase)
    (hending : ∀ e, c.ended = some e → c'.ending = some e ∨ e = .closed ∧ c'.ending = some .gone) :
    c'.Faithful lib := by
  have hsees {peer : Peer} {segments : List Segment} (h : c'.Sees peer segments) : c.Sees peer segments := by
    rwa [Sees, hsegments, hended] at h
  refine ⟨?_, fun e he => hending e (hended ▸ he), fun peer segments h => ?_, fun ops h => ?_⟩
  · rw [hended, hphase, hsegments]
    exact hf.stopped
  · rw [hphase]
    exact hf.reads peer segments (hsees h)
  · obtain ⟨hgone, hfailed, request, nowMs, hreads, hroute⟩ := hf.closed ops (hphase ▸ h)
    rw [hended]
    exact ⟨hgone, hfailed, request, nowMs, fun peer segments h => hreads peer segments (hsees h), hroute⟩

/-- An end that the thread has met is not taken back. -/
theorem Faithful.ending_of_mayEnd (hf : c.Faithful lib) {e : PeerEnd} (h : c.mayEnd e = true) (met : PeerEnd)
    (hmet : c.ended = some met) : some e = some met ∨ met = .closed ∧ some e = some .gone := by
  unfold mayEnd at h
  rcases hf.ending met hmet with hending | ⟨-, hending⟩
  · rw [hending] at h
    cases met with
    | closed => exact .inr ⟨rfl, congrArg some (of_decide_eq_true h)⟩
    | gone | failed => cases h
  · rw [hending] at h
    cases h

/-- A thread at a `recv` is reading. -/
theorem isReading_of_asks {phase : ThreadPhase} (h : phase.asks ≠ none) : phase.isReading = true := by
  cases phase with
  | receiving | completing => rfl
  | received | answering | closed => exact absurd rfl h

/-- A thread that is reading has not met the end of the stream, and what it still finds is up to the peer. -/
theorem Faithful.reads_of_isReading (hf : c.Faithful lib) (hreading : c.phase.isReading = true) :
    c.ended = none ∧ ∀ peer segments, peer.segments = c.segments ++ segments →
      readHttpRequest peer = c.phase.resume peer segments := by
  have hopen : c.ended = none := by
    by_contra hne
    exact Bool.noConfusion (hreading.symm.trans (hf.stopped hne).1)
  refine ⟨hopen, fun peer segments h =>
    hf.reads peer segments ⟨h, fun hne => absurd hopen hne⟩ fun ops hops => ?_⟩
  rw [hops] at hreading
  cases hreading

theorem Faithful.recv (hf : c.Faithful lib) {n : ℕ} (h : c.recv n = some c') : c'.Faithful lib := by
  obtain ⟨segment, hle, hsegments, hphase, -, hending, hended⟩ := recv_eq_some h
  have hasks : c.phase.asks ≠ none := by
    intro hnone
    rw [hnone] at hle
    exact absurd hle (Nat.not_le.mpr segment.pos)
  obtain ⟨hopen, hreads⟩ := hf.reads_of_isReading (isReading_of_asks hasks)
  refine ⟨fun hne => absurd (hended.trans hopen) hne, fun e he => ?_, fun peer segments h _ => ?_,
    fun ops hops => ?_⟩
  · rw [hended, hopen] at he
    cases he
  · have hpeer := h.1
    rw [hsegments, List.append_assoc, List.singleton_append] at hpeer
    rw [hreads peer _ hpeer, hphase]
    exact ThreadPhase.resume_onData hle segments
  · -- No `recv` closes the socket.
    rw [hphase] at hops
    cases hp : c.phase with
    | receiving request =>
      simp only [hp, ThreadPhase.onData] at hops
      split_ifs at hops
    | completing request output expectedBytes short =>
      simp only [hp, ThreadPhase.onData] at hops
      split_ifs at hops
    | received | answering | closed =>
      rw [hp] at hasks
      exact absurd rfl hasks

/-- At the end of the stream the thread goes on to its answer. -/
theorem isReading_onEnd {phase : ThreadPhase} (h : phase.asks.isSome = true) :
    phase.onEnd.isReading = false ∧ ∀ ops, phase.onEnd ≠ .closed ops := by
  cases phase with
  | receiving | completing => exact ⟨rfl, fun _ => ThreadPhase.noConfusion⟩
  | received | answering | closed => cases h

theorem Faithful.recvEnd (hf : c.Faithful lib) (h : c.recvEnd = some c') : c'.Faithful lib := by
  obtain ⟨e, he, hasks, -, rfl⟩ := recvEnd_eq_some h
  obtain ⟨-, hreads⟩ := hf.reads_of_isReading (isReading_of_asks (Option.isSome_iff_ne_none.mp hasks))
  obtain ⟨hreading, hclosed⟩ := isReading_onEnd hasks
  refine ⟨fun _ => ⟨hreading, ?_⟩, fun met hmet => .inl (he.trans hmet), fun peer segments h _ => ?_,
    fun ops hops => absurd hops (hclosed ops)⟩
  · rw [hreads ⟨c.segments, none⟩ [] (List.append_nil _).symm]
    exact ThreadPhase.resume_blocked rfl hasks
  · obtain ⟨rfl, hend⟩ := h.2 (Option.some_ne_none e)
    rw [hreads peer [] h.1]
    exact ThreadPhase.resume_onEnd hasks hend

/-- Behind the header block, the thread answers or reads what is missing of the body. -/
theorem checkLength_eq_ok {request : StdString} {phase : ThreadPhase} (h : checkLength request = .ok phase) :
    phase = .answering request ∨ ∃ n hshort, phase = .completing request [] n hshort := by
  unfold checkLength at h
  obtain ⟨header, -, h⟩ := bind_eq_ok.mp h
  dsimp only at h
  split at h
  · cases h
    exact .inl rfl
  · obtain ⟨value, -, h⟩ := bind_eq_ok.mp h
    obtain ⟨lengthValue, -, h⟩ := bind_eq_ok.mp h
    obtain ⟨contentLength, -, h⟩ := bind_eq_ok.mp h
    split at h
    · cases h
      exact .inl rfl
    · obtain ⟨existingBody, -, h⟩ := bind_eq_ok.mp h
      split_ifs at h
      · cases h
        exact .inr ⟨_, _, rfl⟩
      · cases h
        exact .inl rfl

theorem compute_eq_ok {nowMs : ℤ} {phase : ThreadPhase} (h : c.compute lib nowMs = some (.ok phase)) :
    (∃ request, c.phase = .received request ∧ checkLength request = .ok phase) ∨
      ∃ request ops, c.phase = .answering request ∧ route lib nowMs request = .ok ops ∧
        c.brokenPipe = false ∧ phase = .closed ops := by
  unfold compute at h
  split at h
  · exact .inl ⟨_, ‹_›, uncaught_eq_ok.mp (Option.some.inj h)⟩
  · rename_i request hphase
    obtain ⟨ops, hroute, h⟩ := bind_eq_ok.mp (Option.some.inj h)
    obtain ⟨hpipe, h⟩ : c.brokenPipe = false ∧ ThreadPhase.closed ops = phase := by
      split at h
      · cases h
      · exact ⟨Bool.eq_false_iff.mpr ‹_›, Except.ok.inj h⟩
    exact .inr ⟨request, ops, hphase, uncaught_eq_ok.mp hroute, hpipe, h.symm⟩
  · cases h

theorem compute_eq_error {nowMs : ℤ} {halt : Halt} (h : c.compute lib nowMs = some (.error halt)) :
    (∃ request e, c.phase = .received request ∧ checkLength request = .error e ∧ halt = .exception e) ∨
      ∃ request, c.phase = .answering request ∧
        ((∃ e, route lib nowMs request = .error e ∧ halt = .exception e) ∨
          ∃ ops, route lib nowMs request = .ok ops ∧ c.brokenPipe = true ∧ halt = .sigpipe) := by
  unfold compute at h
  split at h
  · rename_i request hphase
    cases hcheck : checkLength request with
    | ok phase =>
      rw [hcheck] at h
      cases h
    | error e =>
      rw [hcheck] at h
      cases h
      exact .inl ⟨request, e, hphase, hcheck, rfl⟩
  · rename_i request hphase
    refine .inr ⟨request, hphase, ?_⟩
    cases hroute : route lib nowMs request with
    | error e =>
      rw [hroute] at h
      cases h
      exact .inl ⟨e, rfl, rfl⟩
    | ok ops =>
      rw [hroute] at h
      cases hpipe : c.brokenPipe with
      | true =>
        rw [hpipe] at h
        cases h
        exact .inr ⟨ops, rfl, rfl, rfl⟩
      | false =>
        rw [hpipe] at h
        cases h
  · cases h

/-- A thread that is not done reads what its reader returns. -/
theorem Faithful.reads_answering (hf : c.Faithful lib) {request : StdString} (hp : c.phase = .answering request)
    {peer : Peer} {segments : List Segment} (h : c.Sees peer segments) : readHttpRequest peer = .ok request := by
  rw [hf.reads peer segments h (by rw [hp]; exact fun _ => ThreadPhase.noConfusion), hp]
  rfl

/-- If the pipe is not broken, the thread met no end behind which it is. -/
theorem Faithful.ended_of_not_brokenPipe (hf : c.Faithful lib) (h : c.brokenPipe = false) :
    c.ended ≠ some .gone ∧ c.ended ≠ some .failed := by
  have hpipe : ¬(c.ending = some .gone ∨ c.ended = some .failed) := of_decide_eq_false h
  obtain ⟨hgone, hfailed⟩ := not_or.mp hpipe
  refine ⟨fun hended => ?_, hfailed⟩
  rcases hf.ending .gone hended with hending | ⟨hclosed, -⟩
  · exact hgone hending
  · cases hclosed

theorem Faithful.compute (hf : c.Faithful lib) {nowMs : ℤ} {phase : ThreadPhase}
    (h : c.compute lib nowMs = some (.ok phase)) : Faithful lib { c with phase := phase } := by
  rcases compute_eq_ok h with ⟨request, hp, hcheck⟩ | ⟨request, ops, hp, hroute, hpipe, rfl⟩
  · obtain ⟨hopen, hreads⟩ := hf.reads_of_isReading (by rw [hp]; rfl)
    refine ⟨fun hne => absurd hopen hne, hf.ending, fun peer segments h _ => ?_, fun ops hops => ?_⟩
    · rw [hreads peer segments h.1, hp]
      show readBody peer request segments = _
      rw [readBody_eq_resume, hcheck]
      rfl
    · -- Checking the length does not close the socket.
      rcases checkLength_eq_ok hcheck with rfl | ⟨n, hshort, rfl⟩
      · cases hops
      · cases hops
  · obtain ⟨hgone, hfailed⟩ := hf.ended_of_not_brokenPipe hpipe
    refine ⟨fun hne => ⟨rfl, (hf.stopped hne).2⟩, hf.ending, fun _ _ _ hne => absurd rfl (hne ops),
      fun ops' h' => ?_⟩
    cases h'
    exact ⟨hgone, hfailed, request, nowMs, fun peer segments h => hf.reads_answering hp h, hroute⟩

theorem Faithful.moves (hf : c.Faithful lib) (h : c.Moves lib a c') : c'.Faithful lib := by
  cases h with
  | arrive data => exact hf.congr rfl rfl rfl hf.ending
  | hangUp e h => exact hf.congr rfl rfl rfl (hf.ending_of_mayEnd h)
  | recv h => exact hf.recv h
  | recvEnd h => exact hf.recvEnd h
  | compute h => exact hf.compute h

/-- The peer that the thread has before it. -/
def peer (c : Connection) : Peer := ⟨c.segments, c.ending⟩

theorem Faithful.sees_peer (hf : c.Faithful lib) : c.Sees c.peer [] := by
  refine ⟨(List.append_nil _).symm, fun hne => ⟨rfl, fun hopen => ?_⟩⟩
  obtain ⟨e, he⟩ := Option.ne_none_iff_exists'.mp hne
  rcases hf.ending e he with hending | ⟨-, hending⟩
  · exact Option.some_ne_none e (hending.symm.trans hopen)
  · exact Option.some_ne_none PeerEnd.gone (hending.symm.trans hopen)

/-- A signal that the thread gets is one that its handler gets. -/
theorem Faithful.peer_brokenPipe (hf : c.Faithful lib) (h : c.brokenPipe = true) : c.peer.brokenPipe = true := by
  have hpipe : c.ending = some .gone ∨ c.ended = some .failed := of_decide_eq_true h
  rcases hpipe with hending | hended
  · rw [Peer.brokenPipe, peer, hending]
  · have hfailed : c.ending = some .failed := by
      rcases hf.ending .failed hended with hending | ⟨hclosed, -⟩
      · exact hending
      · cases hclosed
    have hblocked := (hf.stopped (by rw [hended]; exact Option.some_ne_none _)).2
    rw [Peer.brokenPipe, peer, hfailed]
    exact decide_eq_true hblocked

/-- What ends a thread, and with it the process, is what ends its handler. -/
theorem Faithful.halts (hf : c.Faithful lib) {nowMs : ℤ} {halt : Halt}
    (h : c.compute lib nowMs = some (.error halt)) :
    halt ≠ .blocked ∧ handleClientConnection lib nowMs c.peer = .error halt := by
  rcases compute_eq_error h with ⟨request, e, hp, hcheck, rfl⟩ | ⟨request, hp, h⟩
  · have hread := (hf.reads_of_isReading (by rw [hp]; rfl)).2 c.peer [] hf.sees_peer.1
    rw [hp, show ThreadPhase.resume c.peer [] (.received request) = readBody c.peer request [] from rfl,
      readBody_eq_resume, hcheck] at hread
    refine ⟨Halt.noConfusion, ?_⟩
    rw [handleClientConnection, hread]
    rfl
  · have hread := hf.reads_answering hp hf.sees_peer
    rcases h with ⟨e, hroute, rfl⟩ | ⟨ops, hroute, hpipe, rfl⟩
    · refine ⟨Halt.noConfusion, ?_⟩
      rw [handleClientConnection_of_read hread, hroute]
    · refine ⟨Halt.noConfusion, ?_⟩
      rw [handleClientConnection_of_read hread, hroute]
      exact if_pos (hf.peer_brokenPipe hpipe)

/-- What the thread of a connection did to its socket is what its handler returns. -/
theorem Faithful.returns (hf : c.Faithful lib) {ops : List SocketOp} (h : c.phase = .closed ops) :
    ∃ nowMs, ∀ peer segments, c.Sees peer segments → peer.brokenPipe = false →
      handleClientConnection lib nowMs peer = .ok ops := by
  obtain ⟨-, -, request, nowMs, hreads, hroute⟩ := hf.closed ops h
  refine ⟨nowMs, fun peer segments hsees hpipe => ?_⟩
  exact handleClientConnection_eq_ok.mpr ⟨request, hreads peer segments hsees, hroute, hpipe⟩

/-- The peer that the thread has had before it. -/
def seen (c : Connection) : Peer := ⟨c.segments, c.ended⟩

theorem sees_seen (c : Connection) : c.Sees c.seen [] :=
  ⟨(List.append_nil _).symm, fun hne => ⟨rfl, hne⟩⟩

theorem Faithful.seen_brokenPipe (hf : c.Faithful lib) {ops : List SocketOp} (h : c.phase = .closed ops) :
    c.seen.brokenPipe = false := by
  obtain ⟨hgone, hfailed, -⟩ := hf.closed ops h
  rw [Peer.brokenPipe, seen]
  dsimp only
  split
  · exact absurd ‹_› hgone
  · exact absurd ‹_› hfailed
  · rfl

end Connection

/-! ## Every run -/

/-- What holds of a new connection and is kept by whatever happens to it holds of every connection. -/
theorem connections_invariant {I : Connection → Prop} (hnew : I .new)
    (hmoves : ∀ c a c', I c → Connection.Moves lib c a c' → I c') (hp : (serveForever lib).Reachable p) :
    ∀ (k : ℕ) (c : Connection), p.connections[k]? = some c → I c := by
  refine System.ReachableVia.invariant (I := fun p => ∀ (k : ℕ) (c : Connection),
    p.connections[k]? = some c → I c) ?_ (fun p a q _ hi _ h => ?_) hp
  · rintro p rfl k c hk
    cases hk
  · obtain ⟨-, hs⟩ := Process.Step.of_step h
    intro k c hk
    cases hs with
    | accept =>
      rcases getElem?_append_singleton hk with ⟨-, rfl⟩ | hk
      · exact hnew
      · exact hi k c hk
    | move _ hk' hc =>
      rcases getElem?_set_eq_some hk with ⟨-, rfl⟩ | ⟨-, hk⟩
      · exact hmoves _ _ _ (hi _ _ hk') hc
      · exact hi k c hk
    | kill => exact hi k c hk

theorem faithful_of_reachable (hp : (serveForever lib).Reachable p) :
    ∀ (k : ℕ) (c : Connection), p.connections[k]? = some c → c.Faithful lib :=
  connections_invariant (.new lib) (fun _ _ _ hf h => hf.moves h) hp

/-- The process was ended by the handler of one of its connections. -/
theorem killed_of_reachable (hp : (serveForever lib).Reachable p) {k : ℕ} {halt : Halt}
    (hkilled : p.killed = some (k, halt)) :
    ∃ c nowMs, p.connections[k]? = some c ∧ halt ≠ .blocked ∧
      handleClientConnection lib nowMs c.peer = .error halt := by
  cases hp with
  | init h =>
    cases h
    cases hkilled
  | step hq _ h =>
    obtain ⟨hnone, hs⟩ := Process.Step.of_step h
    cases hs with
    | accept | move =>
      -- Before this step the process was alive, and this step does not end it.
      cases hnone.symm.trans hkilled
    | kill hk hc =>
      cases hkilled
      exact ⟨_, _, hk, (faithful_of_reachable hq k _ hk).halts hc⟩

/-! ## Main results -/

/-- However the threads and their peers take turns, each connection is answered as if it were alone: what its
thread did to the socket is what `handle_client_connection` returns on what the peer sent, up to where the
thread stopped reading. And if the process has ended, one of these calls threw or was sent the signal. -/
theorem served_alone (lib : StdFloat) (hp : (serveForever lib).Reachable p) :
    (∀ (k : ℕ) (c : Connection) (ops : List SocketOp), p.connections[k]? = some c → c.phase = .closed ops →
      received c.segments <+: c.stream ∧
        ∃ nowMs, handleClientConnection lib nowMs ⟨c.segments, c.ended⟩ = .ok ops) ∧
    ∀ (k : ℕ) (halt : Halt), p.killed = some (k, halt) →
      ∃ c, p.connections[k]? = some c ∧ received c.segments <+: c.stream ∧ halt ≠ .blocked ∧
        ∃ nowMs, handleClientConnection lib nowMs ⟨c.segments, c.ending⟩ = .error halt := by
  refine ⟨fun k c ops hk hops => ⟨c.received_prefix, ?_⟩, fun k halt hkilled => ?_⟩
  · have hfaithful := faithful_of_reachable hp k c hk
    obtain ⟨nowMs, hreturns⟩ := hfaithful.returns hops
    exact ⟨nowMs, hreturns _ _ c.sees_seen (hfaithful.seen_brokenPipe hops)⟩
  · obtain ⟨c, nowMs, hk, hblocked, hhalts⟩ := killed_of_reachable hp hkilled
    exact ⟨c, hk, c.received_prefix, hblocked, nowMs, hhalts⟩

/-- A health check that is answered while an inference request is read whose `max_tokens` overflows. -/
def overflowRun : List CoreAction :=
  [.accept, .accept, .arrive 1 overflowingSegment.data, .recv 1 30,
    .arrive 0 (bytes "GET /health HTTP/1.1\r\n\r\n"), .recv 0 24, .compute 0 7, .recv 1 147, .compute 0 7,
    .compute 1 7, .compute 1 7]

/-- What the first connection did and what ended the process. -/
def Process.outcome (p : Process) : Option (List SocketOp) × Option (ℕ × Halt) :=
  ((p.connections[0]?).bind fun c =>
    match c.phase with
    | .closed ops => some ops
    | _ => none, p.killed)

/-- The health check is answered, and then the other connection ends the process. -/
theorem served_alone_overflow :
    ∃ p c ops, (serveForever noFloat).Reachable p ∧ p.connections[0]? = some c ∧ c.phase = .closed ops ∧
      p.killed = some (1, .exception (.outOfRange "stoi")) ∧
      ∃ nowMs, handleClientConnection noFloat nowMs ⟨c.segments, c.ended⟩ = .ok ops := by
  have hinit : (serveForever noFloat).Reachable {} := .init rfl
  obtain ⟨p, hp, hdone, hkilled⟩ := hinit.exists_of_run
    (fun p => p.outcome.1.isSome = true ∧ p.outcome.2 = some (1, .exception (.outOfRange "stoi"))) overflowRun
    (by decide +kernel)
  obtain ⟨ops, hops⟩ := Option.isSome_iff_exists.mp hdone
  obtain ⟨c, hk, hc⟩ := Option.bind_eq_some_iff.mp hops
  have hphase : c.phase = .closed ops := by
    split at hc
    · rename_i ops' hphase
      cases hc
      exact hphase
    · cases hc
  exact ⟨p, c, ops, hp, hk, hphase, hkilled, ((served_alone noFloat hp).1 0 c ops hk hphase).2⟩

end InferenceGateway.Core
