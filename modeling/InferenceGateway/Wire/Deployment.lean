import InferenceGateway.Common.Refinement
import InferenceGateway.Core.Responses
import InferenceGateway.Core.ServerProgress
import InferenceGateway.Gateway.Correlation
import InferenceGateway.Wire.Replies

/-! # The gateway in front of the core

Reference: `call_infer_protocol` in `main.rs`; `serve_forever` and `handle_client_connection` in
`inference_core.cpp`.

Each call of a worker goes over a connection of its own. `reqwest` writes the request in whatever portions,
the thread that the core starts for the connection reads it and answers, and what `reqwest` makes of the
answer is what the call returns. Otherwise the two processes take their steps on their own; a call may fail on
the way, and anyone else may connect to the core as well.

Each process by itself runs here as it runs in any environment (`gatewaySide`, `coreSide`), so that what holds
in every run of the one or of the other holds of the pair.
-/

namespace InferenceGateway.Wire

open Common InferenceGateway.Core Gateway

/-! ## The connection between the two -/

/-- A call of the core in the infer protocol: the worker that makes it, the request, and the message that
carries the request. The message is a `POST /infer` that announces, in the spelling that the core looks for,
no more than its body. -/
structure Exchange (printer : F32Printer) where
  worker : ℕ
  request : InferRequest
  message : FramedRequest
  announced : ℕ
  carries : message.body = inferRequestBody printer request
  infer : IsInfer message.head
  announces : announcedLength message.block = .ok announced
  announced_le : announced ≤ message.body.length

/-- What `reqwest` makes of a response: of a response of the core, its payload. -/
structure ResponseReader where
  read : StdString → CoreReply
  body_eq : ∀ {statusLine payload : StdString} {r : CoreHttpResponse} {body : List UInt8},
    StatusLine statusLine → read (response (statusLine ++ crlf) payload) = .response r →
      r.bytes = .ok body → body = payload

/-- The call failed before there was a body. -/
def CoreReply.lacksBody : CoreReply → Bool
  | .sendFailed _ => true
  | .response r => !r.bytes.isOk

/-- The gateway needs no response of the core for the step. -/
def Action.isOwn : Action → Bool
  | .worker _ (.coreReturns reply) => CoreReply.lacksBody reply
  | _ => true

/-- What the peer of a connection can read from it, as long as it is there. -/
def Connection.sent (c : Connection) : Option StdString :=
  match c.ending, c.phase with
  | none, .closed (.send sent :: _) => some sent
  | _, _ => none

/-! ## The pair as a transition system -/

variable {printer : F32Printer}

/-- The two processes. -/
structure Deployment (printer : F32Printer) where
  state : State
  process : Process := {}
  /-- For each connection of the core the call that it was made for, or `none` if it is somebody else's. -/
  exchanges : List (Option (Exchange printer)) := []

/-- A step of one process, or of both at an end of a connection. -/
inductive DeploymentAction (printer : F32Printer)
  | gateway (a : Action)
  | core (a : CoreAction)
  /-- Somebody else connects to the core. -/
  | visit
  /-- The HTTP client of the gateway connects to the core for a call. -/
  | connect (x : Exchange printer)
  /-- The next bytes of the message of a call arrive. -/
  | send (k n : ℕ)
  /-- A call returns what was read from its connection. -/
  | respond (k : ℕ)

namespace Deployment

/-- The call that connection `k` was made for, and the connection. -/
def exchangeAt (d : Deployment printer) (k : ℕ) : Option (Exchange printer × Connection) :=
  d.exchanges[k]?.join.bind fun x => (d.process.connections[k]?).map fun c => (x, c)

/-- The worker of the call is inside `call_infer_protocol`, with this request. -/
def calls (d : Deployment printer) (x : Exchange printer) : Bool :=
  (d.state.workers[x.worker]?).any fun w =>
    (w.phase matches .calling) && decide (w.job.request = x.request)

/-- The step of the core is not one of the gateway's connections being used. -/
def isForeign (d : Deployment printer) : CoreAction → Bool
  | .accept => false
  | .arrive k _ => (d.exchanges[k]? matches some none)
  | _ => true

/-- The next `n` bytes of the message of a call. -/
def portion (x : Exchange printer) (c : Connection) (n : ℕ) : StdString :=
  (x.message.stream.drop c.stream.length).take n

variable (cfg : Config) (lib : StdFloat) (reader : ResponseReader)

/-- One step of the pair. -/
def step (d : Deployment printer) : DeploymentAction printer → Option (Deployment printer)
  | .gateway a =>
    if Action.isOwn a then ((gateway cfg).step d.state a).map fun s => { d with state := s } else none
  | .core a =>
    if d.isForeign a then ((serveForever lib).step d.process a).map fun p => { d with process := p } else none
  | .visit =>
    ((serveForever lib).step d.process .accept).map fun p =>
      { d with process := p, exchanges := d.exchanges ++ [none] }
  | .connect x =>
    if d.calls x then
      ((serveForever lib).step d.process .accept).map fun p =>
        { d with process := p, exchanges := d.exchanges ++ [some x] }
    else none
  | .send k n =>
    (d.exchangeAt k).bind fun (x, c) =>
      ((serveForever lib).step d.process (.arrive k (portion x c n))).map fun p => { d with process := p }
  | .respond k =>
    (d.exchangeAt k).bind fun (x, c) =>
      (Connection.sent c).bind fun sent =>
        ((gateway cfg).step d.state (.worker x.worker (.coreReturns (reader.read sent)))).map fun s =>
          { d with state := s }

end Deployment

/-- The gateway and the core. -/
def deployment (printer : F32Printer) (cfg : Config) (lib : StdFloat) (reader : ResponseReader) :
    System (Deployment printer) (DeploymentAction printer) where
  init d := d = { state := initState cfg }
  step := Deployment.step cfg lib reader

/-! ## One step -/

/-- The transitions of the pair. -/
inductive Deployment.Step (cfg : Config) (lib : StdFloat) (reader : ResponseReader) (d : Deployment printer) :
    DeploymentAction printer → Deployment printer → Prop
  | gateway {a : Action} {s : State} (ha : Action.isOwn a = true)
      (h : (gateway cfg).step d.state a = some s) : Step cfg lib reader d (.gateway a) { d with state := s }
  | core {a : CoreAction} {p : Process} (ha : d.isForeign a = true)
      (h : (serveForever lib).step d.process a = some p) :
      Step cfg lib reader d (.core a) { d with process := p }
  | visit {p : Process} (h : (serveForever lib).step d.process .accept = some p) :
      Step cfg lib reader d .visit { d with process := p, exchanges := d.exchanges ++ [none] }
  | connect {x : Exchange printer} {w : Worker} {p : Process} (hj : d.state.workers[x.worker]? = some w)
      (hp : w.phase = .calling) (hreq : w.job.request = x.request)
      (h : (serveForever lib).step d.process .accept = some p) :
      Step cfg lib reader d (.connect x) { d with process := p, exchanges := d.exchanges ++ [some x] }
  | send {k n : ℕ} {x : Exchange printer} {c : Connection} {p : Process}
      (hx : d.exchanges[k]? = some (some x)) (hk : d.process.connections[k]? = some c)
      (h : (serveForever lib).step d.process (.arrive k (Deployment.portion x c n)) = some p) :
      Step cfg lib reader d (.send k n) { d with process := p }
  | respond {k : ℕ} {x : Exchange printer} {c : Connection} {sent : StdString} {s : State}
      (hx : d.exchanges[k]? = some (some x)) (hk : d.process.connections[k]? = some c)
      (hsent : Connection.sent c = some sent)
      (h : (gateway cfg).step d.state (.worker x.worker (.coreReturns (reader.read sent))) = some s) :
      Step cfg lib reader d (.respond k) { d with state := s }

variable {cfg : Config} {lib : StdFloat} {reader : ResponseReader} {d e : Deployment printer}

theorem Deployment.exchangeAt_eq_some {k : ℕ} {x : Exchange printer} {c : Connection}
    (h : d.exchangeAt k = some (x, c)) :
    d.exchanges[k]? = some (some x) ∧ d.process.connections[k]? = some c := by
  obtain ⟨y, hx, h⟩ := Option.bind_eq_some_iff.mp h
  obtain ⟨c', hk, h⟩ := Option.map_eq_some_iff.mp h
  cases h
  exact ⟨Option.join_eq_some_iff.mp hx, hk⟩

theorem Deployment.exists_of_calls {x : Exchange printer} (h : d.calls x = true) :
    ∃ w, d.state.workers[x.worker]? = some w ∧ w.phase = .calling ∧ w.job.request = x.request := by
  obtain ⟨hsome, hw⟩ := (Option.any_eq_true_iff_get _ _).mp h
  obtain ⟨hcalling, hrequest⟩ := Bool.and_eq_true_iff.mp hw
  refine ⟨_, Option.eq_some_of_isSome hsome, ?_, of_decide_eq_true hrequest⟩
  split at hcalling
  · assumption
  · cases hcalling

theorem Deployment.Step.of_step {a : DeploymentAction printer}
    (h : (deployment printer cfg lib reader).step d a = some e) : Deployment.Step cfg lib reader d a e := by
  cases a with
  | gateway a =>
    obtain ⟨ha, h⟩ := Option.ite_none_right_eq_some.mp h
    obtain ⟨s, hs, rfl⟩ := Option.map_eq_some_iff.mp h
    exact .gateway ha hs
  | core a =>
    obtain ⟨ha, h⟩ := Option.ite_none_right_eq_some.mp h
    obtain ⟨p, hp, rfl⟩ := Option.map_eq_some_iff.mp h
    exact .core ha hp
  | visit =>
    obtain ⟨p, hp, rfl⟩ := Option.map_eq_some_iff.mp h
    exact .visit hp
  | connect x =>
    obtain ⟨hx, h⟩ := Option.ite_none_right_eq_some.mp h
    obtain ⟨p, hp, rfl⟩ := Option.map_eq_some_iff.mp h
    obtain ⟨w, hj, hphase, hreq⟩ := Deployment.exists_of_calls hx
    exact .connect hj hphase hreq hp
  | send k n =>
    obtain ⟨⟨x, c⟩, hxc, h⟩ := Option.bind_eq_some_iff.mp h
    obtain ⟨p, hp, rfl⟩ := Option.map_eq_some_iff.mp h
    obtain ⟨hx, hk⟩ := Deployment.exchangeAt_eq_some hxc
    exact .send hx hk hp
  | respond k =>
    obtain ⟨⟨x, c⟩, hxc, h⟩ := Option.bind_eq_some_iff.mp h
    obtain ⟨sent, hsent, h⟩ := Option.bind_eq_some_iff.mp h
    obtain ⟨s, hs, rfl⟩ := Option.map_eq_some_iff.mp h
    obtain ⟨hx, hk⟩ := Deployment.exchangeAt_eq_some hxc
    exact .respond hx hk hsent hs

/-! ## Each process by itself -/

/-- The steps of the gateway that a step of the pair consists of. -/
def Deployment.gatewayActions (reader : ResponseReader) (d : Deployment printer) :
    DeploymentAction printer → List Action
  | .gateway a => [a]
  | .respond k =>
    (d.exchangeAt k).toList.flatMap fun (x, c) =>
      (Connection.sent c).toList.map fun sent => .worker x.worker (.coreReturns (reader.read sent))
  | _ => []

/-- The steps of the core that a step of the pair consists of. -/
def Deployment.coreActions (d : Deployment printer) : DeploymentAction printer → List CoreAction
  | .core a => [a]
  | .visit => [.accept]
  | .connect _ => [.accept]
  | .send k n => (d.exchangeAt k).toList.map fun (x, c) => .arrive k (Deployment.portion x c n)
  | _ => []

/-- The gateway runs as in any environment. -/
def gatewaySide (printer : F32Printer) (cfg : Config) (lib : StdFloat) (reader : ResponseReader) :
    Simulation (deployment printer cfg lib reader) (gateway cfg) where
  rel d s := d.state = s
  act := Deployment.gatewayActions reader
  init := by
    rintro d rfl
    exact ⟨_, rfl, rfl⟩
  step := by
    rintro d s a e - rfl h
    have hone {a : Action} {t : State} (ht : (gateway cfg).step d.state a = some t) :
        ∃ s, (gateway cfg).run d.state [a] = some s ∧ t = s :=
      ⟨t, by rw [System.run_cons, ht]; rfl, rfl⟩
    cases Deployment.Step.of_step h with
    | gateway ha hs => exact hone hs
    | core | visit | connect | send => exact ⟨_, rfl, rfl⟩
    | @respond k x c sent s hx hk hsent hs =>
      have hact : Deployment.gatewayActions reader d (.respond k) =
          [.worker x.worker (.coreReturns (reader.read sent))] := by
        rw [Deployment.gatewayActions, Deployment.exchangeAt, hx, hk]
        show (Connection.sent c).toList.map _ ++ [] = _
        rw [hsent]
        rfl
      rw [hact]
      exact hone hs

/-- The core runs as in any environment. -/
def coreSide (printer : F32Printer) (cfg : Config) (lib : StdFloat) (reader : ResponseReader) :
    Simulation (deployment printer cfg lib reader) (serveForever lib) where
  rel d p := d.process = p
  act := Deployment.coreActions
  init := by
    rintro d rfl
    exact ⟨_, rfl, rfl⟩
  step := by
    rintro d p a e - rfl h
    have hone {a : CoreAction} {q : Process} (hq : (serveForever lib).step d.process a = some q) :
        ∃ p, (serveForever lib).run d.process [a] = some p ∧ q = p :=
      ⟨q, by rw [System.run_cons, hq]; rfl, rfl⟩
    cases Deployment.Step.of_step h with
    | gateway | respond => exact ⟨_, rfl, rfl⟩
    | core ha hp => exact hone hp
    | visit hp => exact hone hp
    | connect _ _ _ hp => exact hone hp
    | send hx hk hp =>
      rw [Deployment.coreActions, Deployment.exchangeAt, hx, hk]
      exact hone hp

theorem state_reachable (hd : (deployment printer cfg lib reader).Reachable d) :
    (gateway cfg).Reachable d.state := by
  obtain ⟨s, hs, rfl⟩ := (gatewaySide printer cfg lib reader).exists_reachable hd
  exact hs

theorem process_reachable (hd : (deployment printer cfg lib reader).Reachable d) :
    (serveForever lib).Reachable d.process := by
  obtain ⟨p, hp, rfl⟩ := (coreSide printer cfg lib reader).exists_reachable hd
  exact hp

/-! ## What links the two -/

/-- The core's answer to a call: the inference on the body of the call, or on a part of it that is at least as
long as announced. -/
def Exchange.Infers (lib : StdFloat) (x : Exchange printer) (payload : StdString) : Prop :=
  ∃ m nowMs details, x.announced ≤ m ∧
    parseRequestBody lib ((inferRequestBody printer x.request).take m) = .ok details ∧
    payload = buildInferenceJson lib nowMs details

/-- Connections carry the messages of their calls, and what a worker was told by the core is the core's answer
to one of its own calls. -/
structure Deployment.Linked (lib : StdFloat) (reader : ResponseReader) (d : Deployment printer) : Prop where
  length : d.exchanges.length = d.process.connections.length
  carried : ∀ (k : ℕ) (x : Exchange printer), d.exchanges[k]? = some (some x) →
    ∃ c, d.process.connections[k]? = some c ∧ c.stream <+: x.message.stream
  called : ∀ (k : ℕ) (x : Exchange printer), d.exchanges[k]? = some (some x) →
    ∃ w, d.state.workers[x.worker]? = some w ∧ w.job.request = x.request
  answered : ∀ (j : ℕ) (w : Worker) (reply : CoreReply), d.state.workers[j]? = some w →
    w.coreReply = some reply → CoreReply.lacksBody reply = true ∨
      ∃ (k : ℕ) (x : Exchange printer) (payload : StdString), d.exchanges[k]? = some (some x) ∧
        x.worker = j ∧ x.Infers lib payload ∧
        reply = reader.read (response (bytes "HTTP/1.1 200 OK\r\n") payload)

namespace Deployment

/-- A step of the gateway keeps the link, if what it tells a worker is in order. -/
theorem Linked.onState (hd : d.Linked lib reader) {s : State} {a : Action}
    (h : (gateway cfg).step d.state a = some s)
    (htold : ∀ j reply, a = .worker j (.coreReturns reply) → CoreReply.lacksBody reply = true ∨
      ∃ (k : ℕ) (x : Exchange printer) (payload : StdString), d.exchanges[k]? = some (some x) ∧
        x.worker = j ∧ x.Infers lib payload ∧
        reply = reader.read (response (bytes "HTTP/1.1 200 OK\r\n") payload)) :
    Linked lib reader { d with state := s } where
  length := hd.length
  carried := hd.carried
  called k x hx := by
    obtain ⟨w, hj, hreq⟩ := hd.called k x hx
    obtain ⟨w', hj', he⟩ := (step_eq_some_iff.mp h).workers_evolve x.worker w hj
    exact ⟨w', hj', by rw [he.job, hreq]⟩
  answered j w reply hj hreply := by
    obtain ⟨v, hv, -, hold | hnew⟩ := (step_eq_some_iff.mp h).coreReply hj hreply
    · exact hd.answered j v reply hv hold
    · exact htold j reply hnew

/-- A step of the core that brings a connection no more than its message keeps the link. -/
theorem Linked.onProcess (hd : d.Linked lib reader) {p : Process} {a : CoreAction} (ha : a ≠ .accept)
    (h : (serveForever lib).step d.process a = some p)
    (hsent : ∀ k x c data, d.exchanges[k]? = some (some x) → d.process.connections[k]? = some c →
      a = .arrive k data → c.stream ++ data <+: x.message.stream) :
    Linked lib reader { d with process := p } where
  length := hd.length.trans (length_of_step h ha).symm
  carried k x hx := by
    obtain ⟨c, hk, hprefix⟩ := hd.carried k x hx
    obtain ⟨c', hk', hstream, -⟩ := peer_of_step h hk
    refine ⟨c', hk', ?_⟩
    by_cases harrive : ∃ data, a = .arrive k data
    · obtain ⟨data, rfl⟩ := harrive
      rw [arrive_of_step h hk] at hk'
      cases hk'
      exact hsent k x c data hx hk rfl
    · rw [hstream fun data hdata => harrive ⟨data, hdata⟩]
      exact hprefix
  called := hd.called
  answered := hd.answered

/-- A new connection keeps the link, if it is made for the call of a worker or for somebody else. -/
theorem Linked.onAccept (hd : d.Linked lib reader) {p : Process}
    (h : (serveForever lib).step d.process .accept = some p) {new : Option (Exchange printer)}
    (hnew : ∀ x, new = some x → ∃ w, d.state.workers[x.worker]? = some w ∧ w.job.request = x.request) :
    Linked lib reader { d with process := p, exchanges := d.exchanges ++ [new] } := by
  have hadd : p.connections = d.process.connections ++ [.new] := accept_of_step h
  have hkeep {k : ℕ} {x : Exchange printer} (hx : d.exchanges[k]? = some (some x)) :
      (d.exchanges ++ [new])[k]? = some (some x) :=
    (List.getElem?_append_left (List.getElem?_eq_some_iff.mp hx).1).trans hx
  refine ⟨?_, fun k x hx => ?_, fun k x hx => ?_, fun j w reply hj hreply => ?_⟩
  · show (d.exchanges ++ [new]).length = p.connections.length
    rw [hadd, List.length_append, List.length_append, hd.length]
    rfl
  · rcases getElem?_append_singleton hx with ⟨rfl, -⟩ | hx
    · refine ⟨.new, ?_, List.nil_prefix⟩
      show p.connections[d.exchanges.length]? = _
      rw [hadd, hd.length, List.getElem?_concat_length]
    · obtain ⟨c, hk, hprefix⟩ := hd.carried k x hx
      obtain ⟨c', hk', hstream, -⟩ := peer_of_step h hk
      refine ⟨c', hk', ?_⟩
      rw [hstream fun data hdata => by cases hdata]
      exact hprefix
  · rcases getElem?_append_singleton hx with ⟨-, hx⟩ | hx
    · exact hnew x hx.symm
    · exact hd.called k x hx
  · refine (hd.answered j w reply hj hreply).imp_right ?_
    rintro ⟨k, x, payload, hx, hrest⟩
    exact ⟨k, x, payload, hkeep hx, hrest⟩

end Deployment

theorem sent_eq_some {c : Connection} {sent : StdString} (h : Connection.sent c = some sent) :
    c.ending = none ∧ ∃ rest, c.phase = .closed (.send sent :: rest) := by
  unfold Connection.sent at h
  split at h
  · rename_i hopen hphase
    cases h
    exact ⟨hopen, _, hphase⟩
  · cases h

/-- What the core sends on the connection of a call is its answer to the call. -/
theorem Exchange.infers_of_sent {p : Process} (hp : (serveForever lib).Reachable p) {k : ℕ} {c : Connection}
    (hk : p.connections[k]? = some c) {x : Exchange printer} (hcarried : c.stream <+: x.message.stream)
    {sent : StdString} (hsent : Connection.sent c = some sent) :
    ∃ payload, x.Infers lib payload ∧ sent = response (bytes "HTTP/1.1 200 OK\r\n") payload := by
  obtain ⟨hopen, rest, hclosed⟩ := sent_eq_some hsent
  obtain ⟨m, nowMs, details, hm, hparse, hops⟩ := x.message.ops_of_closed x.infer x.announces x.announced_le
    (faithful_of_reachable hp k c hk) hcarried (ended_of_open hp hk hopen) hclosed
  rw [x.carries] at hparse
  refine ⟨_, ⟨m, nowMs, details, hm, hparse, rfl⟩, ?_⟩
  have hsend := (List.cons.inj hops).1
  cases hsend
  rfl

theorem linked_of_reachable (hd : (deployment printer cfg lib reader).Reachable d) : d.Linked lib reader := by
  refine System.ReachableVia.invariant (I := Deployment.Linked lib reader) ?_ (fun d a e hr hi _ h => ?_) hd
  · rintro d rfl
    refine ⟨rfl, fun k x hx => ?_, fun k x hx => ?_, fun j w reply hj => ?_⟩
    · cases hx
    · cases hx
    · cases hj
  · cases Deployment.Step.of_step h with
    | gateway ha hs =>
      refine hi.onState hs fun j reply he => .inl ?_
      rw [he] at ha
      exact ha
    | @core a p ha hp =>
      refine hi.onProcess ?_ hp fun k x c data hx _ he => ?_
      · rintro rfl
        cases ha
      · -- A foreign arrival is on somebody else's connection.
        rw [he, Deployment.isForeign, hx] at ha
        cases ha
    | visit hp =>
      refine hi.onAccept hp fun x hx => ?_
      cases hx
    | connect hj _ hreq hp =>
      refine hi.onAccept hp fun x hx => ?_
      cases hx
      exact ⟨_, hj, hreq⟩
    | @send k n x c p hx hk hp =>
      refine hi.onProcess CoreAction.noConfusion hp fun k' x' c' data hx' hk' he => ?_
      cases he
      rw [hx] at hx'
      rw [hk] at hk'
      cases hx'
      cases hk'
      obtain ⟨c', hc', hcarried⟩ := hi.carried k x hx
      rw [hk] at hc'
      cases hc'
      -- The next bytes of the message stand behind those that have arrived.
      obtain ⟨missing, hmissing⟩ := hcarried
      rw [Deployment.portion, ← hmissing, List.drop_left, List.prefix_append_right_inj]
      exact List.take_prefix n missing
    | @respond k x c sent s hx hk hsent hs =>
      refine hi.onState hs fun j reply he => .inr ?_
      cases he
      obtain ⟨c', hc', hcarried⟩ := hi.carried k x hx
      rw [hk] at hc'
      cases hc'
      obtain ⟨payload, hinfers, rfl⟩ := Exchange.infers_of_sent (process_reachable hr) hk hcarried hsent
      exact ⟨k, x, payload, hx, rfl, hinfers, rfl⟩

end InferenceGateway.Wire
