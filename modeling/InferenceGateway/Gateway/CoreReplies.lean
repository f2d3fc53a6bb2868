import InferenceGateway.Common.JsonFields
import InferenceGateway.Gateway.RegistrySync
import InferenceGateway.Gateway.RoundTrips

/-! # What the gateway reads of a reply

Reference: the `Deserialize` of `InferResponse`, of the `LlamaChat*` structs and of the `LlamaModel*` structs in
`main.rs`.

Only the fields that the gateway reuses are declared, and the rest of the JSON is ignored. So two replies with
the same declared members lead to the same result, however the other members, the order and the layout differ,
and what a core adds to its replies is noticed neither by a client nor by the registry.
-/

namespace InferenceGateway.Gateway

open Common

/-! ## Reading the replies of llama-server -/

section Picks

variable {picks : List Pick}

variable {α : Type} {decode : Json → Option α} {f : Json → Json}

end Picks

/-! ### Of each struct -/

/-- The JSON value of a body. -/
def jsonBody (body : List UInt8) : Option Json := (fromUtf8 body).bind Json.parse

section Bodies

variable {α : Type} {decode : Json → Option α} {picks : List Pick}

/-- `response.json()`, with the text of the error for a body that is not read. -/
def readBody (decode : Json → Option α) (errorText : List UInt8 → String) (body : List UInt8) : Except String α :=
  match (jsonBody body).bind decode with
  | some value => .ok value
  | none => .error (errorText body)

end Bodies

/-- A reply with another body. -/
def CoreReply.withBody (f : List UInt8 → List UInt8) : CoreReply → CoreReply
  | .sendFailed err => .sendFailed err
  | .response r => .response { r with bytes := r.bytes.map f }

/-- A worker without the reply it got. -/
def Worker.unreplied (w : Worker) : Worker := { w with coreReply := none }

/-- The gateway without the replies, of which only the results are used. -/
def State.unreplied (s : State) : State := { s with workers := s.workers.map Worker.unreplied }

variable {cfg : Config}

/-- The sync task without the round it came from. -/
def SyncPhase.unreplied : SyncPhase → SyncPhase
  | .fetching => .fetching
  | .locking _ next => .locking none next
  | .locked _ next => .locked none next
  | .halfway _ next => .halfway none next
  | .assigned _ => .assigned none

/-- The registry without the rounds, of which only the fetched models are used. -/
def RegistryState.unreplied (s : RegistryState) : RegistryState :=
  { s with
    sync := s.sync.unreplied
    rounds := s.rounds.map fun _ => none }

section Registry

variable {decode : List UInt8 → Except String LlamaModelsResponse} {errorText : List UInt8 → String}

@[simp] theorem SyncPhase.unreplied_unreplied (phase : SyncPhase) : phase.unreplied.unreplied = phase.unreplied := by
  cases phase <;> rfl

end Registry

end InferenceGateway.Gateway
