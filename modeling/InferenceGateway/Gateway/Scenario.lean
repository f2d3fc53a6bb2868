import InferenceGateway.Gateway.Steps

/-! # Building concrete runs

A small configuration and the action lists of the usual stretches of a run, for the concrete runs that
accompany the theorems about all runs.
-/

namespace InferenceGateway.Gateway

open Common

/-- The lower-case hexadecimal digit of a nibble. -/
def hexNibble (n : ℕ) : Char := Nat.digitChar n

/-- The hyphenated form of a UUID, as its `Display` prints it. -/
def canonicalUuid (u : Uuid) : String :=
  let digits := (List.range 32).map fun k => hexNibble ((u.toNat >>> (4 * (31 - k))) % 16)
  String.ofList (digits.take 8 ++ '-' :: (digits.drop 8).take 4 ++ '-' :: (digits.drop 12).take 4
    ++ '-' :: (digits.drop 16).take 4 ++ '-' :: digits.drop 20)

/-- A gateway with a queue of four places. No request of the runs below carries an `x-request-id`
header, so no UUID is ever parsed. -/
def scenarioConfig (minWorkers maxConcurrency : ℕ) (protocol : CoreProtocol)
    (decoder : CoreDecoder) : Config where
  minWorkers := minWorkers
  maxConcurrency := maxConcurrency
  queueCapacity := 4
  requestTimeoutSecs := 10
  coreProtocol := protocol
  uuid := { parseStr := fun _ => none, toString := canonicalUuid }
  decoder := decoder

/-- A decoder for runs in which the core never answers. -/
def silentDecoder : CoreDecoder where
  inferResponse _ := .error "EOF while parsing a value at line 1 column 0"
  llamaChatResponse _ := .error "EOF while parsing a value at line 1 column 0"

/-- An HTTP request for a model of the static registry. -/
def httpCall : InferCall :=
  .http
    { xRequestId := none
      payload := { model := "llama-7b", input := "Hello world", options := none, requestId := none } }

/-- The same request over gRPC. -/
def grpcCall : InferCall :=
  .grpc { model := "llama-7b", input := "Hello world", options := none, requestId := "" }

/-- A request arrives as handler `i` and gets as far as `try_send`. -/
def submit (i : ℕ) (call : InferCall) : List Action :=
  [.arrive call, .handler i (.validate (BitVec.ofNat 128 i)), .handler i .trySend]

/-- Handler `i` performs `n` operations of its metrics update. -/
def recordOps (i n : ℕ) : List Action := List.replicate n (.handler i .record)

/-- The dispatcher takes `n` steps; one round of its loop has seven. -/
def dispatch (n : ℕ) : List Action := List.replicate n .dispatcher

/-- Worker `j` calls the core, delivers the result and ends. -/
def serve (j : ℕ) (reply : CoreReply) : List Action :=
  [.worker j .start, .worker j (.coreReturns reply), .worker j .deliver, .worker j .release]

theorem reachable_init (cfg : Config) : (gateway cfg).Reachable (initState cfg) := .init rfl

theorem reachableVia_init (cfg : Config) {G : State → Action → Prop} :
    (gateway cfg).ReachableVia G (initState cfg) := .init rfl

end InferenceGateway.Gateway
