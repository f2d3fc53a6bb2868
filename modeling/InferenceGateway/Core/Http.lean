import InferenceGateway.Core.Infer

/-! # A connection of the inference core

Reference: `read_available_data`, `read_http_request`, `send_response` and `handle_client_connection` in
`inference_core.cpp`.

A peer is the sequence of what successive `recv` calls find, followed by the end of the stream. A
segment has at most 4096 bytes, the size of the buffer, so only a `recv` that asks for fewer bytes can
leave a part of it behind.

The handler does not look at the result of the one `send` of its response. But `send` gets no
`MSG_NOSIGNAL` and nothing handles `SIGPIPE`, so it ends the process where it raises that signal.
-/

namespace InferenceGateway.Core

open Common

/-! ## The peer -/

/-- What one `recv` finds. -/
structure Segment where
  data : StdString
  pos : 0 < data.length
  le : data.length ≤ 4096

/-- How a stream ends. -/
inductive PeerEnd
  /-- The peer closes its side and is there to read the response: `recv` returns 0. -/
  | closed
  /-- The peer closes its side and resets the connection before the response is sent: `recv` returns 0. -/
  | gone
  /-- The connection fails: `recv` returns -1. -/
  | failed
deriving DecidableEq, Repr

/-- The peer of a connection; without an `ending` it keeps the connection open and sends nothing more. -/
structure Peer where
  segments : List Segment
  ending : Option PeerEnd

/-- Why a connection handler does not return: an exception leaves it or `send` raises `SIGPIPE`, either of
which ends the process, or it waits in `recv`. -/
inductive Halt
  | exception (e : StdException)
  | sigpipe
  | blocked
deriving DecidableEq, Repr

/-- What a connection handler does to its socket. -/
inductive SocketOp
  | send (response : StdString)
  | close
deriving DecidableEq, Repr

/-- An exception is not caught. -/
def uncaught {α : Type} (x : Throws α) : Except Halt α := x.mapError .exception

/-! ## Reading a request -/

/-- `\r\n`. -/
def crlf : StdString := bytes "\r\n"

/-- The end of a header block. -/
def headerEnd : StdString := bytes "\r\n\r\n"

/-- The first loop of `read_http_request`: the request so far, the segments left, and whether the loop
was left by a `break`. It runs out of segments otherwise. -/
def readHeader : StdString → List Segment → StdString × List Segment × Bool
  | request, [] => (request, [], false)
  | request, segment :: segments =>
    let request := request ++ segment.data
    if (find request headerEnd 0).isSome then (request, segments, true)
    else if request.length > 64 * 1024 then (request, segments, true)
    else readHeader request segments

/-- The loop of `read_available_data`; `none` when it runs out of segments. A segment that is longer
than the chunk asked for ends the loop, so the rest of it is not looked at again. -/
def readAvailableData (expectedBytes : ℕ) : StdString → List Segment → Option StdString
  | output, [] => if output.length < expectedBytes then none else some output
  | output, segment :: segments =>
    if output.length < expectedBytes then
      let chunkSize := min 4096 (expectedBytes - output.length)
      readAvailableData expectedBytes (output ++ segment.data.take chunkSize) segments
    else some output

/-- `recv` finds no segment. -/
def Peer.atEnd {α : Type} (peer : Peer) (result : α) : Except Halt α :=
  match peer.ending with
  | none => .error .blocked
  | some _ => .ok result

/-- The part of `read_http_request` behind the first loop, which left `segments` to read. -/
def readBody (peer : Peer) (request : StdString) (segments : List Segment) : Except Halt StdString := do
  let header ← uncaught (substr request 0 (find request headerEnd 0))
  let contentLengthHeader := bytes "Content-Length:"
  match find header contentLengthHeader 0 with
  | none => return request
  | some position =>
    let valueStart := position + contentLengthHeader.length
    let valueEnd := find header crlf valueStart
    let value ← uncaught (substr header valueStart (valueEnd.map (· - valueStart)))
    let lengthValue ← uncaught (trim value)
    let contentLength ← uncaught (stoul lengthValue)
    match find request headerEnd 0 with
    | none => return request
    | some bodyStart =>
      let existingBody ← uncaught (substr request (bodyStart + 4) none)
      if existingBody.length < contentLength then
        match readAvailableData (contentLength - existingBody.length) [] segments with
        | some rest => return request ++ rest
        | none => peer.atEnd request
      else return request

/-- `read_http_request`. -/
def readHttpRequest (peer : Peer) : Except Halt StdString :=
  match readHeader [] peer.segments with
  | (request, _, false) => peer.atEnd request
  | (request, segments, true) => readBody peer request segments

/-! ## Answering it -/

/-- The response that `send_response` sends. -/
def response (statusLine payload : StdString) : StdString :=
  statusLine ++ bytes "Content-Type: application/json\r\n"
    ++ bytes "Content-Length: " ++ decimal payload.length ++ bytes "\r\n"
    ++ bytes "Connection: close\r\n\r\n" ++ payload

/-- `iss >> word`: the next word and the rest of the stream. -/
def extractWord (stream : StdString) : StdString × StdString :=
  let stream := stream.dropWhile isspace
  (stream.takeWhile fun c => !isspace c, stream.dropWhile fun c => !isspace c)

/-- Send a response and close the socket, as every branch of `handle_client_connection` ends. -/
def reply (statusLine payload : StdString) : List SocketOp :=
  [.send (response statusLine payload), .close]

/-- The part of `handle_client_connection` behind the reading. -/
def route (lib : StdFloat) (nowMs : ℤ) (request : StdString) : Throws (List SocketOp) := do
  if request.isEmpty then
    return reply (bytes "HTTP/1.1 400 Bad Request\r\n") (buildErrorJson (bytes "empty request") 400)
  let requestLine ← substr request 0 (find request crlf 0)
  let (method, rest) := extractWord requestLine
  let (path, _) := extractWord rest
  if method = bytes "GET" ∧ path = bytes "/health" then
    return reply (bytes "HTTP/1.1 200 OK\r\n")
      (bytes "\x7b\"status\":\"healthy\",\"engine\":\"c++-cuda-ready\"\x7d")
  if method = bytes "POST" ∧ path = bytes "/infer" then
    match find request headerEnd 0 with
    | none =>
      return reply (bytes "HTTP/1.1 400 Bad Request\r\n") (buildErrorJson (bytes "missing body") 400)
    | some bodyStart =>
      let body ← substr request (bodyStart + 4) none
      let requestDetails ← parseRequestBody lib body
      return reply (bytes "HTTP/1.1 200 OK\r\n") (buildInferenceJson lib nowMs requestDetails)
  return reply (bytes "HTTP/1.1 404 Not Found\r\n") (buildErrorJson (bytes "route not found") 404)

/-- The reader calls `recv` again behind the last segment: with a peer that stays silent it would wait. -/
def Peer.meetsEnd (peer : Peer) : Bool := readHttpRequest { peer with ending := none } = .error .blocked

/-- The `send` of the response raises `SIGPIPE`: the connection was reset behind the close of the peer, or a
`recv` has reported that it failed. A failure that no `recv` has reported yet is only returned by `send`. -/
def Peer.brokenPipe (peer : Peer) : Bool :=
  match peer.ending with
  | some .gone => true
  | some .failed => peer.meetsEnd
  | _ => false

/-- `handle_client_connection`: what it does to the socket, if it returns. -/
def handleClientConnection (lib : StdFloat) (nowMs : ℤ) (peer : Peer) : Except Halt (List SocketOp) := do
  let request ← readHttpRequest peer
  let ops ← uncaught (route lib nowMs request)
  if peer.brokenPipe then .error .sigpipe else return ops

end InferenceGateway.Core
