import InferenceGateway.Core.Http

/-! # How a request is framed

`read_http_request` has two loops. The first collects segments until the header block is complete; it
stops in the middle of the stream, so part of the body may have arrived already. The second asks for the
bytes that are still missing. What the two return together depends on how the stream is cut into segments
through one number only: how many bytes of the body come with the segment that ends the header block.
-/

namespace InferenceGateway.Core

open Common

/-! ## Behind the header block -/

/-- The header block of a request. -/
def headerBlock (request : StdString) : StdString := before headerEnd request

/-- The text that stands for the length in the first `Content-Length:` of the header block. -/
def contentLengthText (request : StdString) : Option StdString :=
  (after (bytes "Content-Length:") (headerBlock request)).map fun rest => trimmed (before crlf rest)

/-- The request with the body bytes that the header announces, if all of them arrive. -/
def withBody (request : StdString) (contentLength : ℕ) (segments : List Segment) : StdString :=
  match after headerEnd request with
  | none => request
  | some existingBody =>
    if existingBody.length < contentLength then
      match readAvailableData (contentLength - existingBody.length) [] segments with
      | some rest => request ++ rest
      | none => request
    else request

/-- What `read_http_request` does once it knows the length of the body. -/
def completeBody (peer : Peer) (request : StdString) (contentLength : ℕ) (segments : List Segment) :
    Except Halt StdString :=
  match after headerEnd request with
  | none => .ok request
  | some existingBody =>
    if existingBody.length < contentLength then
      match readAvailableData (contentLength - existingBody.length) [] segments with
      | some rest => .ok (request ++ rest)
      | none => peer.atEnd request
    else .ok request

theorem completeBody_eq_withBody {peer : Peer} {e : PeerEnd} (he : peer.ending = some e)
    (request : StdString) (contentLength : ℕ) (segments : List Segment) :
    completeBody peer request contentLength segments =
      .ok (withBody request contentLength segments) := by
  have hend : peer.atEnd request = .ok request := by rw [Peer.atEnd, he]
  unfold completeBody withBody
  cases after headerEnd request with
  | none => rfl
  | some existingBody =>
    dsimp only
    split_ifs
    · cases readAvailableData (contentLength - existingBody.length) [] segments with
      | none => exact hend
      | some rest => rfl
    · rfl

/-- Behind the first loop, the positions are in range: only the conversion of the length may throw. -/
theorem readBody_eq_completeBody (peer : Peer) (request : StdString) (segments : List Segment) :
    readBody peer request segments =
      match contentLengthText request with
      | none => .ok request
      | some text =>
        uncaught (stoul text) >>= fun n => completeBody peer request n segments := by
  rw [readBody, substr_before, contentLengthText, headerBlock, after]
  simp only [uncaught, Except.mapError, bind, Except.bind]
  rw [find_zero]
  cases hpos : indexOf (bytes "Content-Length:") (before headerEnd request) with
  | none => rfl
  | some position =>
    have hle := add_length_le_of_indexOf_eq_some hpos
    dsimp only [Option.map_some]
    rw [substr_find crlf hle]
    dsimp only
    rw [trim_eq]
    dsimp only
    cases stoul (trimmed (before crlf ((before headerEnd request).drop
        (position + (bytes "Content-Length:").length)))) with
    | error e => rfl
    | ok n =>
      -- The length is known; the rest only reads the body.
      dsimp only
      unfold completeBody
      cases hbody : find request headerEnd 0 with
      | none =>
        rw [find_zero] at hbody
        rw [after, hbody]
        rfl
      | some i =>
        obtain ⟨existingBody, hafter, hsub⟩ := substr_after hbody
        rw [hafter]
        dsimp only
        rw [show i + 4 = i + headerEnd.length from rfl, hsub]
        dsimp only
        split_ifs
        · cases readAvailableData (n - existingBody.length) [] segments with
          | none => rfl
          | some rest => rfl
        · rfl

/-- From a stream that ends, the request is read as far as it arrives. -/
theorem readBody_eq {peer : Peer} {e : PeerEnd} (he : peer.ending = some e) (request : StdString)
    (segments : List Segment) :
    readBody peer request segments =
      match contentLengthText request with
      | none => .ok request
      | some text => (uncaught (stoul text)).map fun n => withBody request n segments := by
  rw [readBody_eq_completeBody]
  simp only [completeBody_eq_withBody he]
  cases contentLengthText request with
  | none => rfl
  | some text => cases stoul text <;> rfl

/-! ## Segments -/

/-- The bytes that successive `recv` calls find. -/
def received (segments : List Segment) : StdString := segments.flatMap (·.data)

/-- How many bytes come behind position `n` in the segment that reaches it. -/
def arrivedBehind (n : ℕ) : List Segment → ℕ
  | [] => 0
  | segment :: segments =>
    if n ≤ segment.data.length then segment.data.length - n
    else arrivedBehind (n - segment.data.length) segments

theorem arrivedBehind_le (n : ℕ) (segments : List Segment) :
    arrivedBehind n segments ≤ (received segments).length - n := by
  induction segments generalizing n with
  | nil => exact Nat.zero_le _
  | cons segment segments ih =>
    have hlen : (received (segment :: segments)).length =
        segment.data.length + (received segments).length := List.length_append
    rw [arrivedBehind, hlen]
    split
    · omega
    · have := ih (n - segment.data.length)
      omega

/-- The second loop takes the bytes it is asked for, as soon as they have arrived. -/
theorem readAvailableData_eq (expectedBytes : ℕ) (output : StdString) (segments : List Segment) :
    readAvailableData expectedBytes output segments =
      if expectedBytes ≤ output.length + (received segments).length then
        some (output ++ (received segments).take (expectedBytes - output.length))
      else none := by
  induction segments generalizing output with
  | nil =>
    rw [readAvailableData]
    by_cases h : output.length < expectedBytes
    · rw [if_pos h, if_neg (by simpa [received] using h)]
    · rw [if_neg h, if_pos (by omega)]
      simp [received]
  | cons segment segments ih =>
    rw [readAvailableData]
    have hreceived : received (segment :: segments) = segment.data ++ received segments := rfl
    by_cases h : output.length < expectedBytes
    · have hle := segment.le
      have hchunk : segment.data.take (min 4096 (expectedBytes - output.length)) =
          segment.data.take (expectedBytes - output.length) := by
        rw [← List.take_take, List.take_take, min_comm, ← List.take_take,
          List.take_of_length_le hle]
      have henough : expectedBytes ≤ output.length +
          min (expectedBytes - output.length) segment.data.length + (received segments).length ↔
          expectedBytes ≤ output.length + (segment.data.length + (received segments).length) := by
        omega
      have hleft : expectedBytes -
          (output.length + min (expectedBytes - output.length) segment.data.length) =
          expectedBytes - output.length - segment.data.length := by
        omega
      rw [if_pos h]
      dsimp only
      rw [hchunk, ih, hreceived]
      simp only [List.length_append, List.length_take, List.take_append, List.append_assoc, henough,
        hleft]
    · rw [if_neg h, if_pos (by omega), Nat.sub_eq_zero_of_le (Nat.not_lt.mp h), List.take_zero,
        List.append_nil]

/-! ## Header blocks -/

section HeaderBlock

variable {block : StdString} (hends : indexOf headerEnd (block ++ headerEnd) = some block.length)

include hends

theorem indexOf_headerEnd_block (rest : StdString) :
    indexOf headerEnd (block ++ headerEnd ++ rest) = some block.length :=
  indexOf_append_of_eq_some hends rest

theorem after_headerEnd_block (rest : StdString) :
    after headerEnd (block ++ headerEnd ++ rest) = some rest := by
  rw [after, indexOf_headerEnd_block hends, Option.map_some, ← List.length_append, List.drop_left]

/-- What has been received before the header block is complete does not end it. -/
theorem indexOf_headerEnd_of_short {received more body : StdString}
    (h : received ++ more = block ++ headerEnd ++ body)
    (hshort : received.length < (block ++ headerEnd).length) : indexOf headerEnd received = none := by
  by_contra hne
  obtain ⟨i, hi⟩ := Option.ne_none_iff_exists'.mp hne
  have hstream := indexOf_append_of_eq_some hi more
  rw [h, indexOf_headerEnd_block hends, Option.some.injEq] at hstream
  have hle := add_length_le_of_indexOf_eq_some hi
  rw [List.length_append] at hshort
  omega

end HeaderBlock

/-- What has been received once the header block is complete. -/
theorem received_eq_of_long {head received more body : StdString} (h : received ++ more = head ++ body)
    (hlong : head.length ≤ received.length) :
    received = head ++ body.take (received.length - head.length) ∧
      more = body.drop (received.length - head.length) := by
  obtain ⟨rest, rfl⟩ : head <+: received :=
    List.prefix_of_prefix_length_le ⟨body, rfl⟩ ⟨more, h⟩ hlong
  rw [List.append_assoc, List.append_cancel_left_eq] at h
  rw [List.length_append, Nat.add_sub_cancel_left, ← h, List.take_left, List.drop_left]
  exact ⟨rfl, rfl⟩

/-! ## Framed requests -/

/-- A stream whose header block ends within the reader's cap and that fits a `std::string`. The header
block is given without its `CRLFCRLF`. -/
structure FramedRequest where
  block : StdString
  body : StdString
  ends : indexOf headerEnd (block ++ headerEnd) = some block.length
  cap : block.length + headerEnd.length ≤ 64 * 1024
  size : block.length + headerEnd.length + body.length < 2 ^ 63

/-- The number that stands behind the first `Content-Length:` of a header block; zero if there is none. -/
def announcedLength (block : StdString) : Throws ℕ :=
  match after (bytes "Content-Length:") block with
  | none => .ok 0
  | some rest => stoul (trimmed (before crlf rest))

namespace FramedRequest

variable (r : FramedRequest)

/-- The header block with its `CRLFCRLF`. -/
def head : StdString := r.block ++ headerEnd

/-- The whole stream. -/
def stream : StdString := r.head ++ r.body

/-- The stream up to a position of the body. -/
def upTo (n : ℕ) : StdString := r.head ++ r.body.take n

theorem length_head : r.head.length = r.block.length + headerEnd.length := List.length_append

theorem indexOf_headerEnd (rest : StdString) :
    indexOf headerEnd (r.head ++ rest) = some r.block.length :=
  indexOf_headerEnd_block r.ends rest

theorem before_headerEnd (rest : StdString) : before headerEnd (r.head ++ rest) = r.block := by
  rw [before, r.indexOf_headerEnd]
  dsimp only
  rw [head, List.append_assoc, List.take_left]

theorem after_headerEnd (rest : StdString) : after headerEnd (r.head ++ rest) = some rest :=
  after_headerEnd_block r.ends rest

/-- What has been received before the header block is complete does not end it. -/
theorem indexOf_headerEnd_eq_none {received more : StdString} (h : received ++ more = r.stream)
    (hshort : received.length < r.head.length) : indexOf headerEnd received = none :=
  indexOf_headerEnd_of_short r.ends h hshort

/-- What has been received once the header block is complete. -/
theorem received_eq_upTo {received more : StdString} (h : received ++ more = r.stream)
    (hlong : r.head.length ≤ received.length) :
    received = r.upTo (received.length - r.head.length) ∧
      more = r.body.drop (received.length - r.head.length) :=
  received_eq_of_long h hlong

/-- The first loop stops with the segment that completes the header block. -/
theorem readHeader_eq {request : StdString} {segments : List Segment} (later : List Segment)
    (h : request ++ received segments = r.stream) (hshort : request.length < r.head.length) :
    ∃ rest, readHeader request (segments ++ later) =
        (r.upTo (arrivedBehind (r.head.length - request.length) segments), rest ++ later, true) ∧
      received rest = r.body.drop (arrivedBehind (r.head.length - request.length) segments) := by
  induction segments generalizing request with
  | nil =>
    have hlen := congrArg List.length h
    simp only [received, stream, List.flatMap_nil, List.append_nil, List.length_append] at hlen
    omega
  | cons segment segments ih =>
    have hreceived : received (segment :: segments) = segment.data ++ received segments := rfl
    rw [hreceived, ← List.append_assoc] at h
    rw [List.cons_append, readHeader, find_zero, arrivedBehind]
    by_cases hcomplete : r.head.length - request.length ≤ segment.data.length
    · obtain ⟨hrequest, hrest⟩ := r.received_eq_upTo h (by rw [List.length_append]; omega)
      have hcount : (request ++ segment.data).length - r.head.length =
          segment.data.length - (r.head.length - request.length) := by
        rw [List.length_append]
        omega
      rw [hcount] at hrequest hrest
      refine ⟨segments, ?_, by rw [if_pos hcomplete, hrest]⟩
      rw [if_pos hcomplete, hrequest, upTo, r.indexOf_headerEnd]
      rfl
    · have hshort' : (request ++ segment.data).length < r.head.length := by
        rw [List.length_append]
        omega
      have hcap : ¬ (request ++ segment.data).length > 64 * 1024 := by
        have := r.cap
        have := r.length_head
        omega
      rw [r.indexOf_headerEnd_eq_none h hshort', if_neg hcap, if_neg hcomplete]
      have := ih h hshort'
      rwa [List.length_append, ← Nat.sub_sub] at this

/-- The bytes of the body that come with the segment that ends the header block. -/
def arrived (segments : List Segment) : ℕ := arrivedBehind r.head.length segments

theorem arrived_le {segments : List Segment} (h : received segments = r.stream) :
    r.arrived segments ≤ r.body.length := by
  have hle := arrivedBehind_le r.head.length segments
  rw [h, stream, List.length_append, Nat.add_sub_cancel_left] at hle
  exact hle

/-- The text that stands for the length is looked up in the header block alone. -/
theorem contentLengthText_head (rest : StdString) :
    contentLengthText (r.head ++ rest) =
      (after (bytes "Content-Length:") r.block).map fun text => trimmed (before crlf text) := by
  rw [contentLengthText, headerBlock, r.before_headerEnd]

/-- Behind the header block, the bytes that are still missing are read. -/
theorem completeBody_eq (peer : Peer) {n k : ℕ} (hk : k ≤ r.body.length) {rest later : List Segment}
    (hrest : received rest = r.body.drop k) :
    completeBody peer (r.upTo k) n (rest ++ later) =
      if n ≤ k then .ok (r.upTo k)
      else if n ≤ r.body.length + (received later).length then
        .ok (r.head ++ (r.body ++ received later).take n)
      else peer.atEnd (r.upTo k) := by
  have hlen : (r.body.take k).length = k := by rw [List.length_take, min_eq_left hk]
  have hreceived : received (rest ++ later) = r.body.drop k ++ received later := by
    rw [received, List.flatMap_append, ← hrest]
    rfl
  rw [completeBody, upTo, r.after_headerEnd]
  dsimp only
  rw [hlen, readAvailableData_eq, hreceived]
  by_cases hn : n ≤ k
  · rw [if_neg (Nat.not_lt.mpr hn), if_pos hn]
  have henough : n - k ≤ ([] : StdString).length + (r.body.drop k ++ received later).length ↔
      n ≤ r.body.length + (received later).length := by
    rw [List.length_nil, List.length_append, List.length_drop]
    omega
  rw [if_pos (Nat.not_le.mp hn), if_neg hn]
  simp only [henough]
  by_cases hall : n ≤ r.body.length + (received later).length
  · have htake : (r.body ++ received later).take n =
        r.body.take k ++ (r.body.drop k ++ received later).take (n - k) := by
      have hle : (r.body.take k).length ≤ n := by omega
      conv_lhs => rw [← List.take_append_drop k r.body, List.append_assoc]
      rw [List.take_append, hlen, List.take_of_length_le hle]
    rw [if_pos hall, if_pos hall, htake]
    dsimp only
    rw [List.length_nil, List.nil_append, Nat.sub_zero, List.append_assoc]
  · rw [if_neg hall, if_neg hall]

/-- What is read of a stream, whatever follows it. -/
theorem readHttpRequest_eq {segments : List Segment} (h : received segments = r.stream)
    (later : List Segment) (ending : Option PeerEnd) :
    readHttpRequest ⟨segments ++ later, ending⟩ =
      uncaught (announcedLength r.block) >>= fun n =>
        if n ≤ r.arrived segments then .ok (r.upTo (r.arrived segments))
        else if n ≤ r.body.length + (received later).length then
          .ok (r.head ++ (r.body ++ received later).take n)
        else Peer.atEnd ⟨segments ++ later, ending⟩ (r.upTo (r.arrived segments)) := by
  have hpos : ([] : StdString).length < r.head.length := by
    rw [r.length_head, List.length_nil]
    exact Nat.lt_add_left _ (by decide)
  have hreceived : [] ++ received segments = r.stream := h
  obtain ⟨rest, hread, hrest⟩ := r.readHeader_eq later hreceived hpos
  rw [List.length_nil, Nat.sub_zero, ← arrived] at hread hrest
  rw [readHttpRequest]
  dsimp only
  rw [hread]
  dsimp only
  rw [readBody_eq_completeBody, upTo, r.contentLengthText_head, ← upTo, announcedLength]
  cases after (bytes "Content-Length:") r.block with
  | none =>
    simp only [uncaught, Except.mapError, bind, Except.bind, if_pos (Nat.zero_le _)]
    rfl
  | some text =>
    dsimp only [Option.map_some]
    simp only [r.completeBody_eq _ (r.arrived_le h) hrest]

/-- Of a request that announces no more than it carries, at least as much is read as it announces, whatever
follows it. -/
theorem readHttpRequest_of_announced {n : ℕ} (hn : announcedLength r.block = .ok n) (hle : n ≤ r.body.length)
    {segments : List Segment} (h : received segments = r.stream) (later : List Segment)
    (ending : Option PeerEnd) :
    readHttpRequest ⟨segments ++ later, ending⟩ = .ok (r.upTo (max n (r.arrived segments))) := by
  rw [r.readHttpRequest_eq h later ending, hn]
  show (if _ then _ else _) = _
  by_cases hall : n ≤ r.arrived segments
  · rw [if_pos hall, max_eq_right hall]
  · rw [if_neg hall, if_pos (hle.trans (Nat.le_add_right _ _)), max_eq_left (Nat.le_of_not_le hall), upTo,
      List.take_append_of_le_length hle]

end FramedRequest

/-! ## Requests with a length -/

/-- A blank of a header field. -/
def isBlank (c : UInt8) : Bool := c == 32 || c == 9

/-- A header value that is a decimal number between blanks. -/
def SpellsLength (value : StdString) (n : ℕ) : Prop :=
  ∃ left digits right, value = left ++ digits ++ right ∧ (∀ b ∈ left, isBlank b = true) ∧
    (∀ b ∈ right, isBlank b = true) ∧ digits ≠ [] ∧ (∀ b ∈ digits, isdigit b = true) ∧
    decimalValue digits = n

/-- A request whose first `Content-Length:` is followed, up to the end of its line, by the length of the
body in decimal. -/
structure LengthRequest extends FramedRequest where
  value : StdString
  line : (after (bytes "Content-Length:") block).map (before crlf) = some value
  spells : SpellsLength value body.length

private theorem isTrimmed_of_isBlank {b : UInt8} (h : isBlank b = true) : isTrimmed b = true := by
  simp only [isBlank, Bool.or_eq_true, beq_iff_eq] at h
  obtain rfl | rfl := h
  · rfl
  · rfl

private theorem isTrimmed_of_isdigit {b : UInt8} (h : isdigit b = true) : isTrimmed b = false := by
  obtain ⟨hspace, -, -⟩ := not_sign_of_isdigit h
  refine Bool.eq_false_iff.mpr fun htrim => ?_
  have hmem : b ∈ bytes " \t\r\n" := by simpa [isTrimmed] using htrim
  have : ∀ c ∈ bytes " \t\r\n", isspace c = true := by decide +kernel
  rw [this b hmem] at hspace
  cases hspace

theorem announcedLength_of_spellsLength {block value : StdString} {n : ℕ}
    (hline : (after (bytes "Content-Length:") block).map (before crlf) = some value)
    (hspells : SpellsLength value n) (hn : n < 2 ^ 64) : announcedLength block = .ok n := by
  obtain ⟨rest, hrest, rfl⟩ := Option.map_eq_some_iff.mp hline
  obtain ⟨left, digits, right, hvalue, hleft, hright, hne, hdigits, rfl⟩ := hspells
  have htrim : trimmed (before crlf rest) = digits := by
    rw [hvalue]
    apply trimmed_append
    · exact fun b hb => isTrimmed_of_isBlank (hleft b hb)
    · exact fun b hb => isTrimmed_of_isdigit (hdigits b hb)
    · exact fun b hb => isTrimmed_of_isBlank (hright b hb)
  rw [announcedLength, hrest]
  dsimp only
  rw [htrim, stoul_of_isdigit hne hdigits hn]

theorem LengthRequest.announcedLength_eq (r : LengthRequest) :
    announcedLength r.block = .ok r.body.length := by
  have := r.size
  exact announcedLength_of_spellsLength r.line r.spells (by omega)

/-- A request with its length is read whole however the stream is cut into segments, and nothing behind it
is waited for. -/
theorem readHttpRequest_stream (r : LengthRequest) (segments : List Segment)
    (h : received segments = r.stream) (later : List Segment) (ending : Option PeerEnd) :
    readHttpRequest ⟨segments ++ later, ending⟩ = .ok r.stream := by
  rw [r.readHttpRequest_eq h, r.announcedLength_eq]
  show (if _ then _ else _) = _
  by_cases hall : r.body.length ≤ r.arrived segments
  · rw [if_pos hall, FramedRequest.upTo, List.take_of_length_le hall]
    rfl
  · rw [if_neg hall, if_pos (Nat.le_add_right _ _), List.take_left]
    rfl

/-- A length as a client would write it. -/
theorem spellsLength_two : SpellsLength (bytes " 2") 2 :=
  ⟨bytes " ", bytes "2", [], by decide +kernel, by decide +kernel, by decide +kernel, by decide +kernel,
    by decide +kernel, by decide +kernel⟩

/-- A request with a length that arrives in three segments: the first cuts `CRLFCRLF`, the second the
body. -/
def smallRequest : LengthRequest where
  block := bytes "POST /infer HTTP/1.1\r\nContent-Length: 2"
  body := bytes "hi"
  ends := by decide +kernel
  cap := by decide +kernel
  size := by decide +kernel
  value := bytes " 2"
  line := by decide +kernel
  spells := spellsLength_two

@[inherit_doc smallRequest]
def smallSegments : List Segment :=
  [⟨bytes "POST /infer HTTP/1.1\r\nContent-Length: 2\r", by decide +kernel, by decide +kernel⟩,
    ⟨bytes "\n\r\nh", by decide +kernel, by decide +kernel⟩,
    ⟨bytes "i", by decide +kernel, by decide +kernel⟩]

theorem readHttpRequest_stream_small :
    received smallSegments = smallRequest.stream ∧
      readHttpRequest ⟨smallSegments, none⟩ = .ok smallRequest.stream :=
  have h : received smallSegments = smallRequest.stream := by decide +kernel
  ⟨h, readHttpRequest_stream smallRequest smallSegments h [] none⟩

end InferenceGateway.Core
