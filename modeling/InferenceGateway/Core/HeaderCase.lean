import InferenceGateway.Core.Framing

/-! # Header names in another case

`read_http_request` looks for `Content-Length:` in exactly this spelling. The name of a header field is
the same in every case, and the clients of the core do not agree on one. A request whose header is
spelled otherwise is read as one without a body: it loses what has not arrived together with the end of
the header block.
-/

namespace InferenceGateway.Core

open Common

/-! ## Header fields -/

/-- The colon behind a field name. -/
def colon : UInt8 := asciiByte ':'

/-- The name that the reader looks for. -/
def contentLengthName : StdString := bytes "Content-Length"

/-- A header field; no line break occurs in it. -/
structure Field where
  name : StdString
  value : StdString
  name_free : 13 ∉ name ∧ colon ∉ name
  value_free : 13 ∉ value

/-- The line of a field. -/
def Field.line (f : Field) : StdString := f.name ++ colon :: f.value

/-- The lines of header fields, each behind a line break. -/
def fieldLines (fields : List Field) : StdString := fields.flatMap fun f => crlf ++ f.line

theorem fieldLines_cons (f : Field) (fields : List Field) :
    fieldLines (f :: fields) = crlf ++ (f.line ++ fieldLines fields) := by
  rw [fieldLines, List.flatMap_cons, List.append_assoc]
  rfl

/-- A well-formed request within the cap of the reader. -/
structure HttpRequest where
  requestLine : StdString
  fields : List Field
  body : StdString
  free : 13 ∉ requestLine
  cap : (requestLine ++ fieldLines fields).length + headerEnd.length ≤ 64 * 1024
  size : (requestLine ++ fieldLines fields).length + headerEnd.length + body.length < 2 ^ 63

theorem Field.not_mem_line (f : Field) : 13 ∉ f.line := by
  rw [line, List.mem_append, List.mem_cons]
  rintro (h | h | h)
  · exact f.name_free.1 h
  · exact absurd h (by decide)
  · exact f.value_free h

theorem Field.line_ne_nil (f : Field) : f.line ≠ [] :=
  List.append_ne_nil_of_right_ne_nil _ (List.cons_ne_nil _ _)

/-! ## The header block ends where the fields do -/

theorem crlf_eq : crlf = [13, 10] := by decide +kernel

theorem headerEnd_eq : headerEnd = [13, 10, 13, 10] := by decide +kernel

theorem noStart_fieldLines (fields : List Field) (rest : StdString) :
    NoStart headerEnd (fieldLines fields) rest := by
  induction fields with
  | nil => trivial
  | cons f fields ih =>
    rw [fieldLines_cons, noStart_append, noStart_append]
    refine ⟨?_, ?_, ih⟩
    · -- Behind the line break comes the first letter of the line.
      obtain ⟨c, l, hline⟩ := List.exists_cons_of_ne_nil f.line_ne_nil
      have hc : 13 ≠ c := fun h => f.not_mem_line (by rw [hline, h]; exact List.mem_cons_self)
      rw [crlf_eq, headerEnd_eq, hline]
      simp [NoStart, hc]
    · rw [headerEnd_eq]
      exact noStart_of_head_not_mem f.not_mem_line

namespace HttpRequest

variable (r : HttpRequest)

/-- The header block without its `CRLFCRLF`. -/
def block : StdString := r.requestLine ++ fieldLines r.fields

theorem noStart_block (rest : StdString) : NoStart headerEnd r.block rest := by
  rw [block, noStart_append]
  refine ⟨?_, noStart_fieldLines r.fields rest⟩
  rw [headerEnd_eq]
  exact noStart_of_head_not_mem r.free

/-- The stream of a well-formed request. -/
def framed : FramedRequest where
  block := r.block
  body := r.body
  ends := by
    have h := indexOf_of_noStart (r.noStart_block (headerEnd ++ []))
    rwa [List.append_nil] at h
  cap := r.cap
  size := r.size

/-! ## The announced length -/

/-- A field is spelled as the reader expects it. -/
def SpelledExactly : Prop := ∃ f ∈ r.fields, f.name = contentLengthName

/-- In this spelling, the text `Content-Length:` occurs at most as the name of a field. -/
def NoDecoy : Prop :=
  indexOf (bytes "Content-Length:") r.requestLine = none ∧
    ∀ f ∈ r.fields, indexOf (bytes "Content-Length:") (f.line.drop 1) = none

/-- A content length, in whatever case, is the length of the body. -/
def LengthCorrect : Prop :=
  ∀ f ∈ r.fields, f.name.map toupper = contentLengthName.map toupper →
    SpellsLength f.value r.body.length

end HttpRequest

theorem contentLength_eq : bytes "Content-Length:" = contentLengthName ++ [colon] := by decide +kernel

/-- What stands behind a line. -/
theorem head?_fieldLines (fields : List Field) : ∀ c ∈ (fieldLines fields).head?, c = 13 := by
  cases fields with
  | nil =>
    intro c hc
    cases hc
  | cons f fields =>
    rw [fieldLines_cons, crlf_eq]
    exact fun c hc => (Option.some.inj hc).symm

private theorem not_mem_contentLength {c : UInt8} (h : c = 13) : c ∉ bytes "Content-Length:" := by
  rw [h]
  decide +kernel

/-- A line starts with `Content-Length:` only if that is the name of its field. -/
theorem Field.name_of_prefix {f : Field} {fields : List Field}
    (h : bytes "Content-Length:" <+: f.line ++ fieldLines fields) : f.name = contentLengthName := by
  have hline : bytes "Content-Length:" <+: f.line := by
    have hhead := head?_fieldLines fields
    cases hfields : fieldLines fields with
    | nil => rwa [hfields, List.append_nil] at h
    | cons c rest =>
      rw [hfields] at h hhead
      exact prefix_of_prefix_append_cons (not_mem_contentLength (hhead c rfl)) h
  obtain ⟨t, ht⟩ := hline
  rw [contentLength_eq, line, List.append_assoc, List.singleton_append] at ht
  exact (eq_of_append_cons_eq (by decide +kernel) f.name_free.2 ht).symm

/-- The search for `Content-Length:` passes over the field of another name. -/
theorem Field.noStart_line {f : Field} (hname : f.name ≠ contentLengthName)
    (hdecoy : indexOf (bytes "Content-Length:") (f.line.drop 1) = none) (fields : List Field) :
    NoStart (bytes "Content-Length:") f.line (fieldLines fields) := by
  have hstart : ¬ bytes "Content-Length:" <+: f.line ++ fieldLines fields :=
    fun h => hname (f.name_of_prefix h)
  obtain ⟨c, l, hline⟩ := List.exists_cons_of_ne_nil f.line_ne_nil
  rw [hline] at hstart hdecoy ⊢
  refine ⟨hstart, noStart_of_indexOf_eq_none hdecoy fun c hc => ?_⟩
  exact not_mem_contentLength (head?_fieldLines fields c hc)

private theorem noStart_crlf (rest : StdString) : NoStart (bytes "Content-Length:") crlf rest := by
  rw [show bytes "Content-Length:" = asciiByte 'C' :: bytes "ontent-Length:" by decide +kernel]
  exact noStart_of_head_not_mem (by decide +kernel)

/-- The line of the first field that is spelled as the reader expects it. -/
theorem after_fieldLines {fields : List Field}
    (hdecoy : ∀ f ∈ fields, indexOf (bytes "Content-Length:") (f.line.drop 1) = none) :
    ((∀ f ∈ fields, f.name ≠ contentLengthName) ∧
        NoStart (bytes "Content-Length:") (fieldLines fields) []) ∨
      ∃ pre, ∃ f ∈ fields, ∃ fields', f.name = contentLengthName ∧
        fieldLines fields = pre ++ (bytes "Content-Length:" ++ (f.value ++ fieldLines fields')) ∧
        NoStart (bytes "Content-Length:") pre
          (bytes "Content-Length:" ++ (f.value ++ fieldLines fields')) := by
  induction fields with
  | nil =>
    refine .inl ⟨fun f hf => ?_, trivial⟩
    cases hf
  | cons f fields ih =>
    obtain ⟨hf, hfields⟩ := List.forall_mem_cons.mp hdecoy
    by_cases hname : f.name = contentLengthName
    · refine .inr ⟨crlf, f, List.mem_cons_self, fields, hname, ?_, noStart_crlf _⟩
      rw [fieldLines_cons, contentLength_eq, Field.line, hname, List.append_assoc, List.append_assoc]
      rfl
    · have hline := f.noStart_line hname hf fields
      obtain ⟨hnames, hnone⟩ | ⟨pre, g, hg, fields', hgname, heq, hpre⟩ := ih hfields
      · refine .inl ⟨List.forall_mem_cons.mpr ⟨hname, hnames⟩, ?_⟩
        rw [fieldLines_cons, noStart_append, noStart_append]
        refine ⟨noStart_crlf _, ?_, hnone⟩
        rwa [List.append_nil]
      · refine .inr ⟨crlf ++ (f.line ++ pre), g, List.mem_cons_of_mem _ hg, fields', hgname, ?_, ?_⟩
        · rw [fieldLines_cons, heq, List.append_assoc, List.append_assoc]
        · rw [noStart_append, noStart_append]
          exact ⟨noStart_crlf _, heq ▸ hline, hpre⟩

theorem Field.before_crlf (f : Field) (fields : List Field) :
    before crlf (f.value ++ fieldLines fields) = f.value := by
  have hfree : ∀ rest, NoStart crlf f.value rest := by
    intro rest
    rw [crlf_eq]
    exact noStart_of_head_not_mem f.value_free
  cases fields with
  | nil =>
    rw [show fieldLines [] = [] from rfl, List.append_nil]
    exact before_of_not_found (by decide +kernel) (hfree [])
  | cons g fields =>
    rw [fieldLines_cons]
    exact before_of_noStart (hfree _)

namespace HttpRequest

variable {r : HttpRequest}

instance : Decidable r.SpelledExactly := inferInstanceAs (Decidable (∃ f ∈ r.fields, _))

/-- The reader sees the length of the body only in its own spelling. -/
theorem announcedLength_block (hdecoy : r.NoDecoy) (hlength : r.LengthCorrect) :
    announcedLength r.block = .ok (if r.SpelledExactly then r.body.length else 0) := by
  have hline : ∀ rest : StdString, (∀ c ∈ rest.head?, c = 13) →
      NoStart (bytes "Content-Length:") r.requestLine rest := by
    intro rest hrest
    exact noStart_of_indexOf_eq_none hdecoy.1 fun c hc => not_mem_contentLength (hrest c hc)
  obtain ⟨hnames, hnone⟩ | ⟨pre, f, hf, fields, hname, heq, hpre⟩ := after_fieldLines hdecoy.2
  · have hspelled : ¬ r.SpelledExactly := by
      rintro ⟨f, hf, hname⟩
      exact hnames f hf hname
    have hblock : NoStart (bytes "Content-Length:") r.block [] := by
      rw [block, noStart_append, List.append_nil]
      exact ⟨hline _ (head?_fieldLines r.fields), hnone⟩
    rw [if_neg hspelled, announcedLength, after_eq_none (by decide +kernel) hblock]
  · have hspelled : r.SpelledExactly := ⟨f, hf, hname⟩
    have hsize := r.size
    have hblock : r.block = (r.requestLine ++ pre) ++
        (bytes "Content-Length:" ++ (f.value ++ fieldLines fields)) := by
      rw [block, heq, List.append_assoc]
    have hstart : NoStart (bytes "Content-Length:") (r.requestLine ++ pre)
        (bytes "Content-Length:" ++ (f.value ++ fieldLines fields)) := by
      rw [noStart_append]
      refine ⟨?_, hpre⟩
      rw [← heq]
      exact hline _ (head?_fieldLines r.fields)
    have hvalue : (after (bytes "Content-Length:") r.block).map (before crlf) = some f.value := by
      rw [hblock, after_of_noStart hstart, Option.map_some, f.before_crlf]
    rw [if_pos hspelled]
    exact announcedLength_of_spellsLength hvalue (hlength f hf (by rw [hname])) (by omega)

end HttpRequest

/-! ## Two spellings of a request -/

/-- Two fields whose names differ at most in the case of letters. -/
def Field.SameUpToCase (f g : Field) : Prop :=
  f.name.map toupper = g.name.map toupper ∧ f.value = g.value

/-- Two requests that differ at most in the case of their header names. -/
structure SameUpToCase (r₁ r₂ : HttpRequest) : Prop where
  requestLine : r₁.requestLine = r₂.requestLine
  fields : List.Forall₂ Field.SameUpToCase r₁.fields r₂.fields
  body : r₁.body = r₂.body

theorem length_fieldLines {fields₁ fields₂ : List Field}
    (h : List.Forall₂ Field.SameUpToCase fields₁ fields₂) :
    (fieldLines fields₁).length = (fieldLines fields₂).length := by
  induction h with
  | nil => rfl
  | cons hfield _ ih =>
    have hname := congrArg List.length hfield.1
    rw [List.length_map, List.length_map] at hname
    simp only [fieldLines_cons, Field.line, List.length_append, List.length_cons, hname, hfield.2, ih]

theorem SameUpToCase.length_block {r₁ r₂ : HttpRequest} (h : SameUpToCase r₁ r₂) :
    r₁.block.length = r₂.block.length := by
  rw [HttpRequest.block, HttpRequest.block, List.length_append, List.length_append, h.requestLine,
    length_fieldLines h.fields]

/-- Where the header block ends in a segment depends on the lengths of the segments only. -/
theorem arrivedBehind_congr {segments₁ segments₂ : List Segment}
    (h : segments₁.map (·.data.length) = segments₂.map (·.data.length)) (n : ℕ) :
    arrivedBehind n segments₁ = arrivedBehind n segments₂ := by
  induction segments₁ generalizing n segments₂ with
  | nil =>
    rw [List.map_nil, eq_comm, List.map_eq_nil_iff] at h
    rw [h]
  | cons segment₁ segments₁ ih =>
    cases segments₂ with
    | nil => cases h
    | cons segment₂ segments₂ =>
      rw [List.map_cons, List.map_cons, List.cons.injEq] at h
      rw [arrivedBehind, arrivedBehind, h.1, ih h.2]

/-- The body that the caller of `read_http_request` finds in what it returns. -/
def returnedBody (result : Except Halt StdString) : Option StdString :=
  match result with
  | .error _ => none
  | .ok request => after headerEnd request

/-- The reader returns from both peers, with the same body. -/
def SameBody (peer₁ peer₂ : Peer) : Prop :=
  ∃ body, returnedBody (readHttpRequest peer₁) = some body ∧
    returnedBody (readHttpRequest peer₂) = some body

/-- How much of a body of `total` bytes is returned if `n` bytes are announced and `arrived` bytes came
with the end of the header block. -/
def bytesReturned (ending : Option PeerEnd) (total arrived n : ℕ) : Option ℕ :=
  if n ≤ arrived then some arrived else if n ≤ total then some n else ending.map fun _ => arrived

theorem FramedRequest.returnedBody_eq_some_iff (r : FramedRequest) {segments : List Segment}
    (h : received segments = r.stream) {ending : Option PeerEnd} {body : StdString} :
    returnedBody (readHttpRequest ⟨segments, ending⟩) = some body ↔
      ∃ n k, announcedLength r.block = .ok n ∧
        bytesReturned ending r.body.length (r.arrived segments) n = some k ∧ body = r.body.take k := by
  have hread := r.readHttpRequest_eq h [] ending
  rw [List.append_nil] at hread
  cases hn : announcedLength r.block with
  | error e =>
    rw [hread, hn]
    constructor
    · intro h
      cases h
    · rintro ⟨_, _, h, -⟩
      cases h
  | ok n =>
    have hreturned : returnedBody (readHttpRequest ⟨segments, ending⟩) =
        (bytesReturned ending r.body.length (r.arrived segments) n).map r.body.take := by
      rw [hread, hn]
      simp only [received, List.flatMap_nil, List.append_nil, List.length_nil, Nat.add_zero]
      show returnedBody (if _ then _ else _) = _
      unfold bytesReturned
      split_ifs
      · exact r.after_headerEnd _
      · exact r.after_headerEnd _
      · cases ending with
        | none => rfl
        | some e => exact r.after_headerEnd _
    rw [hreturned, Option.map_eq_some_iff]
    constructor
    · rintro ⟨k, hk, rfl⟩
      exact ⟨n, k, rfl, hk, rfl⟩
    · rintro ⟨m, k, hm, hk, rfl⟩
      cases hm
      exact ⟨k, hk, rfl⟩

/-- The announced lengths `n₁` and `n₂` make the reader return the same part of a body of `total`
bytes: it does not wait for more than there is, and the lengths are equal unless neither of them asks for
bytes that come behind the `arrived` ones. -/
def SamePart (ending : Option PeerEnd) (total arrived n₁ n₂ : ℕ) : Prop :=
  (ending = none → n₁ ≤ total ∧ n₂ ≤ total) ∧
    (n₁ = n₂ ∨ ¬ (arrived < n₁ ∧ n₁ ≤ total) ∧ ¬ (arrived < n₂ ∧ n₂ ≤ total))

theorem samePart_iff {ending : Option PeerEnd} {total arrived n₁ n₂ : ℕ} (h : arrived ≤ total) :
    (∃ n, bytesReturned ending total arrived n₁ = some n ∧
      bytesReturned ending total arrived n₂ = some n) ↔ SamePart ending total arrived n₁ n₂ := by
  cases ending with
  | none =>
    simp only [SamePart, bytesReturned, Option.map_none, true_implies]
    split_ifs <;> simp <;> omega
  | some e =>
    simp only [SamePart, bytesReturned, Option.map_some]
    split_ifs <;> simp <;> omega

theorem bytesReturned_le {ending : Option PeerEnd} {total arrived n k : ℕ} (h : arrived ≤ total)
    (hk : bytesReturned ending total arrived n = some k) : k ≤ total := by
  unfold bytesReturned at hk
  split_ifs at hk
  · cases hk
    exact h
  · cases hk
    assumption
  · obtain ⟨e, -, rfl⟩ := Option.map_eq_some_iff.mp hk
    exact h

/-- The announced lengths decide whether the two spellings give the same body. -/
theorem sameBody_iff_samePart {r₁ r₂ : HttpRequest} (hcase : SameUpToCase r₁ r₂)
    {segments₁ segments₂ : List Segment} (h₁ : received segments₁ = r₁.framed.stream)
    (h₂ : received segments₂ = r₂.framed.stream)
    (hcut : segments₁.map (·.data.length) = segments₂.map (·.data.length)) (ending : Option PeerEnd) :
    SameBody ⟨segments₁, ending⟩ ⟨segments₂, ending⟩ ↔
      ∃ n₁ n₂, announcedLength r₁.block = .ok n₁ ∧ announcedLength r₂.block = .ok n₂ ∧
        SamePart ending r₁.body.length (r₁.framed.arrived segments₁) n₁ n₂ := by
  have harrived : r₂.framed.arrived segments₂ = r₁.framed.arrived segments₁ := by
    rw [FramedRequest.arrived, FramedRequest.arrived, FramedRequest.length_head, FramedRequest.length_head,
      arrivedBehind_congr hcut]
    exact congrArg (fun n => arrivedBehind (n + _) _) hcase.length_block.symm
  have hle := r₁.framed.arrived_le h₁
  unfold SameBody
  simp only [r₁.framed.returnedBody_eq_some_iff h₁, r₂.framed.returnedBody_eq_some_iff h₂, harrived]
  dsimp only [HttpRequest.framed] at hle ⊢
  rw [← hcase.body]
  constructor
  · rintro ⟨body, ⟨n₁, k₁, hn₁, hk₁, rfl⟩, n₂, k₂, hn₂, hk₂, htake⟩
    -- Equal parts of the body have equal lengths.
    have hlen := congrArg List.length htake
    rw [List.length_take, List.length_take, min_eq_left (bytesReturned_le hle hk₁),
      min_eq_left (bytesReturned_le hle hk₂)] at hlen
    exact ⟨n₁, n₂, hn₁, hn₂, (samePart_iff hle).mp ⟨k₁, hk₁, hlen ▸ hk₂⟩⟩
  · rintro ⟨n₁, n₂, hn₁, hn₂, hsame⟩
    obtain ⟨k, hk₁, hk₂⟩ := (samePart_iff hle).mpr hsame
    exact ⟨r₁.body.take k, ⟨n₁, k, hn₁, hk₁, rfl⟩, n₂, k, hn₂, hk₂, rfl⟩

/-- Two spellings of a request, cut into segments in the same way, give the same body exactly if they
announce lengths that take the same part of it; if `Content-Length:` occurs only as the name of the field,
this means that the field has the reader's spelling in both or in neither of them, or that the body comes
with the end of the header block. -/
theorem sameBody_iff {r₁ r₂ : HttpRequest} (hcase : SameUpToCase r₁ r₂)
    {segments₁ segments₂ : List Segment} (h₁ : received segments₁ = r₁.framed.stream)
    (h₂ : received segments₂ = r₂.framed.stream)
    (hcut : segments₁.map (·.data.length) = segments₂.map (·.data.length)) (ending : Option PeerEnd) :
    (SameBody ⟨segments₁, ending⟩ ⟨segments₂, ending⟩ ↔
      ∃ n₁ n₂, announcedLength r₁.block = .ok n₁ ∧ announcedLength r₂.block = .ok n₂ ∧
        SamePart ending r₁.body.length (r₁.framed.arrived segments₁) n₁ n₂) ∧
    (r₁.NoDecoy → r₁.LengthCorrect → r₂.NoDecoy → r₂.LengthCorrect →
      (SameBody ⟨segments₁, ending⟩ ⟨segments₂, ending⟩ ↔
        (r₁.SpelledExactly ↔ r₂.SpelledExactly) ∨
          r₁.body.length ≤ r₁.framed.arrived segments₁)) := by
  have hiff := sameBody_iff_samePart hcase h₁ h₂ hcut ending
  refine ⟨hiff, fun hdecoy₁ hlength₁ hdecoy₂ hlength₂ => hiff.trans ?_⟩
  rw [HttpRequest.announcedLength_block hdecoy₁ hlength₁,
    HttpRequest.announcedLength_block hdecoy₂ hlength₂, ← hcase.body]
  have hexists : ∀ {m₁ m₂ : ℕ} {P : ℕ → ℕ → Prop}, (∃ n₁ n₂, (Except.ok m₁ : Throws ℕ) = .ok n₁ ∧
      (Except.ok m₂ : Throws ℕ) = .ok n₂ ∧ P n₁ n₂) ↔ P m₁ m₂ := by
    intro m₁ m₂ P
    constructor
    · rintro ⟨_, _, h, h', hP⟩
      cases h
      cases h'
      exact hP
    · exact fun hP => ⟨_, _, rfl, rfl, hP⟩
  rw [hexists, SamePart]
  by_cases hspelled₁ : r₁.SpelledExactly
  · by_cases hspelled₂ : r₂.SpelledExactly
    · simp [hspelled₁, hspelled₂]
    · simp only [hspelled₁, hspelled₂, if_true, if_false, iff_false, not_true_eq_false, false_or]
      omega
  · by_cases hspelled₂ : r₂.SpelledExactly
    · simp only [hspelled₁, hspelled₂, if_true, if_false, false_iff, not_true_eq_false, false_or]
      omega
    · simp [hspelled₁, hspelled₂]

/-! ## A body in a segment of its own -/

/-- A request in the reader's spelling. -/
def upperRequest : HttpRequest where
  requestLine := bytes "POST /infer HTTP/1.1"
  fields := [⟨bytes "Content-Length", bytes " 2", by decide +kernel, by decide +kernel⟩]
  body := bytes "hi"
  free := by decide +kernel
  cap := by decide +kernel
  size := by decide +kernel

/-- The same request in lower case. -/
def lowerRequest : HttpRequest where
  requestLine := bytes "POST /infer HTTP/1.1"
  fields := [⟨bytes "content-length", bytes " 2", by decide +kernel, by decide +kernel⟩]
  body := bytes "hi"
  free := by decide +kernel
  cap := by decide +kernel
  size := by decide +kernel

theorem upper_lower : SameUpToCase upperRequest lowerRequest where
  requestLine := rfl
  fields := .cons ⟨by decide +kernel, rfl⟩ .nil
  body := rfl

/-- The body comes in a segment of its own. -/
def upperSegments : List Segment :=
  [⟨upperRequest.framed.head, by decide +kernel, by decide +kernel⟩,
    ⟨bytes "hi", by decide +kernel, by decide +kernel⟩]

@[inherit_doc upperSegments]
def lowerSegments : List Segment :=
  [⟨lowerRequest.framed.head, by decide +kernel, by decide +kernel⟩,
    ⟨bytes "hi", by decide +kernel, by decide +kernel⟩]

/-- In lower case, the body is lost. -/
theorem lower_case_loses_body :
    SameUpToCase upperRequest lowerRequest ∧ received upperSegments = upperRequest.framed.stream ∧
      received lowerSegments = lowerRequest.framed.stream ∧
      upperSegments.map (·.data.length) = lowerSegments.map (·.data.length) ∧
      returnedBody (readHttpRequest ⟨upperSegments, none⟩) = some (bytes "hi") ∧
      returnedBody (readHttpRequest ⟨lowerSegments, none⟩) = some [] ∧
      ¬ SameBody ⟨upperSegments, none⟩ ⟨lowerSegments, none⟩ := by
  have hupper : returnedBody (readHttpRequest ⟨upperSegments, none⟩) = some (bytes "hi") := by
    decide +kernel
  have hlower : returnedBody (readHttpRequest ⟨lowerSegments, none⟩) = some [] := by
    decide +kernel
  refine ⟨upper_lower, by decide +kernel, by decide +kernel, by decide +kernel, hupper, hlower, ?_⟩
  rintro ⟨body, hbody, hbody'⟩
  rw [hupper, Option.some.injEq] at hbody
  rw [hlower, Option.some.injEq, ← hbody] at hbody'
  exact absurd hbody' (by decide +kernel)

/-- The body comes with the header block. -/
def upperWhole : List Segment := [⟨upperRequest.framed.stream, by decide +kernel, by decide +kernel⟩]

@[inherit_doc upperWhole]
def lowerWhole : List Segment := [⟨lowerRequest.framed.stream, by decide +kernel, by decide +kernel⟩]

/-- With the body in the segment of the header block, the spelling makes no difference. -/
theorem sameBody_iff_whole : SameBody ⟨upperWhole, none⟩ ⟨lowerWhole, none⟩ := by
  have hupper : upperRequest.LengthCorrect := fun f hf _ => by
    cases List.mem_singleton.mp hf
    exact spellsLength_two
  have hlower : lowerRequest.LengthCorrect := fun f hf _ => by
    cases List.mem_singleton.mp hf
    exact spellsLength_two
  have hiff := sameBody_iff upper_lower (show received upperWhole = _ by decide +kernel)
    (show received lowerWhole = _ by decide +kernel) (by decide +kernel) none
  refine (hiff.2 ?_ hupper ?_ hlower).mpr (.inr ?_)
  · exact ⟨by decide +kernel, by decide +kernel⟩
  · exact ⟨by decide +kernel, by decide +kernel⟩
  · decide +kernel

end InferenceGateway.Core
