import InferenceGateway.Common.Lists
import InferenceGateway.Common.Transition
import InferenceGateway.Gateway.CoreCall
import InferenceGateway.Gateway.Registry

/-! # The registry sync task and its readers

Reference: `registry_sync_loop`, `fetch_core_models` and the `LlamaModel*` structs in `main.rs`;
`ModelRegistry::list`, `contains` and `replace_all` in `models.rs`.

The sync task is the only writer. It assigns the two fields of the registry one after the other, under the
write lock, so between the two assignments the contents are of no single round. The readers take the read
lock. A round is what one pass of the loop gets from the core; the list of the rounds that are over is
history and is read by no step.
-/

namespace InferenceGateway.Gateway

open Common

/-! ## Fetching the models -/

structure LlamaModelStatus where
  value : String

structure LlamaModelEntry where
  id : String
  aliases : Option (List String)
  status : Option LlamaModelStatus

structure LlamaModelsResponse where
  data : List LlamaModelEntry

/-- The registry entry of a model of the core. -/
def LlamaModelEntry.info (entry : LlamaModelEntry) : ModelInfo where
  name := entry.id
  status := ((entry.status.map (·.value)).filter fun value => !value.isEmpty).getD "loaded"
  device := "gpu0"
  backend := "llama.cpp-cuda"

/-- `fetch_core_models`, given the decoding of the body. -/
def fetchCoreModels (decode : List UInt8 → Except String LlamaModelsResponse) (reply : CoreReply) :
    Except String (List ModelInfo × List String) := do
  let parsed ← receive decode "failed to decode /v1/models response: " reply
  let models := parsed.data.map LlamaModelEntry.info
  let aliases := parsed.data.flatMap fun entry => entry.aliases.getD []
  return (models, aliases)

/-- What one round of the loop meets: the reply of the core, or nothing within the timeout. -/
abbrev Round := Option CoreReply

/-! ## The sync task and the readers -/

/-- Where the sync task stands. In `replace_all`, `next` is what the two assignments will have written. -/
inductive SyncPhase
  /-- Sleeping or fetching. -/
  | fetching
  /-- In `replace_all`; about to take the write lock. -/
  | locking (round : Round) (next : ModelRegistry)
  /-- Holds the write lock; about to assign `models`. -/
  | locked (round : Round) (next : ModelRegistry)
  /-- Holds the write lock; about to assign `known_names`. -/
  | halfway (round : Round) (next : ModelRegistry)
  /-- Holds the write lock; about to release it. -/
  | assigned (round : Round)

/-- The sync task holds the write lock. -/
def SyncPhase.holdsLock : SyncPhase → Bool
  | .fetching => false
  | .locking _ _ => false
  | _ => true

/-- A call of a reader. -/
inductive ReadCall
  | list
  | contains (name : String)
deriving DecidableEq, Repr

/-- What a call of a reader returns. -/
inductive ReadResult
  | models (models : List ModelInfo)
  | member (known : Bool)
deriving DecidableEq, Repr

/-- The body of `list` and `contains`, under the read lock. -/
def ReadCall.read (r : ModelRegistry) : ReadCall → ReadResult
  | .list => .models r.list
  | .contains name => .member (r.contains name)

/-- Where a reader stands. `seen` counts the rounds that were over when it read; it is history. -/
inductive ReaderPhase
  /-- About to take the read lock. -/
  | called
  /-- Holds the read lock. -/
  | reading
  | returned (result : ReadResult) (seen : ℕ)
deriving DecidableEq, Repr

structure Reader where
  call : ReadCall
  phase : ReaderPhase := .called
deriving DecidableEq, Repr

/-- The registry with the tasks that use it. -/
structure RegistryState where
  inner : ModelRegistry
  sync : SyncPhase
  readers : List Reader
  /-- The rounds that are over. -/
  rounds : List Round

/-- A reader holds the read lock. -/
def Reader.holdsLock (reader : Reader) : Bool :=
  match reader.phase with
  | .reading => true
  | _ => false

inductive RegistryAction
  /-- A round of the loop ends its fetch. -/
  | fetched (round : Round)
  /-- The next step of `replace_all`. -/
  | sync
  | call (call : ReadCall)
  /-- The next step of a reader. -/
  | reader (i : ℕ)

/-- The sync task after a fetch: a failed or timed-out one only ends the round. -/
def fetchedStep (decode : List UInt8 → Except String LlamaModelsResponse) (s : RegistryState)
    (round : Round) : RegistryState :=
  match round.map (fetchCoreModels decode) with
  | some (.ok (models, aliases)) =>
    { s with sync := .locking round (ModelRegistry.replaceAll models aliases) }
  | _ => { s with rounds := s.rounds ++ [round] }

/-- A step of `replace_all`. -/
def replaceStep (s : RegistryState) : Option RegistryState :=
  match s.sync with
  | .fetching => none
  | .locking round next =>
    if s.readers.any Reader.holdsLock then none else some { s with sync := .locked round next }
  | .locked round next =>
    some { s with inner := { s.inner with models := next.models }, sync := .halfway round next }
  | .halfway round next =>
    some { s with inner := { s.inner with knownNames := next.knownNames }, sync := .assigned round }
  | .assigned round => some { s with sync := .fetching, rounds := s.rounds ++ [round] }

/-- A step of a reader. -/
def readerStep (s : RegistryState) (i : ℕ) (reader : Reader) : Option RegistryState :=
  match reader.phase with
  | .called =>
    if s.sync.holdsLock then none
    else some { s with readers := s.readers.set i { reader with phase := .reading } }
  | .reading =>
    let result := reader.call.read s.inner
    some { s with readers := s.readers.set i { reader with phase := .returned result s.rounds.length } }
  | .returned _ _ => none

/-- The registry as a transition system. -/
def registrySystem (decode : List UInt8 → Except String LlamaModelsResponse) :
    System RegistryState RegistryAction where
  init s := s = { inner := ModelRegistry.default, sync := .fetching, readers := [], rounds := [] }
  step s
    | .fetched round =>
      match s.sync with
      | .fetching => some (fetchedStep decode s round)
      | _ => none
    | .sync => replaceStep s
    | .call call => some { s with readers := s.readers ++ [{ call := call }] }
    | .reader i => (s.readers[i]?).bind (readerStep s i)

/-! ## What the registry should contain -/

variable {decode : List UInt8 → Except String LlamaModelsResponse}

/-- The decoded response of a round that succeeded. -/
def roundResponse (decode : List UInt8 → Except String LlamaModelsResponse) :
    Round → Option LlamaModelsResponse
  | none => none
  | some (.sendFailed _) => none
  | some (.response r) =>
    if r.isSuccess then
      match r.bytes with
      | .error _ => none
      | .ok body => (decode body).toOption
    else none

/-- The response of the last round that succeeded. -/
def lastSuccess (decode : List UInt8 → Except String LlamaModelsResponse) (rounds : List Round) :
    Option LlamaModelsResponse :=
  (rounds.filterMap (roundResponse decode)).getLast?

/-- The registry for a response of the core; before the first one, the static snapshot. -/
def snapshot : Option LlamaModelsResponse → ModelRegistry
  | none => ModelRegistry.default
  | some resp =>
    ModelRegistry.replaceAll (resp.data.map LlamaModelEntry.info)
      (resp.data.flatMap fun entry => entry.aliases.getD [])

theorem lastSuccess_append_of_none {rounds : List Round} {round : Round}
    (h : roundResponse decode round = none) : lastSuccess decode (rounds ++ [round]) = lastSuccess decode rounds := by
  simp [lastSuccess, h]

theorem lastSuccess_append_of_some {rounds : List Round} {round : Round} {resp : LlamaModelsResponse}
    (h : roundResponse decode round = some resp) : lastSuccess decode (rounds ++ [round]) = some resp := by
  simp [lastSuccess, h]

/-- A fetch yields the models and aliases of the response, if there is one. -/
theorem fetchCoreModels_toOption (decode : List UInt8 → Except String LlamaModelsResponse)
    (reply : CoreReply) :
    (fetchCoreModels decode reply).toOption = (roundResponse decode (some reply)).map fun resp =>
      (resp.data.map LlamaModelEntry.info, resp.data.flatMap fun entry => entry.aliases.getD []) := by
  cases reply with
  | sendFailed err => rfl
  | response r =>
    simp only [fetchCoreModels, receive, roundResponse]
    split
    · cases r.bytes with
      | error err => rfl
      | ok body =>
        dsimp only
        cases decode body <;> rfl
    · rfl

/-- A round whose response is decoded leads to `replace_all` with its models and aliases. -/
theorem fetchedStep_of_some {s : RegistryState} {round : Round} {resp : LlamaModelsResponse}
    (h : roundResponse decode round = some resp) :
    fetchedStep decode s round = { s with sync := .locking round (snapshot (some resp)) } := by
  cases round with
  | none => cases h
  | some reply =>
    have hfetch := fetchCoreModels_toOption decode reply
    rw [h, Option.map_some] at hfetch
    unfold fetchedStep
    rw [Option.map_some]
    cases hresult : fetchCoreModels decode reply with
    | error err =>
      rw [hresult] at hfetch
      cases hfetch
    | ok fetched =>
      rw [hresult] at hfetch
      cases hfetch
      rfl

/-- A round that failed or timed out changes nothing. -/
theorem fetchedStep_of_none {s : RegistryState} {round : Round} (h : roundResponse decode round = none) :
    fetchedStep decode s round = { s with rounds := s.rounds ++ [round] } := by
  cases round with
  | none => rfl
  | some reply =>
    have hfetch := fetchCoreModels_toOption decode reply
    rw [h, Option.map_none] at hfetch
    unfold fetchedStep
    rw [Option.map_some]
    cases hresult : fetchCoreModels decode reply with
    | error err => rfl
    | ok fetched =>
      rw [hresult] at hfetch
      cases hfetch

/-! ## The invariant -/

/-- The contents belong to the rounds that are over, except while the sync task holds the lock. -/
def SyncPhase.Contents (decode : List UInt8 → Except String LlamaModelsResponse) (s : RegistryState) :
    SyncPhase → Prop
  | .fetching => s.inner = snapshot (lastSuccess decode s.rounds)
  | .locking round next =>
    s.inner = snapshot (lastSuccess decode s.rounds) ∧
      next = snapshot (lastSuccess decode (s.rounds ++ [round]))
  | .locked round next => next = snapshot (lastSuccess decode (s.rounds ++ [round]))
  | .halfway round next =>
    s.inner.models = next.models ∧ next = snapshot (lastSuccess decode (s.rounds ++ [round]))
  | .assigned round => s.inner = snapshot (lastSuccess decode (s.rounds ++ [round]))

/-- A reader holds the lock only if the sync task does not, and what it returns is what the call gives on
the snapshot of the rounds it has seen. -/
def Reader.Consistent (decode : List UInt8 → Except String LlamaModelsResponse) (s : RegistryState)
    (reader : Reader) : Prop :=
  match reader.phase with
  | .called => True
  | .reading => s.sync.holdsLock = false
  | .returned result seen =>
    seen ≤ s.rounds.length ∧ result = reader.call.read (snapshot (lastSuccess decode (s.rounds.take seen)))

structure RegistryInv (decode : List UInt8 → Except String LlamaModelsResponse) (s : RegistryState) :
    Prop where
  contents : s.sync.Contents decode s
  readers : ∀ reader ∈ s.readers, reader.Consistent decode s

/-- While the sync task does not hold the lock, the contents are those of the last round that succeeded. -/
theorem RegistryInv.inner_eq {s : RegistryState} (hinv : RegistryInv decode s)
    (h : s.sync.holdsLock = false) : s.inner = snapshot (lastSuccess decode s.rounds) := by
  have hcontents := hinv.contents
  cases hsync : s.sync with
  | fetching => rwa [hsync] at hcontents
  | locking round next =>
    rw [hsync] at hcontents
    exact hcontents.1
  | locked | halfway | assigned =>
    rw [hsync] at h
    cases h

variable {s t : RegistryState}

/-- What a reader has seen stays what it was. -/
theorem Reader.Consistent.mono {reader : Reader} (h : reader.Consistent decode s)
    (hrounds : s.rounds <+: t.rounds)
    (hlock : reader.holdsLock = true → s.sync.holdsLock = false → t.sync.holdsLock = false) :
    reader.Consistent decode t := by
  obtain ⟨more, hmore⟩ := hrounds
  unfold Reader.Consistent at h ⊢
  cases hphase : reader.phase with
  | called => trivial
  | reading =>
    rw [hphase] at h
    exact hlock (by rw [Reader.holdsLock, hphase]) h
  | returned result seen =>
    rw [hphase] at h
    dsimp only at h ⊢
    rw [← hmore, List.length_append, List.take_append_of_le_length h.1]
    exact ⟨h.1.trans (Nat.le_add_right _ _), h.2⟩

private theorem RegistryInv.fetched (hinv : RegistryInv decode s) (hsync : s.sync = .fetching)
    (round : Round) : RegistryInv decode (fetchedStep decode s round) := by
  have hinner : s.inner = snapshot (lastSuccess decode s.rounds) := hinv.inner_eq (by rw [hsync]; rfl)
  cases hresp : roundResponse decode round with
  | none =>
    rw [fetchedStep_of_none hresp]
    constructor
    · rw [hsync]
      show s.inner = _
      rw [lastSuccess_append_of_none hresp, hinner]
    · intro reader hreader
      exact (hinv.readers reader hreader).mono (List.prefix_append _ _) fun _ h => h
  | some resp =>
    rw [fetchedStep_of_some hresp]
    constructor
    · exact ⟨hinner, by rw [lastSuccess_append_of_some hresp]⟩
    · intro reader hreader
      exact (hinv.readers reader hreader).mono (List.prefix_refl _) fun _ _ => rfl

private theorem RegistryInv.replace (hinv : RegistryInv decode s) (h : replaceStep s = some t) :
    RegistryInv decode t := by
  have hcontents := hinv.contents
  unfold replaceStep at h
  cases hsync : s.sync with
  | fetching =>
    rw [hsync] at h
    cases h
  | locking round next =>
    rw [hsync] at h hcontents
    dsimp only at h
    split at h
    · cases h
    · rename_i hfree
      cases h
      refine ⟨hcontents.2, fun reader hreader => ?_⟩
      refine (hinv.readers reader hreader).mono (List.prefix_refl _) fun hholds => ?_
      exact absurd (List.any_eq_true.mpr ⟨reader, hreader, hholds⟩) hfree
  | locked round next =>
    rw [hsync] at h hcontents
    cases h
    refine ⟨⟨rfl, hcontents⟩, fun reader hreader => ?_⟩
    refine (hinv.readers reader hreader).mono (List.prefix_refl _) fun _ hlock => ?_
    rw [hsync] at hlock
    cases hlock
  | halfway round next =>
    rw [hsync] at h hcontents
    cases h
    refine ⟨?_, fun reader hreader => ?_⟩
    · show (⟨s.inner.models, next.knownNames⟩ : ModelRegistry) = _
      rw [hcontents.1]
      exact hcontents.2
    · refine (hinv.readers reader hreader).mono (List.prefix_refl _) fun _ hlock => ?_
      rw [hsync] at hlock
      cases hlock
  | assigned round =>
    rw [hsync] at h hcontents
    cases h
    refine ⟨hcontents, fun reader hreader => ?_⟩
    exact (hinv.readers reader hreader).mono (List.prefix_append _ _) fun _ _ => rfl

private theorem RegistryInv.reader (hinv : RegistryInv decode s) {i : ℕ} {reader : Reader}
    (hi : s.readers[i]? = some reader) (h : readerStep s i reader = some t) : RegistryInv decode t := by
  have hold := hinv.readers reader (List.mem_of_getElem? hi)
  unfold readerStep at h
  unfold Reader.Consistent at hold
  -- The other readers are untouched.
  have hset {reader' : Reader} {t : RegistryState} (hrounds : t.rounds = s.rounds)
      (hsync : t.sync = s.sync) (hinner : t.inner = s.inner)
      (hreaders : t.readers = s.readers.set i reader') (hnew : reader'.Consistent decode t) :
      RegistryInv decode t := by
    constructor
    · have hcontents := hinv.contents
      unfold SyncPhase.Contents at hcontents ⊢
      rwa [hsync, hinner, hrounds]
    · intro other hother
      rw [hreaders] at hother
      rcases List.mem_or_eq_of_mem_set hother with hmem | rfl
      · refine (hinv.readers other hmem).mono (by rw [hrounds]) fun _ hlock => ?_
        rwa [hsync]
      · exact hnew
  cases hphase : reader.phase with
  | called =>
    rw [hphase] at h
    dsimp only at h
    split at h
    · cases h
    · rename_i hfree
      cases h
      exact hset rfl rfl rfl rfl (Bool.eq_false_iff.mpr hfree)
  | reading =>
    rw [hphase] at h hold
    cases h
    refine hset rfl rfl rfl rfl ⟨le_refl _, ?_⟩
    rw [List.take_length]
    exact congrArg reader.call.read (hinv.inner_eq hold)
  | returned result seen =>
    rw [hphase] at h
    cases h

theorem RegistryInv.step (hinv : RegistryInv decode s) {a : RegistryAction}
    (h : (registrySystem decode).step s a = some t) : RegistryInv decode t := by
  cases a with
  | fetched round =>
    simp only [registrySystem] at h
    split at h
    · cases h
      exact hinv.fetched ‹_› round
    · cases h
  | sync => exact hinv.replace h
  | call call =>
    cases h
    refine ⟨hinv.contents, fun reader hreader => ?_⟩
    rcases List.mem_append.mp hreader with hreader | hreader
    · exact (hinv.readers reader hreader).mono (List.prefix_refl _) fun _ h => h
    · rw [List.mem_singleton.mp hreader]
      trivial
  | reader i =>
    obtain ⟨reader, hi, hstep⟩ := Option.bind_eq_some_iff.mp h
    exact hinv.reader hi hstep

theorem registryInv_of_reachable (h : (registrySystem decode).Reachable s) : RegistryInv decode s :=
  h.invariant (fun _ hs => hs ▸ ⟨rfl, fun _ hr => absurd hr List.not_mem_nil⟩)
    fun _ _ _ _ hinv _ hstep => hinv.step hstep

/-! ## What the readers get -/

/-- The status of a model: `loaded` if the core gives none or an empty one. -/
def LlamaModelEntry.shownStatus (entry : LlamaModelEntry) : String :=
  match entry.status with
  | none => "loaded"
  | some status => if status.value = "" then "loaded" else status.value

/-- `models` lists the models of a response in order; the static ones before the first response. -/
def Lists : Option LlamaModelsResponse → List ModelInfo → Prop
  | none, models => models = ModelRegistry.default.models
  | some resp, models =>
    List.Forall₂ (fun entry model => model.name = entry.id ∧ model.status = entry.shownStatus)
      resp.data models

/-- `name` is the name or an alias of a model of a response, up to ASCII case. -/
def Knows : Option LlamaModelsResponse → String → Prop
  | none, name => ∃ model ∈ ModelRegistry.default.models, EqIgnoreAsciiCase name model.name
  | some resp, name =>
    ∃ entry ∈ resp.data, EqIgnoreAsciiCase name entry.id ∨
      ∃ other ∈ entry.aliases.getD [], EqIgnoreAsciiCase name other

/-- The result of a call mirrors a response. -/
def ReadCall.Mirrors (resp : Option LlamaModelsResponse) : ReadCall → ReadResult → Prop
  | .list, .models models => Lists resp models
  | .contains name, .member known => known = true ↔ Knows resp name
  | _, _ => False

theorem LlamaModelEntry.info_status (entry : LlamaModelEntry) :
    entry.info.status = entry.shownStatus := by
  obtain ⟨id, aliases, status⟩ := entry
  cases status with
  | none => rfl
  | some status =>
    simp only [info, shownStatus, Option.map_some, Option.filter_some, Bool.not_eq_true',
      String.isEmpty_eq_false_iff]
    by_cases hempty : status.value = ""
    · simp [hempty]
    · simp [hempty]

theorem lists_snapshot (resp : Option LlamaModelsResponse) : Lists resp (snapshot resp).list := by
  cases resp with
  | none => rfl
  | some resp =>
    refine List.forall₂_map_right_iff.mpr (List.forall₂_same.mpr fun entry _ => ?_)
    exact ⟨rfl, entry.info_status⟩

theorem contains_snapshot (resp : Option LlamaModelsResponse) (name : String) :
    (snapshot resp).contains name = true ↔ Knows resp name := by
  cases resp with
  | none => exact ModelRegistry.contains_default
  | some resp =>
    refine ModelRegistry.contains_replaceAll.trans ?_
    constructor
    · rintro (⟨model, hmodel, hname⟩ | ⟨other, hother, hname⟩)
      · obtain ⟨entry, hentry, rfl⟩ := List.mem_map.mp hmodel
        exact ⟨entry, hentry, .inl hname⟩
      · obtain ⟨entry, hentry, hother⟩ := List.mem_flatMap.mp hother
        exact ⟨entry, hentry, .inr ⟨other, hother, hname⟩⟩
    · rintro ⟨entry, hentry, hname | ⟨other, hother, hname⟩⟩
      · exact .inl ⟨entry.info, List.mem_map_of_mem hentry, hname⟩
      · exact .inr ⟨other, List.mem_flatMap.mpr ⟨entry, hentry, hother⟩, hname⟩

theorem ReadCall.mirrors_snapshot (call : ReadCall) (resp : Option LlamaModelsResponse) :
    call.Mirrors resp (call.read (snapshot resp)) := by
  cases call with
  | list => exact lists_snapshot resp
  | contains name => exact contains_snapshot resp name

/-- In every run of the sync task and any readers: whoever holds the read lock has before it the registry of
the last round that succeeded, in both fields; what a call returned mirrors the last response among the
rounds that were over when it read; and a round that fails or times out changes nothing. -/
theorem registry_mirrors_last_success (decode : List UInt8 → Except String LlamaModelsResponse)
    {s : RegistryState} (hs : (registrySystem decode).Reachable s) :
    (∀ reader ∈ s.readers, reader.holdsLock = true →
      s.inner = snapshot (lastSuccess decode s.rounds)) ∧
    (∀ reader ∈ s.readers, ∀ result seen, reader.phase = .returned result seen →
      seen ≤ s.rounds.length ∧
        reader.call.Mirrors (lastSuccess decode (s.rounds.take seen)) result) ∧
    ∀ round t, roundResponse decode round = none →
      (registrySystem decode).step s (.fetched round) = some t →
        t = { s with rounds := s.rounds ++ [round] } := by
  have hinv := registryInv_of_reachable hs
  refine ⟨fun reader hreader hholds => ?_, fun reader hreader result seen hphase => ?_,
    fun round t hfailed hstep => ?_⟩
  · have hconsistent := hinv.readers reader hreader
    unfold Reader.holdsLock at hholds
    unfold Reader.Consistent at hconsistent
    split at hholds
    · rename_i hreading
      rw [hreading] at hconsistent
      exact hinv.inner_eq hconsistent
    · cases hholds
  · have hconsistent := hinv.readers reader hreader
    rw [Reader.Consistent, hphase] at hconsistent
    obtain ⟨hseen, rfl⟩ := hconsistent
    exact ⟨hseen, reader.call.mirrors_snapshot _⟩
  · simp only [registrySystem] at hstep
    split at hstep
    · rw [fetchedStep_of_none hfailed, Option.some.injEq] at hstep
      exact hstep.symm
    · cases hstep

/-! ## A round that times out, and one that succeeds -/

/-- A core with one model, whatever the body. -/
def oneModelDecode (_ : List UInt8) : Except String LlamaModelsResponse :=
  .ok { data := [{ id := "qwen2.5-3b", aliases := some ["small"], status := none }] }

/-- A call of `contains` after a round that timed out and one that brought the model. -/
def aliasRun : List RegistryAction :=
  [.fetched none,
    .fetched (some (.response { status := 200, statusText := "200 OK", text := none, bytes := .ok [] })),
    .sync, .sync, .sync, .sync, .call (.contains "SMALL"), .reader 0, .reader 0]

/-- The alias of the model is known up to case. -/
theorem registry_mirrors_last_success_alias :
    ∃ s, (registrySystem oneModelDecode).Reachable s ∧
      s.readers = [{ call := .contains "SMALL", phase := .returned (.member true) 2 }] ∧
      Knows (lastSuccess oneModelDecode (s.rounds.take 2)) "SMALL" := by
  have hinit : (registrySystem oneModelDecode).Reachable
      { inner := ModelRegistry.default, sync := .fetching, readers := [], rounds := [] } := .init rfl
  obtain ⟨s, hs, hreaders⟩ := hinit.exists_of_run
    (fun s => s.readers = [{ call := .contains "SMALL", phase := .returned (.member true) 2 }]) aliasRun
    (by decide +kernel)
  have hmirrors := (registry_mirrors_last_success oneModelDecode hs).2.1
  rw [hreaders] at hmirrors
  obtain ⟨-, hknown⟩ := hmirrors _ List.mem_cons_self _ _ rfl
  exact ⟨s, hs, hreaders, hknown.mp rfl⟩

end InferenceGateway.Gateway
