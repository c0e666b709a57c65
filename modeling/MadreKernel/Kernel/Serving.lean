import MadreKernel.Kernel.Engines
import MadreKernel.Kernel.Numbers
import MadreKernel.Kernel.System

/-!
# Serving a connection

`serve_connection` reads a `HELLO`, answers it, reads one request and answers that.  A handler
returns a reply or throws, and so does the encoding of the reply; the one `catch` of the connection
answers an exception with an error about the `HELLO` frame.  The calls that a handler makes to the
store, the file system and the worker pool are parameters: each may answer anything, or throw a
text.

Every request comes to one of three things: a reply, whose texts may be refused by the encoder; the
text of a check that failed; or the text of the first of its calls that throws.
-/

namespace Kernel

namespace Serving

open Wire

def helloCode : UInt16 := 1

def helloResponse : UInt16 := 2

def kMinKernelProtocolVersion : Int32 := 2

def kMaxKernelProtocolVersion : Int32 := 2

/-- What the calls of a handler answer: a value, or the text that they throw. -/
structure Calls where
  nowMs : Int64
  /-- the two numbers that the id generator draws -/
  draws : UInt64 × UInt64
  /-- `write_binary_atomic` -/
  write : Bytes → Bytes → Except Bytes Unit
  submit : WorkRecord → Except Bytes Unit
  find : Bytes → Except Bytes (Option WorkRecord)
  acknowledge : Bytes → Except Bytes Bool
  cancel : Bytes → Except Bytes (Option WorkState)
  fileExists : Bytes → Except Bytes Bool
  fileSize : Bytes → Except Bytes Nat
  /-- what `read_binary_bounded` finds in a file -/
  content : Bytes → Except Bytes Bytes
  isWarm : Bytes → Bool

variable (cfg : Config) (calls : Calls)

/-! ### Handlers -/

def hello (request : Frame) : Except Bytes Frame := do
  let clientMin ← stoi (← metadataValue request "min_kernel_protocol_version")
  let clientMax ← stoi (← metadataValue request "max_kernel_protocol_version")
  let overlapMin := max clientMin kMinKernelProtocolVersion
  let overlapMax := min clientMax kMaxKernelProtocolVersion
  if clientMin > clientMax || overlapMin > overlapMax then
    return errorResponse request "VERSION_MISMATCH" "no compatible Kernel protocol/API version"
  else
    return withField ⟨helloResponse, request.correlationId, ∅, []⟩ "kernel_protocol_version"
      (Bytes.ofString (toString overlapMax.toInt))

def submit (request : Frame) : Except Bytes Frame :=
  if request.payload.length > kMaxC1TextGenerationOpaquePayloadBytes then
    .ok (errorResponse request "PAYLOAD_TOO_LARGE"
      "C1 text-generation/v1 input exceeds the 1 MiB bounded payload limit; streaming/spooling is deferred")
  else do
    let work ← submitRecord cfg.dataDir request calls.nowMs calls.draws
    calls.write work.inputPath request.payload
    calls.submit work
    return System.submitReply request work

/-- The handlers that begin with `find`. -/
def findFirst (request : Frame) (found : Bytes → WorkRecord → Except Bytes Frame) :
    Except Bytes Frame := do
  let id ← metadataValue request "work_id"
  match ← calls.find id with
  | none => return workNotFound request
  | some work => found id work

def status (request : Frame) : Except Bytes Frame :=
  findFirst calls request fun _ work => .ok (statusReply request work)

def readBinaryBounded (path : Bytes) : Except Bytes Bytes := do
  let content ← calls.content path
  if content.length > kMaxC1TextGenerationOpaquePayloadBytes then .error tooLarge
  else return content

/-- Whether the result of a Work is available. -/
def available (work : WorkRecord) : Except Bytes Bool :=
  if work.state = .succeeded ∧ work.acknowledged = false then calls.fileExists work.resultPath
  else .ok false

def result (request : Frame) : Except Bytes Frame :=
  findFirst calls request fun _ work => do
    let out := withField (response .resultResponse request) "state" (stateText work.state)
    if ← available calls work then
      let out := withField out "available" (Bytes.ofString "true")
      if (← calls.fileSize work.resultPath) > kMaxC1TextGenerationOpaquePayloadBytes then
        return errorResponse request "PAYLOAD_TOO_LARGE"
          "C1 text-generation/v1 result exceeds the 1 MiB bounded payload limit; streaming/spooling is deferred"
      else
        return { out with payload := ← readBinaryBounded calls work.resultPath }
    else return withField out "available" (Bytes.ofString "false")

/-- `acknowledge`; what the removal of the files throws is dropped. -/
def acknowledge (request : Frame) : Except Bytes Frame :=
  findFirst calls request fun id _ => do
    if ← calls.acknowledge id then return System.acknowledgeReply request
    else
      return errorResponse request "RESULT_NOT_ACKNOWLEDGEABLE"
        "result is not available for acknowledgement"

def cancel (request : Frame) : Except Bytes Frame := do
  let id ← metadataValue request "work_id"
  match ← calls.cancel id with
  | none => return workNotFound request
  | some state =>
      return withField (response .cancelResponse request) "state" (stateText state)

def handle (request : Frame) : Except Bytes Frame :=
  if request.type = MessageType.submit.code then submit cfg calls request
  else if request.type = MessageType.status.code then status calls request
  else if request.type = MessageType.result.code then result calls request
  else if request.type = MessageType.acknowledge.code then acknowledge calls request
  else if request.type = MessageType.cancel.code then cancel calls request
  else if request.type = MessageType.listEngines.code then
    .ok (listEngines cfg.inventory calls.isWarm request)
  else if request.type = MessageType.engineStatus.code then
    engineStatus cfg.inventory calls.isWarm request
  else .ok (errorResponse request "UNKNOWN_MESSAGE" "unsupported Kernel command")

/-! ### The connection -/

/-- The error reply of the `catch` of a connection. -/
def caughtResponse (helloRequest : Frame) : WireError → Frame
  | .framing text =>
      ⟨MessageType.error.code, helloRequest.correlationId,
        (SortedMap.emplace ∅ (Bytes.ofString "code") (Bytes.ofString "FRAMING_ERROR")).emplace
          (Bytes.ofString "message") text, []⟩
  | .runtime text => throwResponse helloRequest text

/-- What the `catch` of a connection sends: nothing, when its error reply throws again. -/
def catchSends (helloRequest : Frame) (e : WireError) : List Frame :=
  match encodeFrame (caughtResponse helloRequest e) with
  | .ok _ => [caughtResponse helloRequest e]
  | .error _ => []

/-- What is sent for a reply that is computed and written, up to the end of the connection or to
what `next` sends. -/
def sends (helloRequest : Frame) (reply : Except WireError Frame) (next : Frame → List Frame) :
    List Frame :=
  match reply with
  | .error e => catchSends helloRequest e
  | .ok frame =>
      match encodeFrame frame with
      | .error e => catchSends helloRequest e
      | .ok _ => frame :: next frame

/-- The frames that `serve_connection` sends on a connection that takes what is written to it, from
what the two calls of `read_frame` return or throw. -/
def serveConnection (first second : Except WireError Frame) : List Frame :=
  match first with
  | .error e => catchSends ⟨0, 0, ∅, []⟩ e
  | .ok helloRequest =>
      if helloRequest.type ≠ helloCode then
        sends helloRequest
          (.ok (errorResponse helloRequest "HELLO_REQUIRED" "HELLO must be the first frame"))
          fun _ => []
      else
        sends helloRequest ((hello helloRequest).mapError .runtime) fun helloReply =>
          if helloReply.type = MessageType.error.code then []
          else
            match second with
            | .error e => catchSends helloRequest e
            | .ok request =>
                sends helloRequest ((handle cfg calls request).mapError .runtime) fun _ => []

/-! ### What a request meets -/

/-- The types of the requests, each with the type of its response. -/
def responseTypes : List (UInt16 × UInt16) :=
  [(MessageType.submit.code, MessageType.submitResponse.code),
    (MessageType.status.code, MessageType.statusResponse.code),
    (MessageType.result.code, MessageType.resultResponse.code),
    (MessageType.acknowledge.code, MessageType.acknowledgeResponse.code),
    (MessageType.cancel.code, MessageType.cancelResponse.code),
    (MessageType.listEngines.code, listEnginesResponse),
    (MessageType.engineStatus.code, engineStatusResponse)]

/-- The reply has the response type of the request, or is an error. -/
def Matches (request reply : Frame) : Prop :=
  reply.type = MessageType.error.code ∨ (request.type, reply.type) ∈ responseTypes

theorem Matches.of_types {request reply : Frame} {a : UInt16} (b : UInt16)
    (hrequest : request.type = a) (hreply : reply.type = b) (h : (a, b) ∈ responseTypes) :
  Matches request reply
  := by
  rw [Matches, hrequest, hreply]
  exact Or.inr h

/-- The fields that `submit` checks are there and pass their checks. -/
structure SubmitFields (request : Frame) : Prop where
  workType : ∃ text, metadataValue request "work_type" = .ok text
  effort : ∃ effort, (metadataValue request "effort").bind validateEffort = .ok effort
  urgency : ∃ urgency, (metadataValue request "urgency").bind validateUrgency = .ok urgency
  maxAttempts : ∃ n, parsePositiveInt request "max_attempts" = .ok n
  retryDelayMs : ∃ text n, metadataValue request "retry_delay_ms" = .ok text
    ∧ parseI64 text "retry_delay_ms" = .ok n ∧ ¬n < 0
  eligibleAtMs : ∃ t, optionalNonnegativeI64 request "eligible_at_ms" = .ok t
  deadlineMs : ∃ t, optionalNonnegativeI64 request "deadline_ms" = .ok t
  timeoutMs : ∃ t, optionalNonnegativeI64 request "timeout_ms" = .ok t

/-- The fields that the handler of a request checks are there and pass their checks. -/
@[mk_iff]
structure Valid (request : Frame) : Prop where
  submit : request.type = MessageType.submit.code →
    request.payload.length ≤ kMaxC1TextGenerationOpaquePayloadBytes → SubmitFields request
  workId : request.type ∈ [MessageType.status.code, MessageType.result.code,
      MessageType.acknowledge.code, MessageType.cancel.code] →
    ∃ id, metadataValue request "work_id" = .ok id
  engineId : request.type = MessageType.engineStatus.code →
    ∃ id, metadataValue request "engine_id" = .ok id

/-- A call that the handler of a request makes throws a text. -/
@[mk_iff]
inductive Raises (request : Frame) : Bytes → Prop where
  | write {work : WorkRecord} {text : Bytes} (htype : request.type = MessageType.submit.code)
      (hpayload : request.payload.length ≤ kMaxC1TextGenerationOpaquePayloadBytes)
      (hrecord : submitRecord cfg.dataDir request calls.nowMs calls.draws = .ok work)
      (hraise : calls.write work.inputPath request.payload = .error text) : Raises request text
  | submit {work : WorkRecord} {text : Bytes} (htype : request.type = MessageType.submit.code)
      (hpayload : request.payload.length ≤ kMaxC1TextGenerationOpaquePayloadBytes)
      (hrecord : submitRecord cfg.dataDir request calls.nowMs calls.draws = .ok work)
      (hwrite : calls.write work.inputPath request.payload = .ok ())
      (hraise : calls.submit work = .error text) : Raises request text
  | find {id text : Bytes}
      (htype : request.type ∈ [MessageType.status.code, MessageType.result.code,
        MessageType.acknowledge.code])
      (hid : metadataValue request "work_id" = .ok id) (hraise : calls.find id = .error text) :
      Raises request text
  | available {id text : Bytes} {work : WorkRecord}
      (htype : request.type = MessageType.result.code)
      (hid : metadataValue request "work_id" = .ok id) (hfind : calls.find id = .ok (some work))
      (hraise : available calls work = .error text) : Raises request text
  | fileSize {id text : Bytes} {work : WorkRecord} (htype : request.type = MessageType.result.code)
      (hid : metadataValue request "work_id" = .ok id) (hfind : calls.find id = .ok (some work))
      (havailable : available calls work = .ok true)
      (hraise : calls.fileSize work.resultPath = .error text) : Raises request text
  | read {id text : Bytes} {work : WorkRecord} {size : Nat}
      (htype : request.type = MessageType.result.code)
      (hid : metadataValue request "work_id" = .ok id) (hfind : calls.find id = .ok (some work))
      (havailable : available calls work = .ok true)
      (hsize : calls.fileSize work.resultPath = .ok size)
      (hbound : size ≤ kMaxC1TextGenerationOpaquePayloadBytes)
      (hraise : readBinaryBounded calls work.resultPath = .error text) : Raises request text
  | acknowledge {id text : Bytes} {work : WorkRecord}
      (htype : request.type = MessageType.acknowledge.code)
      (hid : metadataValue request "work_id" = .ok id) (hfind : calls.find id = .ok (some work))
      (hraise : calls.acknowledge id = .error text) : Raises request text
  | cancel {id text : Bytes} (htype : request.type = MessageType.cancel.code)
      (hid : metadataValue request "work_id" = .ok id) (hraise : calls.cancel id = .error text) :
      Raises request text

/-- The texts that the reply to a request carries are plain and fit the metadata: the failure of
the Work for `STATUS`, the facts of the engines for the two queries about engines. -/
@[mk_iff]
structure Fits (request : Frame) : Prop where
  status : request.type = MessageType.status.code → ∀ id,
    metadataValue request "work_id" = .ok id → ∀ work, calls.find id = .ok (some work) →
    plainText work.technicalFailure = true
      ∧ (stateText work.state).length + work.technicalFailure.length + 26 ≤ kMaxMetadata
  engines : request.type = MessageType.listEngines.code →
    (∀ engine ∈ cfg.inventory, ∀ text ∈ engine.texts, plainText text = true)
      ∧ textLength (listFields cfg.inventory calls.isWarm) ≤ kMaxMetadata
  engine : request.type = MessageType.engineStatus.code → ∀ id,
    metadataValue request "engine_id" = .ok id → ∀ engine,
    cfg.inventory.find? (fun descriptor => descriptor.id = id) = some engine →
    (∀ text ∈ engine.texts, plainText text = true)
      ∧ textLength (descriptorFields [] engine (calls.isWarm engine.id)) ≤ kMaxMetadata

/-- The text of an exception that the error reply can carry. -/
def Sendable (text : Bytes) : Prop := plainText text = true ∧ text.length + 40 ≤ kMaxMetadata

/-- What comes of a request: a reply to it, the text of a check that failed, or the text that one of
its calls threw. -/
inductive Outcome (request : Frame) (valid : Prop) (raises : Bytes → Prop) (fits : Prop) :
    Except Bytes Frame → Prop where
  | replied {reply : Frame} (hvalid : valid) (hquiet : ∀ text, ¬raises text)
      (hcorrelation : reply.correlationId = request.correlationId)
      (hmatches : Matches request reply) (hfits : encodable reply = true ↔ fits) :
      Outcome request valid raises fits (.ok reply)
  | refused {text : Bytes} (hvalid : ¬valid) (hquiet : ∀ text, ¬raises text)
      (hsendable : Sendable text) : Outcome request valid raises fits (.error text)
  | raised {text : Bytes} (hvalid : valid) (hraises : ∀ t, raises t ↔ t = text) :
      Outcome request valid raises fits (.error text)

/-! ### The texts of replies -/

/-- The names of the fields of replies other than those about engines, with their lengths. -/
def replyFields : List (String × Nat) :=
  [("code", 4), ("message", 7), ("work_id", 7), ("state", 5), ("technical_failure", 17),
    ("available", 9), ("acknowledged", 12), ("kernel_protocol_version", 23)]

theorem replyField_plain {name : String} {n : Nat} (h : (name, n) ∈ replyFields) :
  plainKey (Bytes.ofString name) = true ∧ (Bytes.ofString name).length = n
  := by
  have hall : ∀ field ∈ replyFields,
      plainKey (Bytes.ofString field.1) = true ∧ (Bytes.ofString field.1).length = field.2 := by
    simp only [replyFields, List.forall_mem_cons]
    and_intros
    all_goals decide +kernel
  exact hall _ h

theorem stateText_plain (state : WorkState) :
  plainText (stateText state) = true ∧ (stateText state).length ≤ 9
  := by
  cases state with
  | _ => decide +kernel

/-- The other texts of the Kernel's own that replies carry. -/
def replyTexts : List String :=
  ["true", "false", "FRAMING_ERROR", "invalid framed metadata",
    "frame exceeds C1 bounded text-generation/v1 framing limits", "PAYLOAD_TOO_LARGE",
    "C1 text-generation/v1 input exceeds the 1 MiB bounded payload limit; streaming/spooling is deferred",
    "C1 text-generation/v1 result exceeds the 1 MiB bounded payload limit; streaming/spooling is deferred",
    "WORK_NOT_FOUND", "unknown WorkId", "RESULT_NOT_ACKNOWLEDGEABLE",
    "result is not available for acknowledgement", "ENGINE_NOT_FOUND", "unknown physical engine",
    "UNKNOWN_MESSAGE", "unsupported Kernel command"]

theorem replyText_plain {text : String} (h : text ∈ replyTexts) :
  plainText (Bytes.ofString text) = true ∧ (Bytes.ofString text).length ≤ 128
  := by
  simp only [replyTexts, List.mem_cons, List.not_mem_nil, or_false] at h
  rcases h with rfl | rfl | rfl | rfl | rfl | rfl | rfl | rfl | rfl | rfl | rfl | rfl | rfl | rfl
    | rfl | rfl
  all_goals decide +kernel

/-! ### Which replies are encodable -/

/-- A reply with two fields. -/
theorem encodable_two
    (type : UInt16) (correlationId : UInt64) {k k' : Bytes} (hne : k ≠ k') (v v' payload : Bytes) :
  encodable ⟨type, correlationId, SortedMap.ofAssigned [(k, v), (k', v')], payload⟩ = true
    ↔ (plainKey k = true ∧ plainText v = true) ∧ (plainKey k' = true ∧ plainText v' = true)
      ∧ textLength [(k, v), (k', v')] ≤ kMaxMetadata
      ∧ payload.length ≤ kMaxC1TextGenerationOpaquePayloadBytes
  := by
  rw [encodable_iff_of_perm (SortedMap.perm_ofAssigned (by simp [hne])), List.forall_mem_cons,
    List.forall_mem_singleton, and_assoc]

theorem encodable_one
    (type : UInt16) (correlationId : UInt64) (k v payload : Bytes) :
  encodable ⟨type, correlationId, SortedMap.ofAssigned [(k, v)], payload⟩ = true
    ↔ (plainKey k = true ∧ plainText v = true) ∧ textLength [(k, v)] ≤ kMaxMetadata
      ∧ payload.length ≤ kMaxC1TextGenerationOpaquePayloadBytes
  := by
  rw [encodable_iff_of_perm (SortedMap.perm_ofAssigned (by simp)), List.forall_mem_singleton]

/-- A reply with one field and a short text in it. -/
theorem encodable_ownField
    (type : MessageType) {name : String} {n : Nat} (hname : (name, n) ∈ replyFields)
    {value : Bytes} (hvalue : plainText value = true ∧ value.length ≤ 128) (request : Frame) :
  encodable (withField (response type request) name value) = true
  := by
  obtain ⟨hkey, hlength⟩ := replyField_plain hname
  have hn : n ≤ 23 := by
    have hall : ∀ field ∈ replyFields, field.2 ≤ 23 := by
      decide
    exact hall _ hname
  have hfits : textLength [(Bytes.ofString name, value)] ≤ kMaxMetadata := by
    have hbound := hvalue.2
    simp only [textLength, List.map_cons, List.map_nil, List.sum_cons, List.sum_nil, hlength,
      kMaxMetadata]
    omega
  exact (encodable_one _ _ _ _ _).mpr ⟨⟨hkey, hvalue.1⟩, hfits, Nat.zero_le _⟩

/-- An error reply. -/
theorem encodable_error
    (type : UInt16) (correlationId : UInt64) (code message : Bytes) :
  encodable ⟨type, correlationId, (SortedMap.emplace ∅ (Bytes.ofString "code") code).emplace
      (Bytes.ofString "message") message, []⟩ = true
    ↔ (plainText code = true ∧ plainText message = true)
      ∧ code.length + message.length + 15 ≤ kMaxMetadata
  := by
  obtain ⟨hcode, hlength⟩ : _ ∧ (Bytes.ofString "code").length = 4 :=
    replyField_plain (by simp [replyFields])
  obtain ⟨hmessage, hlength'⟩ : _ ∧ (Bytes.ofString "message").length = 7 :=
    replyField_plain (by simp [replyFields])
  have hnodup : [Bytes.ofString "code", Bytes.ofString "message"].Nodup := by
    simp [Bytes.ofString_injective.eq_iff]
  have hperm : ((SortedMap.emplace ∅ (Bytes.ofString "code") code).emplace
      (Bytes.ofString "message") message).entries.Perm
        [(Bytes.ofString "code", code), (Bytes.ofString "message", message)] :=
    SortedMap.perm_ofEntries
      (l := [(Bytes.ofString "code", code), (Bytes.ofString "message", message)]) hnodup
  rw [encodable_iff_of_perm hperm, List.forall_mem_cons, List.forall_mem_singleton]
  simp only [hcode, hmessage, true_and, textLength, List.map_cons, List.map_nil, List.sum_cons,
    List.sum_nil, hlength, hlength', List.length_nil, Nat.zero_le, and_true]
  constructor
  · rintro ⟨htexts, hfits⟩
    exact ⟨htexts, by omega⟩
  · rintro ⟨htexts, hfits⟩
    exact ⟨htexts, by omega⟩

theorem encodable_throwResponse (helloRequest : Frame) (text : Bytes) :
  encodable (throwResponse helloRequest text) = true ↔ Sendable text
  := by
  have hcode : plainText (Bytes.ofString "PROTOCOL_OR_REQUEST_ERROR") = true
      ∧ (Bytes.ofString "PROTOCOL_OR_REQUEST_ERROR").length = 25 := by
    decide +kernel
  rw [throwResponse, encodable_error, hcode.1, hcode.2, Sendable]
  constructor
  · rintro ⟨⟨-, hplain⟩, hfits⟩
    exact ⟨hplain, by omega⟩
  · rintro ⟨hplain, hfits⟩
    exact ⟨⟨rfl, hplain⟩, by omega⟩

/-- An error reply with texts of the Kernel's own. -/
theorem encodable_ownError
    (type : UInt16) (correlationId : UInt64) {code message : String} (hcode : code ∈ replyTexts)
    (hmessage : message ∈ replyTexts) :
  encodable ⟨type, correlationId,
      (SortedMap.emplace ∅ (Bytes.ofString "code") (Bytes.ofString code)).emplace
        (Bytes.ofString "message") (Bytes.ofString message), []⟩ = true
  := by
  obtain ⟨hcode, hlength⟩ := replyText_plain hcode
  obtain ⟨hmessage, hlength'⟩ := replyText_plain hmessage
  rw [encodable_error, kMaxMetadata]
  exact ⟨⟨hcode, hmessage⟩, by omega⟩

/-- What the encoder throws can be sent. -/
theorem encodable_caughtResponse
    {frame : Frame} {e : WireError} (h : encodeFrame frame = .error e) (helloRequest : Frame) :
  encodable (caughtResponse helloRequest e) = true
  := by
  have hcases : e = .runtime (Bytes.ofString "invalid framed metadata") ∨ e = frameTooLarge := by
    rw [encodeFrame] at h
    split at h
    next e' hmetadata =>
      left
      cases h
      exact KeyValue.eq_of_renderIf_eq_error hmetadata
    next metadata hmetadata =>
      split_ifs at h
      cases h
      exact Or.inr rfl
  rcases hcases with rfl | rfl
  · obtain ⟨hplain, hlength⟩ : plainText (Bytes.ofString "invalid framed metadata") = true ∧ _ :=
      replyText_plain (by simp [replyTexts])
    rw [caughtResponse, encodable_throwResponse, Sendable, kMaxMetadata]
    exact ⟨hplain, by omega⟩
  · apply encodable_ownError
    all_goals simp [replyTexts]

/-! ### The checks of `submit` -/

theorem bind_eq_error {ε α β : Type} {x : Except ε α} {f : α → Except ε β} {e : ε}
    (h : x >>= f = .error e) :
  x = .error e ∨ ∃ a, x = .ok a ∧ f a = .error e
  := by
  cases x with
  | error e' =>
      cases h
      exact Or.inl rfl
  | ok a => exact Or.inr ⟨a, rfl, h⟩

/-- The texts of the checks of `submit`. -/
def submitTexts : List Bytes :=
  (["work_type", "effort", "urgency", "max_attempts", "retry_delay_ms"].map fun field =>
      Bytes.ofString "missing metadata field: " ++ Bytes.ofString field)
    ++ (["max_attempts", "retry_delay_ms", "eligible_at_ms", "deadline_ms", "timeout_ms"].map
      fun field => Bytes.ofString "invalid integer metadata field: " ++ Bytes.ofString field)
    ++ (["eligible_at_ms", "deadline_ms", "timeout_ms"].map fun field =>
      Bytes.ofString field ++ Bytes.ofString " must be >= 0")
    ++ [Bytes.ofString "invalid effort", Bytes.ofString "invalid urgency",
      Bytes.ofString "max_attempts"
        ++ Bytes.ofString " must be >= 1 and fit the physical integer representation",
      Bytes.ofString "retry_delay_ms must be >= 0"]

theorem metadataValue_eq_error {request : Frame} {key : String} {e : Bytes}
    (h : metadataValue request key = .error e) :
  e = Bytes.ofString "missing metadata field: " ++ Bytes.ofString key
  := by
  rw [metadataValue] at h
  split at h
  · cases h
    rfl
  · cases h

theorem parseI64_eq_error {value : Bytes} {field : String} {e : Bytes}
    (h : parseI64 value field = .error e) :
  e = Bytes.ofString "invalid integer metadata field: " ++ Bytes.ofString field
  := by
  rw [parseI64] at h
  split at h
  · split_ifs at h
    cases h
    rfl
  · cases h
    rfl

theorem optionalNonnegativeI64_eq_error {request : Frame} {key : String} {e : Bytes}
    (h : optionalNonnegativeI64 request key = .error e) :
  e = Bytes.ofString "invalid integer metadata field: " ++ Bytes.ofString key
    ∨ e = Bytes.ofString key ++ Bytes.ofString " must be >= 0"
  := by
  rw [optionalNonnegativeI64] at h
  split_ifs at h
  split at h
  next e' hparse =>
    cases h
    exact Or.inl (parseI64_eq_error hparse)
  next =>
    split_ifs at h
    cases h
    exact Or.inr rfl

/-- A `SUBMIT` is refused with the text of one of its checks. -/
theorem mem_submitTexts
    {dataDir : Bytes} {request : Frame} {submittedAt : Int64} {draws : UInt64 × UInt64} {e : Bytes}
    (h : submitRecord dataDir request submittedAt draws = .error e) :
  e ∈ submitTexts
  := by
  rw [submitRecord] at h
  rcases bind_eq_error h with h | ⟨workType, -, h⟩
  · rw [metadataValue_eq_error h]
    simp [submitTexts]
  rcases bind_eq_error h with h | ⟨effort, -, h⟩
  · rw [metadataValue_eq_error h]
    simp [submitTexts]
  rcases bind_eq_error h with h | ⟨urgency, -, h⟩
  · rw [metadataValue_eq_error h]
    simp [submitTexts]
  rcases bind_eq_error h with h | ⟨effort', -, h⟩
  · rw [validateEffort] at h
    split_ifs at h
    cases h
    simp [submitTexts]
  rcases bind_eq_error h with h | ⟨urgency', -, h⟩
  · rw [validateUrgency] at h
    split_ifs at h
    cases h
    simp [submitTexts]
  rcases bind_eq_error h with h | ⟨maxAttempts, -, h⟩
  · rw [parsePositiveInt] at h
    rcases bind_eq_error h with h | ⟨text, -, h⟩
    · rw [metadataValue_eq_error h]
      simp [submitTexts]
    rcases bind_eq_error h with h | ⟨n, -, h⟩
    · rw [parseI64_eq_error h]
      simp [submitTexts]
    split_ifs at h
    cases h
    simp [submitTexts]
  rcases bind_eq_error h with h | ⟨delayText, -, h⟩
  · rw [metadataValue_eq_error h]
    simp [submitTexts]
  rcases bind_eq_error h with h | ⟨retryDelayMs, -, h⟩
  · rw [parseI64_eq_error h]
    simp [submitTexts]
  simp only at h
  split_ifs at h with hdelay
  · cases h
    simp [submitTexts]
  rcases bind_eq_error h with h | ⟨eligibleAt, -, h⟩
  · rcases optionalNonnegativeI64_eq_error h with rfl | rfl
    all_goals simp [submitTexts]
  rcases bind_eq_error h with h | ⟨deadline, -, h⟩
  · rcases optionalNonnegativeI64_eq_error h with rfl | rfl
    all_goals simp [submitTexts]
  rcases bind_eq_error h with h | ⟨timeout, -, h⟩
  · rcases optionalNonnegativeI64_eq_error h with rfl | rfl
    all_goals simp [submitTexts]
  cases h

theorem sendable_of_mem_submitTexts {text : Bytes} (h : text ∈ submitTexts) :
  Sendable text
  := by
  have hall : ∀ text ∈ submitTexts,
      plainText text = true ∧ text.length + 40 ≤ kMaxMetadata := by
    simp only [submitTexts, List.map_cons, List.map_nil, List.cons_append, List.nil_append,
      List.forall_mem_cons]
    and_intros
    all_goals decide +kernel
  exact hall text h

/-- A missing field is refused with a text that can be sent. -/
theorem sendable_missing {request : Frame} {key : String} {e : Bytes}
    (hkey : key ∈ ["work_id", "engine_id"]) (h : metadataValue request key = .error e) :
  Sendable e
  := by
  have hall : ∀ key ∈ ["work_id", "engine_id"],
      plainText (Bytes.ofString "missing metadata field: " ++ Bytes.ofString key) = true
        ∧ (Bytes.ofString "missing metadata field: " ++ Bytes.ofString key).length + 40
          ≤ kMaxMetadata := by
    decide +kernel
  rw [metadataValue_eq_error h]
  exact hall key hkey

/-- A `SUBMIT` has a Work record exactly when its fields pass their checks. -/
theorem submitRecord_isOk_iff
    (dataDir : Bytes) (request : Frame) (submittedAt : Int64) (draws : UInt64 × UInt64) :
  (∃ work, submitRecord dataDir request submittedAt draws = .ok work) ↔ SubmitFields request
  := by
  constructor
  · rintro ⟨work, h⟩
    rw [submitRecord] at h
    obtain ⟨workType, htype, h⟩ := bind_eq_ok h
    obtain ⟨effort, heffort, h⟩ := bind_eq_ok h
    obtain ⟨urgency, hurgency, h⟩ := bind_eq_ok h
    obtain ⟨effort', heffort', h⟩ := bind_eq_ok h
    obtain ⟨urgency', hurgency', h⟩ := bind_eq_ok h
    obtain ⟨maxAttempts, hmax, h⟩ := bind_eq_ok h
    obtain ⟨delayText, htext, h⟩ := bind_eq_ok h
    obtain ⟨retryDelayMs, hdelay, h⟩ := bind_eq_ok h
    simp only at h
    split_ifs at h with hneg
    · obtain ⟨_, herror, -⟩ := bind_eq_ok h
      cases herror
    obtain ⟨eligibleAt, heligible, h⟩ := bind_eq_ok h
    obtain ⟨deadline, hdeadline, h⟩ := bind_eq_ok h
    obtain ⟨timeout, htimeout, h⟩ := bind_eq_ok h
    constructor
    · exact ⟨_, htype⟩
    · use effort'
      rw [heffort]
      exact heffort'
    · use urgency'
      rw [hurgency]
      exact hurgency'
    · exact ⟨_, hmax⟩
    · exact ⟨_, _, htext, hdelay, hneg⟩
    · exact ⟨_, heligible⟩
    · exact ⟨_, hdeadline⟩
    · exact ⟨_, htimeout⟩
  · rintro ⟨⟨workType, htype⟩, ⟨effort', heffort'⟩, ⟨urgency', hurgency'⟩, ⟨maxAttempts, hmax⟩,
      ⟨delayText, retryDelayMs, htext, hdelay, hneg⟩, ⟨eligibleAt, heligible⟩,
      ⟨deadline, hdeadline⟩, ⟨timeout, htimeout⟩⟩
    obtain ⟨effort, heffort, heffort'⟩ := bind_eq_ok heffort'
    obtain ⟨urgency, hurgency, hurgency'⟩ := bind_eq_ok hurgency'
    rw [submitRecord]
    simp only [htype, heffort, hurgency, heffort', hurgency', hmax, htext, hdelay, hneg, heligible,
      hdeadline, htimeout, bind, Except.bind, if_false]
    exact ⟨_, rfl⟩

/-! ### What comes of a request -/

section

variable {cfg : Config} {calls : Calls} {request : Frame}

theorem encodable_submitReply
    {work : WorkRecord} {dataDir : Bytes} {submittedAt : Int64} {draws : UInt64 × UInt64}
    (h : submitRecord dataDir request submittedAt draws = .ok work) :
  encodable (System.submitReply request work) = true
  := by
  have hdigits : ∀ k < 16, hexDigit k ∉ [carriageReturn, lineFeed] := by
    decide
  have hplain : plainText work.id = true := by
    rw [(submitRecord_times h).1, plainText, Bool.not_eq_true', List.any_eq_false]
    intro b hb hmem
    obtain ⟨k, hk, rfl⟩ := exists_hexDigit_of_mem_makeWorkId hb
    exact hdigits k hk (of_decide_eq_true hmem)
  have hlength : work.id.length = 32 := by
    rw [(submitRecord_times h).1, length_makeWorkId]
  exact encodable_ownField .submitResponse (n := 7) (by simp [replyFields])
    ⟨hplain, by omega⟩ request

theorem submit_outcome (htype : request.type = MessageType.submit.code) :
  Outcome request (Valid request) (Raises cfg calls request) (Fits cfg calls request)
    (submit cfg calls request)
  := by
  have hfits : Fits cfg calls request := by
    simp [fits_iff, htype, MessageType.code]
  have hvalid : Valid request
      ↔ (request.payload.length ≤ kMaxC1TextGenerationOpaquePayloadBytes →
        SubmitFields request) := by
    simp [valid_iff, htype, MessageType.code]
  rw [submit]
  split_ifs with hlarge
  · apply Outcome.replied
    · exact hvalid.mpr fun hsmall => absurd hlarge (Nat.not_lt.mpr hsmall)
    · simp [raises_iff, htype, MessageType.code, Nat.not_le.mpr hlarge]
    · rfl
    · exact Or.inl rfl
    · simp only [hfits, iff_true]
      apply encodable_ownError
      all_goals simp [replyTexts]
  · have hsmall := Nat.le_of_not_lt hlarge
    cases hrecord : submitRecord cfg.dataDir request calls.nowMs calls.draws with
    | error e =>
        apply Outcome.refused
        · intro h
          obtain ⟨work, hwork⟩ := (submitRecord_isOk_iff cfg.dataDir request calls.nowMs
            calls.draws).mpr (hvalid.mp h hsmall)
          rw [hrecord] at hwork
          cases hwork
        · simp [raises_iff, htype, MessageType.code, hrecord]
        · exact sendable_of_mem_submitTexts (mem_submitTexts hrecord)
    | ok work =>
        have hfields : Valid request := by
          apply hvalid.mpr
          intro _
          exact (submitRecord_isOk_iff _ _ _ _).mp ⟨work, hrecord⟩
        cases hwrite : calls.write work.inputPath request.payload with
        | error e =>
            simp only [bind, Except.bind, hwrite]
            apply Outcome.raised hfields
            simp [raises_iff, htype, MessageType.code, hrecord, hwrite, hsmall, eq_comm]
        | ok u =>
            cases hsubmit : calls.submit work with
            | error e =>
                simp only [bind, Except.bind, hwrite, hsubmit]
                apply Outcome.raised hfields
                simp [raises_iff, htype, MessageType.code, hrecord, hwrite, hsubmit, hsmall,
                  eq_comm]
            | ok u =>
                simp only [bind, Except.bind, hwrite, hsubmit]
                apply Outcome.replied hfields
                · simp [raises_iff, htype, MessageType.code, hrecord, hwrite, hsubmit]
                · rfl
                · exact .of_types MessageType.submitResponse.code htype rfl (by decide)
                · simp only [hfits, iff_true]
                  exact encodable_submitReply hrecord

theorem encodable_stateReply (type : MessageType) (state : WorkState) :
  encodable (withField (response type request) "state" (stateText state)) = true
  := by
  obtain ⟨hplain, hlength⟩ := stateText_plain state
  exact encodable_ownField type (n := 5) (by simp [replyFields]) ⟨hplain, by omega⟩ request

/-- The reply to `STATUS` is encodable when the failure of the Work is plain and fits. -/
theorem encodable_statusReply (work : WorkRecord) :
  encodable (statusReply request work) = true
    ↔ plainText work.technicalFailure = true
      ∧ (stateText work.state).length + work.technicalFailure.length + 26 ≤ kMaxMetadata
  := by
  obtain ⟨hstate, hlength⟩ : _ ∧ (Bytes.ofString "state").length = 5 :=
    replyField_plain (by simp [replyFields])
  obtain ⟨hfailure, hlength'⟩ : _ ∧ (Bytes.ofString "technical_failure").length = 17 :=
    replyField_plain (by simp [replyFields])
  have hne : Bytes.ofString "state" ≠ Bytes.ofString "technical_failure" :=
    Bytes.ofString_injective.ne (by decide)
  rw [statusReply]
  split_ifs with hnone
  · rw [encodable_stateReply, hnone]
    have := (stateText_plain work.state).2
    simp only [true_iff]
    refine ⟨rfl, ?_⟩
    simp only [List.length_nil, kMaxMetadata]
    omega
  · have htwo := encodable_two MessageType.statusResponse.code request.correlationId hne
      (stateText work.state) work.technicalFailure []
    simp only [hstate, hfailure, (stateText_plain work.state).1, textLength, List.map_cons,
      List.map_nil, List.sum_cons, List.sum_nil, hlength, hlength', true_and, and_self, List.length_nil,
      Nat.zero_le, and_true] at htwo
    apply htwo.trans
    constructor
    · rintro ⟨hplain, hfits⟩
      exact ⟨hplain, by omega⟩
    · rintro ⟨hplain, hfits⟩
      exact ⟨hplain, by omega⟩

/-- A handler that begins with `find` does what it does with the Work that is found. -/
theorem findFirst_outcome
    {found : Bytes → WorkRecord → Except Bytes Frame}
    (htype : request.type = MessageType.status.code ∨ request.type = MessageType.result.code
      ∨ request.type = MessageType.acknowledge.code)
    (hfound : ∀ id work, metadataValue request "work_id" = .ok id →
      calls.find id = .ok (some work) → Valid request →
      Outcome request (Valid request) (Raises cfg calls request) (Fits cfg calls request)
        (found id work)) :
  Outcome request (Valid request) (Raises cfg calls request) (Fits cfg calls request)
    (findFirst calls request found)
  := by
  have hvalid : Valid request ↔ ∃ id, metadataValue request "work_id" = .ok id := by
    rcases htype with htype | htype | htype
    all_goals simp [valid_iff, htype, MessageType.code]
  rw [findFirst]
  cases hid : metadataValue request "work_id" with
  | error e =>
      simp only [bind, Except.bind]
      apply Outcome.refused
      · rw [hvalid, hid]
        simp
      · rcases htype with htype | htype | htype
        all_goals simp [raises_iff, htype, MessageType.code, hid]
      · exact sendable_missing (by simp) hid
  | ok id =>
      have hfields := hvalid.mpr ⟨id, hid⟩
      cases hfind : calls.find id with
      | error e =>
          simp only [bind, Except.bind, hfind]
          apply Outcome.raised hfields
          rcases htype with htype | htype | htype
          all_goals simp [raises_iff, htype, MessageType.code, hid, hfind, eq_comm]
      | ok work =>
          simp only [bind, Except.bind, hfind]
          cases work with
          | none =>
              apply Outcome.replied hfields
              · rcases htype with htype | htype | htype
                all_goals simp [raises_iff, htype, MessageType.code, hid, hfind]
              · rfl
              · exact Or.inl rfl
              · have hfits : Fits cfg calls request := by
                  rcases htype with htype | htype | htype
                  all_goals simp [fits_iff, htype, MessageType.code, hid, hfind]
                simp only [hfits, iff_true]
                apply encodable_ownError
                all_goals simp [replyTexts]
          | some work => exact hfound id work hid hfind hfields

theorem status_outcome (htype : request.type = MessageType.status.code) :
  Outcome request (Valid request) (Raises cfg calls request) (Fits cfg calls request)
    (status calls request)
  := by
  apply findFirst_outcome (Or.inl htype)
  intro id work hid hfind hvalid
  apply Outcome.replied hvalid
  · simp [raises_iff, htype, MessageType.code, hid, hfind]
  · rw [statusReply]
    split_ifs
    all_goals rfl
  · apply Matches.of_types MessageType.statusResponse.code htype _ (by decide)
    rw [statusReply]
    split_ifs
    all_goals rfl
  · rw [encodable_statusReply]
    simp [fits_iff, htype, MessageType.code, hid, hfind]

theorem acknowledge_outcome (htype : request.type = MessageType.acknowledge.code) :
  Outcome request (Valid request) (Raises cfg calls request) (Fits cfg calls request)
    (acknowledge calls request)
  := by
  have hfits : Fits cfg calls request := by
    simp [fits_iff, htype, MessageType.code]
  apply findFirst_outcome (Or.inr (Or.inr htype))
  intro id work hid hfind hvalid
  cases hcall : calls.acknowledge id with
  | error e =>
      simp only [bind, Except.bind]
      apply Outcome.raised hvalid
      simp [raises_iff, htype, MessageType.code, hid, hfind, hcall, eq_comm]
  | ok acknowledged =>
      have hquiet : ∀ text, ¬Raises cfg calls request text := by
        simp [raises_iff, htype, MessageType.code, hid, hfind, hcall]
      simp only [bind, Except.bind]
      cases acknowledged with
      | true =>
          apply Outcome.replied hvalid hquiet
          · rfl
          · exact .of_types MessageType.acknowledgeResponse.code htype rfl (by decide)
          · simp only [hfits, iff_true]
            exact encodable_ownField .acknowledgeResponse (n := 12) (by simp [replyFields])
              (replyText_plain (by simp [replyTexts])) request
      | false =>
          apply Outcome.replied hvalid hquiet
          · rfl
          · exact Or.inl rfl
          · simp only [hfits, iff_true]
            apply encodable_ownError
            all_goals simp [replyTexts]

theorem cancel_outcome (htype : request.type = MessageType.cancel.code) :
  Outcome request (Valid request) (Raises cfg calls request) (Fits cfg calls request)
    (cancel calls request)
  := by
  have hfits : Fits cfg calls request := by
    simp [fits_iff, htype, MessageType.code]
  have hvalid : Valid request ↔ ∃ id, metadataValue request "work_id" = .ok id := by
    simp [valid_iff, htype, MessageType.code]
  rw [cancel]
  cases hid : metadataValue request "work_id" with
  | error e =>
      simp only [bind, Except.bind]
      apply Outcome.refused
      · rw [hvalid, hid]
        simp
      · simp [raises_iff, htype, MessageType.code, hid]
      · exact sendable_missing (by simp) hid
  | ok id =>
      have hfields := hvalid.mpr ⟨id, hid⟩
      cases hcall : calls.cancel id with
      | error e =>
          simp only [bind, Except.bind, hcall]
          apply Outcome.raised hfields
          simp [raises_iff, htype, MessageType.code, hid, hcall, eq_comm]
      | ok state =>
          have hquiet : ∀ text, ¬Raises cfg calls request text := by
            simp [raises_iff, htype, MessageType.code, hid, hcall]
          simp only [bind, Except.bind, hcall]
          cases state with
          | none =>
              apply Outcome.replied hfields hquiet
              · rfl
              · exact Or.inl rfl
              · simp only [hfits, iff_true]
                apply encodable_ownError
                all_goals simp [replyTexts]
          | some state =>
              apply Outcome.replied hfields hquiet
              · rfl
              · exact .of_types MessageType.cancelResponse.code htype rfl (by decide)
              · simp only [hfits, iff_true]
                apply encodable_stateReply

/-- The reply to `RESULT` is encodable when its payload is within the limit. -/
theorem encodable_resultReply
    (state : WorkState) {available : String} (h : available = "true" ∨ available = "false")
    {payload : Bytes} (hpayload : payload.length ≤ kMaxC1TextGenerationOpaquePayloadBytes) :
  encodable { withField (withField (response .resultResponse request) "state" (stateText state))
    "available" (Bytes.ofString available) with payload } = true
  := by
  obtain ⟨hkey, hlength⟩ : _ ∧ (Bytes.ofString "state").length = 5 :=
    replyField_plain (by simp [replyFields])
  obtain ⟨hkey', hlength'⟩ : _ ∧ (Bytes.ofString "available").length = 9 :=
    replyField_plain (by simp [replyFields])
  obtain ⟨hstate, hbound⟩ := stateText_plain state
  obtain ⟨hplain, hbound'⟩ : plainText (Bytes.ofString available) = true
      ∧ (Bytes.ofString available).length ≤ 128 := by
    rcases h with rfl | rfl
    all_goals exact replyText_plain (by simp [replyTexts])
  have hne : Bytes.ofString "state" ≠ Bytes.ofString "available" :=
    Bytes.ofString_injective.ne (by decide)
  apply (encodable_two MessageType.resultResponse.code request.correlationId hne
    (stateText state) (Bytes.ofString available) payload).mpr
  refine ⟨⟨hkey, hstate⟩, ⟨hkey', hplain⟩, ?_, hpayload⟩
  simp only [textLength, List.map_cons, List.map_nil, List.sum_cons, List.sum_nil, hlength,
    hlength', kMaxMetadata]
  omega

theorem length_of_readBinaryBounded
    {path content : Bytes} (h : readBinaryBounded calls path = .ok content) :
  content.length ≤ kMaxC1TextGenerationOpaquePayloadBytes
  := by
  rw [readBinaryBounded] at h
  obtain ⟨found, -, h⟩ := bind_eq_ok h
  split_ifs at h with hlarge
  cases h
  exact Nat.le_of_not_lt hlarge

theorem result_outcome (htype : request.type = MessageType.result.code) :
  Outcome request (Valid request) (Raises cfg calls request) (Fits cfg calls request)
    (result calls request)
  := by
  have hfits : Fits cfg calls request := by
    simp [fits_iff, htype, MessageType.code]
  apply findFirst_outcome (Or.inr (Or.inl htype))
  intro id work hid hfind hvalid
  cases havailable : available calls work with
  | error e =>
      simp only [bind, Except.bind]
      apply Outcome.raised hvalid
      simp [raises_iff, htype, MessageType.code, hid, hfind, havailable, eq_comm]
  | ok isAvailable =>
      cases isAvailable with
      | false =>
          apply Outcome.replied hvalid
          · simp [raises_iff, htype, MessageType.code, hid, hfind, havailable]
          · rfl
          · exact .of_types MessageType.resultResponse.code htype rfl (by decide)
          · simp only [hfits, iff_true]
            exact encodable_resultReply work.state (Or.inr rfl) (Nat.zero_le _)
      | true =>
          simp only [bind, Except.bind, if_true]
          cases hsize : calls.fileSize work.resultPath with
          | error e =>
              apply Outcome.raised hvalid
              simp [raises_iff, htype, MessageType.code, hid, hfind, havailable, hsize, eq_comm]
          | ok size =>
              simp only
              split_ifs with hlarge
              · apply Outcome.replied hvalid
                · simp [raises_iff, htype, MessageType.code, hid, hfind, havailable, hsize,
                    Nat.not_le.mpr hlarge]
                · rfl
                · exact Or.inl rfl
                · simp only [hfits, iff_true]
                  apply encodable_ownError
                  all_goals simp [replyTexts]
              · have hsmall := Nat.le_of_not_lt hlarge
                cases hread : readBinaryBounded calls work.resultPath with
                | error e =>
                    apply Outcome.raised hvalid
                    simp [raises_iff, htype, MessageType.code, hid, hfind, havailable, hsize,
                      hsmall, hread, eq_comm]
                | ok payload =>
                    apply Outcome.replied hvalid
                    · simp [raises_iff, htype, MessageType.code, hid, hfind, havailable, hsize,
                        hread]
                    · rfl
                    · exact .of_types MessageType.resultResponse.code htype rfl (by decide)
                    · simp only [hfits, iff_true]
                      exact encodable_resultReply work.state (Or.inl rfl)
                        (length_of_readBinaryBounded hread)

theorem listEngines_outcome (htype : request.type = MessageType.listEngines.code) :
  Outcome request (Valid request) (Raises cfg calls request) (Fits cfg calls request)
    (.ok (listEngines cfg.inventory calls.isWarm request))
  := by
  apply Outcome.replied
  · simp [valid_iff, htype, MessageType.code]
  · simp [raises_iff, htype, MessageType.code]
  · rw [listEngines_eq]
  · apply Matches.of_types listEnginesResponse htype _ (by decide)
    rw [listEngines_eq]
  · rw [encodable_listEngines]
    simp [fits_iff, htype, MessageType.code]

theorem engineStatus_outcome (htype : request.type = MessageType.engineStatus.code) :
  Outcome request (Valid request) (Raises cfg calls request) (Fits cfg calls request)
    (engineStatus cfg.inventory calls.isWarm request)
  := by
  have hvalid : Valid request ↔ ∃ id, metadataValue request "engine_id" = .ok id := by
    simp [valid_iff, htype, MessageType.code]
  have hquiet : ∀ text, ¬Raises cfg calls request text := by
    simp [raises_iff, htype, MessageType.code]
  rw [engineStatus]
  cases hid : metadataValue request "engine_id" with
  | error e =>
      simp only [bind, Except.bind]
      apply Outcome.refused
      · rw [hvalid, hid]
        simp
      · exact hquiet
      · exact sendable_missing (by simp) hid
  | ok id =>
      have hfields := hvalid.mpr ⟨id, hid⟩
      simp only [bind, Except.bind]
      cases hfind : cfg.inventory.find? (fun descriptor => descriptor.id = id) with
      | none =>
          apply Outcome.replied hfields hquiet
          · rfl
          · exact Or.inl rfl
          · have hfits : Fits cfg calls request := by
              simp [fits_iff, htype, MessageType.code, hid, hfind]
            simp only [hfits, iff_true]
            apply encodable_ownError
            all_goals simp [replyTexts]
      | some engine =>
          apply Outcome.replied hfields hquiet
          · rfl
          · exact .of_types engineStatusResponse htype rfl (by decide)
          · rw [encodable_engineReply]
            simp [fits_iff, htype, MessageType.code, hid, hfind]

/-- Every request comes to a reply, a failed check or a call that throws. -/
theorem handle_outcome (cfg : Config) (calls : Calls) (request : Frame) :
  Outcome request (Valid request) (Raises cfg calls request) (Fits cfg calls request)
    (handle cfg calls request)
  := by
  rw [handle]
  split_ifs with hsubmit hstatus hresult hacknowledge hcancel hlist hengine
  · exact submit_outcome hsubmit
  · exact status_outcome hstatus
  · exact result_outcome hresult
  · exact acknowledge_outcome hacknowledge
  · exact cancel_outcome hcancel
  · exact listEngines_outcome hlist
  · exact engineStatus_outcome hengine
  · apply Outcome.replied
    · simp [valid_iff, hsubmit, hstatus, hresult, hacknowledge, hcancel, hengine]
    · simp [raises_iff, hsubmit, hstatus, hresult, hacknowledge, hcancel]
    · rfl
    · exact Or.inl rfl
    · have hfits : Fits cfg calls request := by
        simp [fits_iff, hstatus, hlist, hengine]
      simp only [hfits, iff_true]
      apply encodable_ownError
      all_goals simp [replyTexts]

end

end Serving

end Kernel
