import MadreKernel.Kernel.Selection
import MadreKernel.Wire.Frame

/-!
# Requests

What the handlers of the Kernel read from a request and put in a reply: metadata fields, the
integers in them, the Work record of a `SUBMIT` with its id and its files, and the two error
replies.  A handler that throws a text is an `Except Bytes`.
-/

namespace Kernel

/-- The message types of the requests and replies that are modelled. -/
inductive MessageType where
  | submit | submitResponse | status | statusResponse | result | resultResponse
  | acknowledge | acknowledgeResponse | cancel | cancelResponse | listEngines | engineStatus
  | error
  deriving DecidableEq

/-- The number of a message type on the wire. -/
def MessageType.code : MessageType → UInt16
  | .submit => 10
  | .submitResponse => 11
  | .status => 20
  | .statusResponse => 21
  | .result => 30
  | .resultResponse => 31
  | .acknowledge => 40
  | .acknowledgeResponse => 41
  | .cancel => 50
  | .cancelResponse => 51
  | .listEngines => 60
  | .engineStatus => 70
  | .error => 90

def response (type : MessageType) (request : Frame) : Frame :=
  ⟨type.code, request.correlationId, ∅, []⟩

def errorResponse (request : Frame) (code message : String) : Frame :=
  ⟨MessageType.error.code, request.correlationId,
    (SortedMap.emplace ∅ (Bytes.ofString "code") (Bytes.ofString code)).emplace
      (Bytes.ofString "message") (Bytes.ofString message), []⟩

/-- The reply to a request whose handler throws a text. -/
def throwResponse (hello : Frame) (text : Bytes) : Frame :=
  ⟨MessageType.error.code, hello.correlationId,
    (SortedMap.emplace ∅ (Bytes.ofString "code")
      (Bytes.ofString "PROTOCOL_OR_REQUEST_ERROR")).emplace (Bytes.ofString "message") text, []⟩

/-! ### Metadata fields -/

def metadataValue (frame : Frame) (key : String) : Except Bytes Bytes :=
  match frame.metadata.find? (Bytes.ofString key) with
  | none => .error (Bytes.ofString "missing metadata field: " ++ Bytes.ofString key)
  | some value => .ok value

def optionalMetadata (frame : Frame) (key : String) : Bytes :=
  (frame.metadata.find? (Bytes.ofString key)).getD []

/-- `isspace` in the C locale. -/
def isSpace (b : UInt8) : Bool := b = 32 || (9 ≤ b && b ≤ 13)

/-- The number of a text of decimal digits. -/
def parseDigits (digits : Bytes) : Option Nat :=
  if digits = [] then none
  else
    digits.foldl (fun value b =>
      value.bind fun n => if 48 ≤ b && b ≤ 57 then some (n * 10 + (b.toNat - 48)) else none)
      (some 0)

/-- `std::stoll` on a text that it reads to the end: blanks, a sign and digits. -/
def stoll (value : Bytes) : Option Int :=
  match value.dropWhile isSpace with
  | 45 :: digits => (parseDigits digits).map fun n => -(n : Int)
  | 43 :: digits => (parseDigits digits).map fun n => (n : Int)
  | digits => (parseDigits digits).map fun n => (n : Int)

def parseI64 (value : Bytes) (field : String) : Except Bytes Int64 :=
  match stoll value with
  | some n =>
      if -2 ^ 63 ≤ n ∧ n < 2 ^ 63 then .ok (Int64.ofInt n)
      else .error (Bytes.ofString "invalid integer metadata field: " ++ Bytes.ofString field)
  | none => .error (Bytes.ofString "invalid integer metadata field: " ++ Bytes.ofString field)

def optionalNonnegativeI64 (frame : Frame) (key : String) : Except Bytes (Option Int64) :=
  if optionalMetadata frame key = [] then .ok none
  else
    match parseI64 (optionalMetadata frame key) key with
    | .error e => .error e
    | .ok parsed =>
        if parsed < 0 then .error (Bytes.ofString key ++ Bytes.ofString " must be >= 0")
        else .ok (some parsed)

def parsePositiveInt (frame : Frame) (key : String) : Except Bytes Int32 := do
  let parsed ← parseI64 (← metadataValue frame key) key
  if parsed < 1 || parsed > 2147483647 then
    .error (Bytes.ofString key
      ++ Bytes.ofString " must be >= 1 and fit the physical integer representation")
  else .ok parsed.toInt32

/-- The effort that a text names, as `validate_choice` accepts it. -/
def validateEffort (value : Bytes) : Except Bytes Effort :=
  if value = Bytes.ofString "STANDARD" then .ok .standard
  else if value = Bytes.ofString "HIGH" then .ok .high
  else .error (Bytes.ofString "invalid effort")

/-- The urgency that a text names. -/
def validateUrgency (value : Bytes) : Except Bytes Urgency :=
  if value = Bytes.ofString "INTERACTIVE" then .ok .interactive
  else if value = Bytes.ofString "NORMAL" then .ok .normal
  else if value = Bytes.ofString "BACKGROUND" then .ok .background
  else .error (Bytes.ofString "invalid urgency")

/-! ### Ids and paths -/

/-- A lower case hexadecimal digit. -/
def hexDigit (n : Nat) : UInt8 := if n < 10 then UInt8.ofNat (48 + n) else UInt8.ofNat (87 + n)

/-- The last `width` hexadecimal digits of a number. -/
def hexDigits : (width n : Nat) → Bytes
  | 0, _ => []
  | width + 1, n => hexDigits width (n / 16) ++ [hexDigit (n % 16)]

/-- `make_work_id`, from the two numbers that the generator draws. -/
def makeWorkId (draws : UInt64 × UInt64) : Bytes :=
  hexDigits 16 draws.1.toNat ++ hexDigits 16 draws.2.toNat

theorem exists_hexDigit_of_mem {width n : Nat} {b : UInt8} (h : b ∈ hexDigits width n) :
  ∃ k < 16, b = hexDigit k
  := by
  induction width generalizing n with
  | zero => cases h
  | succ width ih =>
      rw [hexDigits, List.mem_append, List.mem_singleton] at h
      rcases h with hmem | rfl
      · exact ih hmem
      · exact ⟨n % 16, Nat.mod_lt _ (by decide), rfl⟩

theorem length_hexDigits (width n : Nat) :
  (hexDigits width n).length = width
  := by
  induction width generalizing n with
  | zero => rfl
  | succ width ih => rw [hexDigits, List.length_append, ih, List.length_singleton]

/-- The octets of a Work id are hexadecimal digits. -/
theorem exists_hexDigit_of_mem_makeWorkId {draws : UInt64 × UInt64} {b : UInt8}
    (h : b ∈ makeWorkId draws) :
  ∃ k < 16, b = hexDigit k
  := by
  rw [makeWorkId, List.mem_append] at h
  rcases h with h | h
  · exact exists_hexDigit_of_mem h
  · exact exists_hexDigit_of_mem h

theorem length_makeWorkId (draws : UInt64 × UInt64) :
  (makeWorkId draws).length = 32
  := by
  rw [makeWorkId, List.length_append, length_hexDigits, length_hexDigits]

/-- `operator/` of paths. -/
def joinPath (base : Bytes) (name : String) : Bytes :=
  if base = [] || base.getLast? = some 47 then base ++ Bytes.ofString name
  else base ++ 47 :: Bytes.ofString name

/-- The directory of a Work. -/
def workDir (dataDir id : Bytes) : Bytes := joinPath dataDir "work" ++ 47 :: id

def inputPath (dataDir id : Bytes) : Bytes := workDir dataDir id ++ Bytes.ofString "/input.bin"

def resultPath (dataDir id : Bytes) : Bytes := workDir dataDir id ++ Bytes.ofString "/result.bin"

/-- The temporary file of `write_binary_atomic`. -/
def temporary (path : Bytes) : Bytes := path ++ Bytes.ofString ".tmp"

/-! ### Files -/

/-- The contents of the files, by their paths. -/
abbrev Files := Bytes → Option Bytes

namespace Files

def write (files : Files) (path content : Bytes) : Files :=
  fun p => if p = path then some content else files p

def remove (files : Files) (path : Bytes) : Files := fun p => if p = path then none else files p

/-- `fs::rename`, which throws when there is no such file. -/
def rename (files : Files) (source target : Bytes) : Option Files :=
  (files source).map fun content => (files.remove source).write target content

end Files

def tooLarge : Bytes :=
  Bytes.ofString
    "C1 file-backed payload exceeds the C1 1 MiB bounded text-generation/v1 payload limit"

/-- `read_binary_bounded`. -/
def readBinaryBounded (files : Files) (path : Bytes) : Except Bytes Bytes :=
  match files path with
  | none => .error (Bytes.ofString "inspect payload file size: " ++ path)
  | some content =>
      if content.length > Wire.kMaxC1TextGenerationOpaquePayloadBytes then .error tooLarge
      else .ok content

/-! ### Handlers without effects -/

/-- The Work record of a `SUBMIT`. -/
def submitRecord (dataDir : Bytes) (request : Frame) (submittedAt : Int64)
    (draws : UInt64 × UInt64) : Except Bytes WorkRecord := do
  let workType ← metadataValue request "work_type"
  let effort ← metadataValue request "effort"
  let urgency ← metadataValue request "urgency"
  let effort ← validateEffort effort
  let urgency ← validateUrgency urgency
  let maxAttempts ← parsePositiveInt request "max_attempts"
  let retryDelayMs ← parseI64 (← metadataValue request "retry_delay_ms") "retry_delay_ms"
  if retryDelayMs < 0 then .error (Bytes.ofString "retry_delay_ms must be >= 0")
  let eligibleAt := (← optionalNonnegativeI64 request "eligible_at_ms").getD submittedAt
  let deadline ← optionalNonnegativeI64 request "deadline_ms"
  let timeout ← optionalNonnegativeI64 request "timeout_ms"
  return {
    id := makeWorkId draws
    workType
    state := .queued
    effort
    urgency
    requiredCapabilities := optionalMetadata request "required_capabilities"
    eligibleEngineIds := optionalMetadata request "eligible_engine_ids"
    exactEngineId := optionalMetadata request "exact_engine_id"
    exactModelId := optionalMetadata request "exact_model_id"
    createdAtMs := submittedAt
    eligibleAtMs := eligibleAt
    nextAttemptAtMs := eligibleAt
    deadlineMs := deadline
    timeoutMs := timeout
    maxAttempts
    retryDelayMs
    attemptCount := 0
    inputPath := inputPath dataDir (makeWorkId draws)
    resultPath := resultPath dataDir (makeWorkId draws)
    acknowledged := false
    cancelRequested := false
    selectedEngineId := []
    selectedModelId := []
    technicalFailure := [] }

/-- A Work record is what a `SUBMIT` frame asks for. -/
structure Submits (dataDir : Bytes) (request : Frame) (work : WorkRecord) : Prop where
  state : work.state = .queued
  id : ∃ draws, work.id = makeWorkId draws
  inputPath : work.inputPath = inputPath dataDir work.id
  resultPath : work.resultPath = resultPath dataDir work.id
  workType : metadataValue request "work_type" = .ok work.workType
  effort : metadataValue request "effort" = .ok (effortText work.effort)
  requiredCapabilities :
    work.requiredCapabilities = optionalMetadata request "required_capabilities"
  eligibleEngineIds : work.eligibleEngineIds = optionalMetadata request "eligible_engine_ids"
  exactEngineId : work.exactEngineId = optionalMetadata request "exact_engine_id"
  exactModelId : work.exactModelId = optionalMetadata request "exact_model_id"

theorem validateEffort_ok
    {value : Bytes} {effort : Effort} (h : validateEffort value = .ok effort) :
  value = effortText effort
  := by
  rw [validateEffort] at h
  split_ifs at h with hstandard hhigh
  · cases h
    exact hstandard
  · cases h
    exact hhigh

theorem submitRecord_submits
    {dataDir : Bytes} {request : Frame} {submittedAt : Int64} {draws : UInt64 × UInt64}
    {work : WorkRecord} (h : submitRecord dataDir request submittedAt draws = .ok work) :
  Submits dataDir request work
  := by
  rw [submitRecord] at h
  obtain ⟨workType, htype, h⟩ := bind_eq_ok h
  obtain ⟨effort, heffort, h⟩ := bind_eq_ok h
  obtain ⟨urgency, hurgency, h⟩ := bind_eq_ok h
  obtain ⟨effort', hvalid, h⟩ := bind_eq_ok h
  obtain ⟨urgency', -, h⟩ := bind_eq_ok h
  obtain ⟨maxAttempts, -, h⟩ := bind_eq_ok h
  obtain ⟨delayText, -, h⟩ := bind_eq_ok h
  obtain ⟨retryDelayMs, -, h⟩ := bind_eq_ok h
  simp only at h
  split_ifs at h with hdelay
  · obtain ⟨_, herror, -⟩ := bind_eq_ok h
    cases herror
  obtain ⟨eligibleAt, -, h⟩ := bind_eq_ok h
  obtain ⟨deadline, -, h⟩ := bind_eq_ok h
  obtain ⟨timeout, -, h⟩ := bind_eq_ok h
  obtain rfl := Except.ok.inj h
  rw [validateEffort_ok hvalid] at heffort
  exact ⟨rfl, ⟨draws, rfl⟩, rfl, rfl, htype, heffort, rfl, rfl, rfl, rfl⟩

/-- The id and the times of a submitted record. -/
theorem submitRecord_times
    {dataDir : Bytes} {request : Frame} {submittedAt : Int64} {draws : UInt64 × UInt64}
    {work : WorkRecord} (h : submitRecord dataDir request submittedAt draws = .ok work) :
  work.id = makeWorkId draws ∧ ¬work.retryDelayMs < 0 ∧ work.nextAttemptAtMs = work.eligibleAtMs
    ∧ work.attemptCount = 0 ∧ work.createdAtMs = submittedAt
  := by
  rw [submitRecord] at h
  obtain ⟨workType, -, h⟩ := bind_eq_ok h
  obtain ⟨effort, -, h⟩ := bind_eq_ok h
  obtain ⟨urgency, -, h⟩ := bind_eq_ok h
  obtain ⟨effort', -, h⟩ := bind_eq_ok h
  obtain ⟨urgency', -, h⟩ := bind_eq_ok h
  obtain ⟨maxAttempts, -, h⟩ := bind_eq_ok h
  obtain ⟨delayText, -, h⟩ := bind_eq_ok h
  obtain ⟨retryDelayMs, -, h⟩ := bind_eq_ok h
  simp only at h
  split_ifs at h with hdelay
  · obtain ⟨_, herror, -⟩ := bind_eq_ok h
    cases herror
  obtain ⟨eligibleAt, -, h⟩ := bind_eq_ok h
  obtain ⟨deadline, -, h⟩ := bind_eq_ok h
  obtain ⟨timeout, -, h⟩ := bind_eq_ok h
  obtain rfl := Except.ok.inj h
  exact ⟨rfl, hdelay, rfl, rfl, rfl⟩

/-- The text of the state of a Work. -/
def stateText : WorkState → Bytes
  | .queued => Bytes.ofString "QUEUED"
  | .running => Bytes.ofString "RUNNING"
  | .succeeded => Bytes.ofString "SUCCEEDED"
  | .failed => Bytes.ofString "FAILED"
  | .cancelled => Bytes.ofString "CANCELLED"

/-- A reply with one more metadata field. -/
def withField (frame : Frame) (key : String) (value : Bytes) : Frame :=
  { frame with metadata := frame.metadata.assign (Bytes.ofString key) value }

/-- The reply of `status` about the Work that it found. -/
def statusReply (request : Frame) (work : WorkRecord) : Frame :=
  let out := withField (response .statusResponse request) "state" (stateText work.state)
  if work.technicalFailure = [] then out
  else withField out "technical_failure" work.technicalFailure

def workNotFound (request : Frame) : Frame :=
  errorResponse request "WORK_NOT_FOUND" "unknown WorkId"

/-- The rest of `result` after it found the Work: the reply, or the text it throws. -/
def resultReply (files : Files) (request : Frame) (work : WorkRecord) : Except Bytes Frame :=
  let out := withField (response .resultResponse request) "state" (stateText work.state)
  let available := work.state = .succeeded ∧ work.acknowledged = false
    ∧ (files work.resultPath).isSome = true
  if available then
    let out := withField out "available" (Bytes.ofString "true")
    match files work.resultPath with
    | none => .error (Bytes.ofString "cannot get file size")
    | some content =>
        if content.length > Wire.kMaxC1TextGenerationOpaquePayloadBytes then
          .ok (errorResponse request "PAYLOAD_TOO_LARGE"
            "C1 text-generation/v1 result exceeds the 1 MiB bounded payload limit; streaming/spooling is deferred")
        else
          match readBinaryBounded files work.resultPath with
          | .error e => .error e
          | .ok payload => .ok { out with payload }
  else .ok (withField out "available" (Bytes.ofString "false"))

end Kernel
