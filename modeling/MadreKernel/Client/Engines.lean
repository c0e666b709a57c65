import Mathlib.Data.Finset.Image
import MadreKernel.Client.Agreement
import MadreKernel.Client.Texts
import MadreKernel.Store.Schema

/-!
# Engine descriptors of the Java client

A call of `LocalKernelClient` opens a connection, exchanges `HELLO` frames, writes one command and
reads one response.  `engines` and `engineStatus` make descriptors of the metadata of the response.
The channel takes what is written to it; a call is a program that reads the channel.
-/

namespace Client

/-- What a call throws. -/
inductive CallException where
  /-- `KernelProtocolException` -/
  | protocol (code message : JavaString)
  /-- `IllegalArgumentException` -/
  | illegalArgument (message : JavaString)
  /-- `NumberFormatException` about a text -/
  | numberFormat (text : JavaString)
  /-- what `Effort.valueOf` throws about a name -/
  | noEnumConstant (name : JavaString)
  deriving DecidableEq

/-- What an exception of the codec becomes. -/
def CallException.ofException : Exception → CallException
  | .io message => .protocol (.ofString "IPC_FAILURE") (.ofString message)
  | .eof message => .protocol (.ofString "IPC_FAILURE") (.ofString message)
  | .illegalArgument message => .illegalArgument (.ofString message)

namespace LocalKernelClient

open Protocol

def HELLO : Int32 := 1

def HELLO_RESPONSE : Int32 := 2

def LIST_ENGINES : Int32 := 60

def LIST_ENGINES_RESPONSE : Int32 := 61

def ENGINE_STATUS : Int32 := 70

def ENGINE_STATUS_RESPONSE : Int32 := 71

def ERROR : Int32 := 90

def MIN_KERNEL_PROTOCOL_VERSION : Int32 := 2

def MAX_KERNEL_PROTOCOL_VERSION : Int32 := 2

/-! ### Exchanges -/

def required (frame : Protocol.Frame) (key : JavaString) : Except CallException JavaString :=
  match frame.metadata.find? key with
  | some value => .ok value
  | none => .error (.protocol (.ofString "MALFORMED_RESPONSE")
      (.ofString "missing Kernel metadata field: " ++ key))

def checkError (frame : Protocol.Frame) : Except CallException Unit :=
  if frame.type = ERROR then do
    let code ← required frame (.ofString "code")
    let message ← required frame (.ofString "message")
    .error (.protocol code message)
  else .ok ()

def expectType (frame : Protocol.Frame) (type : Int32) : Except CallException Unit :=
  if frame.type ≠ type then
    .error (.protocol (.ofString "UNEXPECTED_RESPONSE")
      (.ofString ("unexpected Kernel response type: " ++ toString frame.type.toInt)))
  else .ok ()

/-- `Integer.parseInt` on a field of a frame. -/
def requiredInt (frame : Protocol.Frame) (key : JavaString) : Except CallException Int32 := do
  let text ← required frame key
  (parseInt text).elim (.error (.numberFormat text)) .ok

/-- `Long.parseLong` on a field of a frame. -/
def requiredLong (frame : Protocol.Frame) (key : JavaString) : Except CallException Int64 := do
  let text ← required frame key
  (parseLong text).elim (.error (.numberFormat text)) .ok

/-- A frame with no payload. -/
def frame (type : Int32) (correlationId : Int64) (metadata : List (String × JavaString)) :
    Protocol.Frame where
  type := type
  correlationId := correlationId
  metadata := SortedMap.ofAssigned (metadata.map fun e => (.ofString e.1, e.2))
  payload := []
  payload_le := Nat.zero_le _

/-- The `HELLO` of an exchange. -/
def helloFrame (correlationId : Int64) : Protocol.Frame :=
  frame HELLO correlationId
    [("min_kernel_protocol_version", .ofString (toString MIN_KERNEL_PROTOCOL_VERSION.toInt)),
      ("max_kernel_protocol_version", .ofString (toString MAX_KERNEL_PROTOCOL_VERSION.toInt))]

/-- The checks of the answer to the `HELLO`. -/
def checkHello (helloCorrelation : Int64) (hello : Protocol.Frame) : Except CallException Unit := do
  checkError hello
  expectType hello HELLO_RESPONSE
  let negotiated ← requiredInt hello (.ofString "kernel_protocol_version")
  if hello.correlationId ≠ helloCorrelation ∨ negotiated < MIN_KERNEL_PROTOCOL_VERSION
      ∨ negotiated > MAX_KERNEL_PROTOCOL_VERSION then
    .error (.protocol (.ofString "VERSION_NEGOTIATION_FAILED")
      (.ofString "Kernel returned an incompatible negotiated protocol/API version"))
  else return ()

/-- The checks of the response to a command. -/
def checkResponse (command response : Protocol.Frame) : Except CallException Unit := do
  checkError response
  if response.correlationId ≠ command.correlationId then
    .error (.protocol (.ofString "CORRELATION_MISMATCH")
      (.ofString "Kernel response correlation id did not match request"))
  else return ()

section

variable {σ : Type} (read : Consumer σ Exception Protocol.Frame)

/-- `exchange`, over a program that reads a frame. -/
def exchange (helloCorrelation : Int64) (command : Protocol.Frame) :
    Consumer σ CallException Protocol.Frame := do
  let _ ← Consumer.lift ((write (helloFrame helloCorrelation)).mapError .ofException)
  let hello ← read.mapError .ofException
  Consumer.lift (checkHello helloCorrelation hello)
  let _ ← Consumer.lift ((write command).mapError .ofException)
  let response ← read.mapError .ofException
  Consumer.lift (checkResponse command response)
  return response

end

/-! ### Descriptors -/

structure EngineDescriptor where
  engineId : JavaString
  supportedWorkTypes : Finset JavaString
  supportedCapabilities : Finset JavaString
  modelIds : Finset JavaString
  supportedEfforts : Finset Effort
  placement : JavaString
  availability : JavaString
  requiredCpuSlots : Int32
  requiredRamBytes : Int64
  requiredGpuId : Option JavaString
  requiredGpuVramBytes : Int64
  warm : Bool
  deriving DecidableEq

/-- `splitSet`, with the elements in the order of the `LinkedHashSet`. -/
def splitSet (value : JavaString) : List JavaString :=
  if value.isBlank then [] else (split value).eraseDups

/-- `Effort.valueOf`. -/
def effortOf (name : JavaString) : Except CallException Effort :=
  if name = .ofString "STANDARD" then .ok .standard
  else if name = .ofString "HIGH" then .ok .high
  else .error (.noEnumConstant name)

def splitEfforts (value : JavaString) : Except CallException (List Effort) :=
  (splitSet value).mapM effortOf

def optionalIdentity (value : JavaString) : Option JavaString :=
  if value.codePoints = [] then none else some value

/-- `parseEngineDescriptor`; the fields have the prefix `base`. -/
def parseEngineDescriptor (frame : Protocol.Frame) (base : JavaString) :
    Except CallException EngineDescriptor := do
  let engineId ← required frame (base ++ .ofString "id")
  let workTypes ← required frame (base ++ .ofString "work_types")
  let capabilities ← required frame (base ++ .ofString "capabilities")
  let modelIds ← required frame (base ++ .ofString "model_ids")
  let efforts ← splitEfforts (← required frame (base ++ .ofString "supported_efforts"))
  let placement ← required frame (base ++ .ofString "placement")
  let availability ← required frame (base ++ .ofString "availability")
  let cpuSlots ← requiredInt frame (base ++ .ofString "required_cpu_slots")
  let ramBytes ← requiredLong frame (base ++ .ofString "required_ram_bytes")
  let gpuId ← required frame (base ++ .ofString "required_gpu_id")
  let gpuVramBytes ← requiredLong frame (base ++ .ofString "required_gpu_vram_bytes")
  let warm ← required frame (base ++ .ofString "warm")
  return {
    engineId := engineId
    supportedWorkTypes := (splitSet workTypes).toFinset
    supportedCapabilities := (splitSet capabilities).toFinset
    modelIds := (splitSet modelIds).toFinset
    supportedEfforts := efforts.toFinset
    placement := placement
    availability := availability
    requiredCpuSlots := cpuSlots
    requiredRamBytes := ramBytes
    requiredGpuId := optionalIdentity gpuId
    requiredGpuVramBytes := gpuVramBytes
    warm := parseBoolean warm }

/-- The prefix of the fields of the engine at a place of the list. -/
def engineBase (i : Nat) : JavaString :=
  .ofString "engine." ++ .ofString (toString (i : Int)) ++ .ofString "."

/-- The descriptors of the response to `LIST_ENGINES`. -/
def engineList (response : Protocol.Frame) : Except CallException (List EngineDescriptor) := do
  expectType response LIST_ENGINES_RESPONSE
  let count ← requiredInt response (.ofString "count")
  if count < 0 then
    .error (.illegalArgument (.ofString ("Illegal Capacity: " ++ toString count.toInt)))
  else (List.range count.toNatClampNeg).mapM fun i => parseEngineDescriptor response (engineBase i)

def listEnginesCommand (correlation : Int64) : Protocol.Frame := frame LIST_ENGINES correlation []

def engineStatusCommand (engineId : JavaString) (correlation : Int64) : Protocol.Frame :=
  frame ENGINE_STATUS correlation [("engine_id", engineId)]

section

variable {σ : Type} (read : Consumer σ Exception Protocol.Frame)

/-- `engines`, with the correlation ids of the two frames it writes. -/
def engines (helloCorrelation correlation : Int64) :
    Consumer σ CallException (List EngineDescriptor) := do
  let response ← exchange read helloCorrelation (listEnginesCommand correlation)
  Consumer.lift (engineList response)

/-- `engineStatus`, with the correlation ids of the two frames it writes. -/
def engineStatus (helloCorrelation correlation : Int64) (engineId : JavaString) :
    Consumer σ CallException EngineDescriptor := do
  let response ← exchange read helloCorrelation (engineStatusCommand engineId correlation)
  Consumer.lift (expectType response ENGINE_STATUS_RESPONSE)
  Consumer.lift (parseEngineDescriptor response (.ofString ""))

end

/-! ### Calls on a channel that stays open -/

theorem exchange_follows
    (malformed : Bytes → JavaString) (helloCorrelation : Int64) (command : Protocol.Frame) :
  Consumer.Follows Source.PolledDelivers (exchange (read malformed) helloCorrelation command)
    (exchange (frameFrom malformed Consumer.take) helloCorrelation command)
  := by
  have hread := (read_follows malformed).mapError CallException.ofException
  apply Consumer.Follows.bind (Consumer.Follows.lift _ _)
  intro _
  apply Consumer.Follows.bind hread
  intro hello
  apply Consumer.Follows.bind (Consumer.Follows.lift _ _)
  intro _
  apply Consumer.Follows.bind (Consumer.Follows.lift _ _)
  intro _
  apply Consumer.Follows.bind hread
  intro response
  apply Consumer.Follows.bind (Consumer.Follows.lift _ _)
  intro _
  apply Consumer.Follows.pure

theorem engines_follows
    (malformed : Bytes → JavaString) (helloCorrelation correlation : Int64) :
  Consumer.Follows Source.PolledDelivers (engines (read malformed) helloCorrelation correlation)
    (engines (frameFrom malformed Consumer.take) helloCorrelation correlation)
  := by
  apply Consumer.Follows.bind (exchange_follows _ _ _)
  intro response
  apply Consumer.Follows.lift

theorem engineStatus_follows
    (malformed : Bytes → JavaString) (helloCorrelation correlation : Int64)
    (engineId : JavaString) :
  Consumer.Follows Source.PolledDelivers
    (engineStatus (read malformed) helloCorrelation correlation engineId)
    (engineStatus (frameFrom malformed Consumer.take) helloCorrelation correlation engineId)
  := by
  apply Consumer.Follows.bind (exchange_follows _ _ _)
  intro response
  apply Consumer.Follows.bind (Consumer.Follows.lift _ _)
  intro _
  apply Consumer.Follows.lift

/-! ### What a call writes and reads -/

/-- A frame whose entries are not refused and fit the limit is written. -/
theorem exists_write
    {frame : Protocol.Frame}
    (hvalid : ∀ e ∈ frame.metadata.entries, invalidEntry e.1 e.2 = false)
    (hfits : (KeyValue.render Wire.equalsSign Wire.lineFeed
      (frame.metadata.entries.map utf8Entry)).length ≤ MAX_METADATA) :
  ∃ bytes, write frame = .ok bytes
  := by
  have hentries := (KeyValue.renderIf_eq_ok_iff JavaString.codePoints invalidEntry
    (.io "invalid framed metadata" : Exception) '=' '\n' frame.metadata.entries _).mpr
    ⟨hvalid, rfl⟩
  have hpayload := frame.payload_le
  rw [write, encodeMetadata, encodeEntries, hentries]
  simp only [JavaString.getBytes, utf8_render]
  rw [if_neg]
  · exact ⟨_, rfl⟩
  · simp only [Bool.or_eq_true, decide_eq_true_eq]
    omega

/-- A field of the kernel's frame, as the client finds it. -/
theorem required_of_sameMetadata
    {frame : Protocol.Frame} {kernel : Metadata} (h : SameMetadata frame.metadata kernel)
    {key : JavaString} {value : Bytes} (hfind : kernel.find? key.getBytes = some value) :
  ∃ v, required frame key = .ok v ∧ v.getBytes = value
  := by
  rw [h.find?_getBytes, Option.map_eq_some_iff] at hfind
  obtain ⟨v, hv, rfl⟩ := hfind
  refine ⟨v, ?_, rfl⟩
  rw [required, hv]

theorem requiredInt_of_sameMetadata
    {frame : Protocol.Frame} {kernel : Metadata} (h : SameMetadata frame.metadata kernel)
    {key : JavaString} {n : Int32}
    (hfind : kernel.find? key.getBytes = some (Bytes.ofString (toString n.toInt))) :
  requiredInt frame key = .ok n
  := by
  obtain ⟨v, hv, hbytes⟩ := required_of_sameMetadata h hfind
  rw [← JavaString.getBytes_ofString] at hbytes
  obtain rfl := JavaString.getBytes_injective hbytes
  rw [requiredInt, hv]
  simp only [bind, Except.bind, parseInt_toString, Option.elim_some]

theorem requiredLong_of_sameMetadata
    {frame : Protocol.Frame} {kernel : Metadata} (h : SameMetadata frame.metadata kernel)
    {key : JavaString} {n : Nat} (hn : n < 2 ^ 63)
    (hfind : kernel.find? key.getBytes = some (Decimal.digits n)) :
  requiredLong frame key = .ok (Int64.ofInt n)
  := by
  obtain ⟨v, hv, hbytes⟩ := required_of_sameMetadata h hfind
  rw [← Decimal.ofString_toString_natCast, ← JavaString.getBytes_ofString] at hbytes
  obtain rfl := JavaString.getBytes_injective hbytes
  have hparse := parseLong_toString (n := n) ⟨by omega, by omega⟩
  rw [requiredLong, hv]
  simp only [bind, Except.bind, hparse, Option.elim_some]

theorem checkError_eq_ok_iff (frame : Protocol.Frame) :
  checkError frame = .ok () ↔ frame.type ≠ ERROR
  := by
  rw [checkError]
  split_ifs with h
  · simp only [h, ne_eq, not_true_eq_false, iff_false]
    cases required frame (.ofString "code") with
    | error e =>
        rintro ⟨⟩
    | ok code =>
        cases required frame (.ofString "message") with
        | error e =>
            rintro ⟨⟩
        | ok message =>
            rintro ⟨⟩
  · simp [h]

theorem expectType_of_eq {frame : Protocol.Frame} {type : Int32} (h : frame.type = type) :
  expectType frame type = .ok ()
  := by
  rw [expectType, if_neg]
  simpa using h

end LocalKernelClient

end Client
