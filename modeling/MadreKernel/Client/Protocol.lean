import MadreKernel.Client.JavaString
import MadreKernel.Wire.Frame

/-!
# The Java client's framed protocol

`Client.Protocol.write` and `Client.Protocol.read` are the Java client's codec of the frames
of `MadreKernel.Wire.Frame`.  Its strings are Java strings, its type and correlation id are
signed, and its integers go through a `ByteBuffer` in big-endian order.

The two codecs agree: what the client writes the kernel reads as the same frame, and what the
kernel writes the client reads as the same frame.
-/

namespace Client

/-- The exceptions that the codec throws. -/
inductive Exception where
  | io (message : String)
  | eof (message : String)
  | illegalArgument (message : String)
  deriving DecidableEq

namespace Protocol

def FRAMING_VERSION : Nat := 1

def MAX_C1_TEXT_GENERATION_OPAQUE_PAYLOAD_BYTES : Nat := 1024 * 1024

def MAGIC : Bytes := [77, 65, 68, 82]

def HEADER_SIZE : Nat := 28

def MAX_METADATA : Nat := 1024 * 1024

/-- A frame: its payload is bounded by the constructor. -/
structure Frame where
  type : Int32
  correlationId : Int64
  metadata : SortedMap JavaString JavaString
  payload : Bytes
  payload_le : payload.length ≤ MAX_C1_TEXT_GENERATION_OPAQUE_PAYLOAD_BYTES

/-- The constructor of `Frame`. -/
def Frame.construct (type : Int32) (correlationId : Int64)
    (metadata : SortedMap JavaString JavaString) (payload : Bytes) : Except Exception Frame :=
  if h : payload.length > MAX_C1_TEXT_GENERATION_OPAQUE_PAYLOAD_BYTES then
    .error (.illegalArgument "frame exceeds C1 bounded text-generation/v1 payload limit")
  else
    .ok ⟨type, correlationId, metadata, payload, Nat.le_of_not_lt h⟩

/-! ### Integers in a `ByteBuffer` -/

def putShort (value : Int16) : Bytes := BigEndian.ofNat 2 value.toUInt16.toNat

def putInt (value : Int32) : Bytes := BigEndian.ofNat 4 value.toUInt32.toNat

def putLong (value : Int64) : Bytes := BigEndian.ofNat 8 value.toUInt64.toNat

def getShort (b : Bytes) : Int16 := (UInt16.ofNat (BigEndian.toNat (b.take 2))).toInt16

def getInt (b : Bytes) : Int32 := (UInt32.ofNat (BigEndian.toNat (b.take 4))).toInt32

def getLong (b : Bytes) : Int64 := (UInt64.ofNat (BigEndian.toNat (b.take 8))).toInt64

/-- `Short.toUnsignedInt`. -/
def toUnsignedInt (value : Int16) : Int32 := Int32.ofNat value.toUInt16.toNat

/-! ### Metadata -/

/-- Whether `encodeMetadata` refuses an entry. -/
def invalidEntry (key value : JavaString) : Bool :=
  key.isBlank || key.contains '=' || key.contains '\n' || key.contains '\r'
    || value.contains '\n' || value.contains '\r'

/-- The loop of `encodeMetadata` over the entries of the `TreeMap`. -/
def encodeEntries : List (JavaString × JavaString) → Except Exception (List Char) :=
  KeyValue.renderIf JavaString.codePoints invalidEntry (.io "invalid framed metadata") '=' '\n'

def encodeMetadata (metadata : SortedMap JavaString JavaString) : Except Exception Bytes :=
  match encodeEntries metadata.entries with
  | .ok out => .ok (JavaString.getBytes ⟨out⟩)
  | .error e => .error e

/-- The loop of `decodeMetadata` over the lines of the text. -/
def decodeLines (result : SortedMap JavaString JavaString) :
    List (List Char) → Except Exception (SortedMap JavaString JavaString)
  | [] => .ok result
  | line :: lines =>
      if line = [] then decodeLines result lines
      else
        match KeyValue.parseLine '=' line with
        | none => .error (.io "malformed framed metadata")
        | some (key, value) => decodeLines (result.assign ⟨key⟩ ⟨value⟩) lines

def decodeMetadata (malformed : Bytes → JavaString) (encoded : Bytes) :
    Except Exception (SortedMap JavaString JavaString) :=
  decodeLines ∅ ((JavaString.ofUtf8 malformed encoded).codePoints.splitOn '\n')

/-! ### Frames -/

/-- The header that `write` puts in the buffer. -/
def encodeHeader (type : Int32) (correlationId : Int64) (metadataLength payloadLength : Nat) :
    Bytes :=
  MAGIC ++ putShort (Int16.ofNat FRAMING_VERSION) ++ putShort type.toInt16 ++ putLong correlationId
    ++ putInt (Int32.ofNat metadataLength) ++ putLong (Int64.ofNat payloadLength)

/-- The octets that `write` puts on the channel. -/
def write (frame : Frame) : Except Exception Bytes :=
  match encodeMetadata frame.metadata with
  | .error e => .error e
  | .ok metadata =>
      if metadata.length > MAX_METADATA
          || frame.payload.length > MAX_C1_TEXT_GENERATION_OPAQUE_PAYLOAD_BYTES then
        .error (.io "frame exceeds C1 bounded text-generation/v1 framing limits")
      else
        .ok (encodeHeader frame.type frame.correlationId metadata.length frame.payload.length
          ++ metadata ++ frame.payload)

/-- The fields of a header that passed the checks. -/
structure Header where
  type : Int32
  correlation : Int64
  metadataLength : Int32
  payloadLength : Int64

/-- The checks of `read` on the header. -/
def parseHeader (header : Bytes) : Except Exception Header :=
  if header.take 4 ≠ MAGIC then .error (.io "invalid framing magic")
  else
    let framingVersion := toUnsignedInt (getShort (header.drop 4))
    if framingVersion ≠ Int32.ofNat FRAMING_VERSION then
      .error (.io ("unsupported framing version: " ++ toString framingVersion.toInt))
    else
      let metadataLength := getInt (header.drop 16)
      let payloadLength := getLong (header.drop 20)
      if metadataLength < 0 || metadataLength > Int32.ofNat MAX_METADATA || payloadLength < 0
          || payloadLength > Int64.ofNat MAX_C1_TEXT_GENERATION_OPAQUE_PAYLOAD_BYTES then
        .error (.io "frame exceeds C1 bounded text-generation/v1 framing limits")
      else
        .ok ⟨toUnsignedInt (getShort (header.drop 6)), getLong (header.drop 8), metadataLength,
          payloadLength⟩

/-- What `readFully` does when a `read` of the channel returns no bytes: it throws at the end
of the stream, and reads again when the channel had nothing. -/
def readVerdict : ReadEvent → Option Exception
  | .bytes _ _ => none
  | .interrupted => none
  | .wouldBlock => none
  | .closed => some (.eof "peer closed framed IPC")
  | .failed reason => some (.io (String.ofList (reason.map fun b => Char.ofNat b.toNat)))

def readFully (size : Nat) : Consumer Source Exception Bytes :=
  ⟨fun src => src.readLoop readVerdict size⟩

/-- The body of `read`, over a program that reads a number of bytes. -/
def frameFrom {σ : Type} (malformed : Bytes → JavaString)
    (read : Nat → Consumer σ Exception Bytes) : Consumer σ Exception Frame := do
  let header ← read HEADER_SIZE
  let h ← Consumer.lift (parseHeader header)
  let metadata ← read h.metadataLength.toNatClampNeg
  let payload ← read h.payloadLength.toNatClampNeg
  let decoded ← Consumer.lift (decodeMetadata malformed metadata)
  Consumer.lift (Frame.construct h.type h.correlation decoded payload)

def read (malformed : Bytes → JavaString) : Consumer Source Exception Frame :=
  frameFrom malformed readFully

end Protocol

end Client
