import MadreKernel.Lib.Channel
import MadreKernel.Wire.Metadata

/-!
# Frames

A frame is a 28-octet header, the metadata text and the payload.  The header holds the
magic, the framing version, the type, the correlation id and the two lengths, most
significant octet first.  `encodeFrame` and `readFrame` bound the metadata text and the
payload by 1 MiB each.

`readFrame` reads a descriptor through `readExact`, which calls `read` until it has the
bytes it was asked for; `parseFrame` is the same program on a byte string.  On every source
that stays open, `readFrame` has the outcome of `parseFrame` on the bytes the source
delivers, however they are cut.
-/

/-- A frame of the protocol. -/
structure Frame where
  type : UInt16
  correlationId : UInt64
  metadata : Metadata
  payload : Bytes
  deriving DecidableEq

namespace Wire

def kFramingVersion : UInt16 := 1

/-- The largest payload of a frame and of a payload file. -/
def kMaxC1TextGenerationOpaquePayloadBytes : Nat := 1024 * 1024

def kMagic : Bytes := [77, 65, 68, 82]

def kHeaderSize : Nat := 28

def kMaxMetadata : Nat := 1024 * 1024

/-! ### Integers -/

/-- The octet at an offset. -/
def octet (p : Bytes) (i : Nat) : UInt8 := p.getD i 0

def getU16 (p : Bytes) : UInt16 :=
  ((octet p 0).toUInt16 <<< 8) ||| (octet p 1).toUInt16

def getU32 (p : Bytes) : UInt32 :=
  ((octet p 0).toUInt32 <<< 24) ||| ((octet p 1).toUInt32 <<< 16)
    ||| ((octet p 2).toUInt32 <<< 8) ||| (octet p 3).toUInt32

def getU64 (p : Bytes) : UInt64 :=
  (List.range 8).foldl (fun value i => (value <<< 8) ||| (octet p i).toUInt64) 0

def putU16 (value : UInt16) : Bytes :=
  [((value >>> 8) &&& 0xff).toUInt8, (value &&& 0xff).toUInt8]

def putU32 (value : UInt32) : Bytes :=
  [((value >>> 24) &&& 0xff).toUInt8, ((value >>> 16) &&& 0xff).toUInt8,
    ((value >>> 8) &&& 0xff).toUInt8, (value &&& 0xff).toUInt8]

/-- The loop of `put_u64`: it writes the octets from the last one to the first. -/
def putU64Loop : Nat → UInt64 → Bytes → Bytes
  | 0, _, out => out
  | i + 1, value, out => putU64Loop i (value >>> 8) ((value &&& 0xff).toUInt8 :: out)

def putU64 (value : UInt64) : Bytes := putU64Loop 8 value []

theorem or_of_shiftLeft (n : Nat) {m k : Nat} (h : m < 2 ^ k) :
  n <<< k ||| m = n * 2 ^ k + m
  := by
  rw [← Nat.shiftLeft_add_eq_or_of_lt h, Nat.shiftLeft_eq]

theorem and_255 (n : Nat) :
  n &&& 255 = n % 256
  := Nat.and_two_pow_sub_one_eq_mod n 8

theorem putU16_eq (value : UInt16) :
  putU16 value = BigEndian.ofNat 2 value.toNat
  := by
  simp only [putU16, BigEndian.ofNat, List.nil_append, List.cons_append]
  simp only [List.cons.injEq, ← UInt8.toNat_inj, and_true]
  simp [and_255, Nat.shiftRight_eq_div_pow]

theorem putU32_eq (value : UInt32) :
  putU32 value = BigEndian.ofNat 4 value.toNat
  := by
  simp only [putU32, BigEndian.ofNat, List.nil_append, List.cons_append]
  simp only [List.cons.injEq, ← UInt8.toNat_inj, and_true]
  simp [and_255, Nat.shiftRight_eq_div_pow, Nat.div_div_eq_div_mul]

theorem putU64Loop_eq (i : Nat) (value : UInt64) (out : Bytes) :
  putU64Loop i value out = BigEndian.ofNat i value.toNat ++ out
  := by
  induction i generalizing value out with
  | zero => rfl
  | succ i ih =>
      have hlast : (value &&& 0xff).toUInt8 = UInt8.ofNat value.toNat := by
        apply UInt8.toNat_inj.mp
        simp [and_255]
      rw [putU64Loop, ih, BigEndian.ofNat, hlast]
      simp [Nat.shiftRight_eq_div_pow]

theorem putU64_eq (value : UInt64) :
  putU64 value = BigEndian.ofNat 8 value.toNat
  := by
  rw [putU64, putU64Loop_eq, List.append_nil]

theorem toNat_getU16 (p : Bytes) :
  (getU16 p).toNat = BigEndian.toNat [octet p 0, octet p 1]
  := by
  have h₀ := (octet p 0).toNat_lt
  have h₁ := (octet p 1).toNat_lt
  have hor : (getU16 p).toNat
      = (octet p 0).toNat <<< 8 % 2 ^ 16 ||| (octet p 1).toNat := by
    simp [getU16]
  rw [hor, Nat.mod_eq_of_lt (by rw [Nat.shiftLeft_eq]; omega), or_of_shiftLeft _ h₁]
  simp [BigEndian.toNat]

theorem toNat_getU32 (p : Bytes) :
  (getU32 p).toNat = BigEndian.toNat [octet p 0, octet p 1, octet p 2, octet p 3]
  := by
  have hor : ∀ a b c d : Nat, a < 2 ^ 8 → b < 2 ^ 8 → c < 2 ^ 8 → d < 2 ^ 8 →
      a <<< 24 % 4294967296 ||| b <<< 16 % 4294967296 ||| c <<< 8 % 4294967296 ||| d
        = ((a * 256 + b) * 256 + c) * 256 + d := by
    intro a b c d ha hb hc hd
    have hb' : b <<< 16 < 2 ^ 24 := by
      rw [Nat.shiftLeft_eq]
      omega
    have hc' : c <<< 8 < 2 ^ 16 := by
      rw [Nat.shiftLeft_eq]
      omega
    have hab : a * 2 ^ 24 + b <<< 16 = (a * 256 + b) <<< 16 := by
      simp only [Nat.shiftLeft_eq]
      ring
    have habc : (a * 256 + b) * 2 ^ 16 + c <<< 8 = ((a * 256 + b) * 256 + c) <<< 8 := by
      simp only [Nat.shiftLeft_eq]
      ring
    rw [Nat.mod_eq_of_lt (by rw [Nat.shiftLeft_eq]; omega), Nat.mod_eq_of_lt (by omega),
      Nat.mod_eq_of_lt (by omega), or_of_shiftLeft a hb', hab, or_of_shiftLeft _ hc', habc,
      or_of_shiftLeft _ hd]
    rfl
  have h := hor _ _ _ _ (octet p 0).toNat_lt (octet p 1).toNat_lt (octet p 2).toNat_lt
    (octet p 3).toNat_lt
  simpa [getU32, BigEndian.toNat] using h

theorem toNat_shiftLeft_or (value : UInt64) (b : UInt8) :
  ((value <<< 8) ||| b.toUInt64).toNat = (value.toNat * 256 + b.toNat) % 2 ^ 64
  := by
  have hb := b.toNat_lt
  have hshift : value.toNat <<< 8 % 2 ^ 64 = (value.toNat % 2 ^ 56) <<< 8 := by
    rw [Nat.shiftLeft_eq, Nat.shiftLeft_eq]
    omega
  have htoNat : ((value <<< 8) ||| b.toUInt64).toNat
      = (value.toNat <<< 8 % 2 ^ 64) ||| b.toNat := by
    simp
  rw [htoNat, hshift, or_of_shiftLeft _ hb]
  omega

theorem toNat_getU64 (p : Bytes) :
  (getU64 p).toNat = BigEndian.toNat ((List.range 8).map (octet p))
  := by
  -- The loop keeps the number read so far, modulo the width of the accumulator.
  have hfold : ∀ (l : List Nat) (value : UInt64) (n : Nat), value.toNat = n % 2 ^ 64 →
      (l.foldl (fun (value : UInt64) i => (value <<< 8) ||| (octet p i).toUInt64) value).toNat
        = (l.map (octet p)).foldl (fun acc b => acc * 256 + b.toNat) n % 2 ^ 64 := by
    intro l
    induction l with
    | nil =>
        intro value n h
        exact h
    | cons i l ih =>
        intro value n h
        rw [List.foldl_cons, List.map_cons, List.foldl_cons]
        apply ih
        rw [toNat_shiftLeft_or, h]
        omega
  have hlt := BigEndian.toNat_lt ((List.range 8).map (octet p))
  rw [List.length_map, List.length_range] at hlt
  rw [getU64, hfold (List.range 8) 0 0 rfl]
  apply Nat.mod_eq_of_lt
  apply lt_of_lt_of_eq hlt
  norm_num

/-- The octets of a text that starts with `width` octets of a number. -/
theorem map_octet_append {l : Bytes} (rest : Bytes) :
  (List.range l.length).map (octet (l ++ rest)) = l
  := by
  apply List.ext_getElem
  · simp
  · intro i h₁ h₂
    simp [octet, List.getElem?_append_left h₂, List.getElem?_eq_getElem h₂]

/-- The first octets of a byte string that is long enough. -/
theorem map_octet_take {n : Nat} {p : Bytes} (h : n ≤ p.length) :
  (List.range n).map (octet p) = p.take n
  := by
  have hlength : (p.take n).length = n := by
    rw [List.length_take]
    omega
  have hoctets := map_octet_append (l := p.take n) (p.drop n)
  rwa [hlength, List.take_append_drop] at hoctets

theorem toNat_getU16_take {p : Bytes} (h : 2 ≤ p.length) :
  (getU16 p).toNat = BigEndian.toNat (p.take 2)
  := by
  rw [toNat_getU16, ← map_octet_take h]
  rfl

theorem toNat_getU32_take {p : Bytes} (h : 4 ≤ p.length) :
  (getU32 p).toNat = BigEndian.toNat (p.take 4)
  := by
  rw [toNat_getU32, ← map_octet_take h]
  rfl

theorem toNat_getU64_take {p : Bytes} (h : 8 ≤ p.length) :
  (getU64 p).toNat = BigEndian.toNat (p.take 8)
  := by
  rw [toNat_getU64, ← map_octet_take h]

theorem ofNat_toNat_take {n : Nat} {p : Bytes} (h : n ≤ p.length) :
  BigEndian.ofNat n (BigEndian.toNat (p.take n)) = p.take n
  := by
  have hlength : (p.take n).length = n := by
    rw [List.length_take]
    omega
  have hoctets := BigEndian.ofNat_toNat (p.take n)
  rwa [hlength] at hoctets

theorem getU16_putU16 (value : UInt16) (rest : Bytes) :
  getU16 (putU16 value ++ rest) = value
  := by
  apply UInt16.toNat_inj.mp
  have hoctets := map_octet_append (l := putU16 value) rest
  have hrange : (List.range (putU16 value).length) = [0, 1] := rfl
  rw [hrange] at hoctets
  rw [toNat_getU16]
  apply Eq.trans (congrArg BigEndian.toNat hoctets)
  rw [putU16_eq]
  apply BigEndian.toNat_ofNat_of_lt value.toNat_lt

theorem getU32_putU32 (value : UInt32) (rest : Bytes) :
  getU32 (putU32 value ++ rest) = value
  := by
  apply UInt32.toNat_inj.mp
  have hoctets := map_octet_append (l := putU32 value) rest
  have hrange : (List.range (putU32 value).length) = [0, 1, 2, 3] := rfl
  rw [hrange] at hoctets
  rw [toNat_getU32]
  apply Eq.trans (congrArg BigEndian.toNat hoctets)
  rw [putU32_eq]
  apply BigEndian.toNat_ofNat_of_lt value.toNat_lt

theorem getU64_putU64 (value : UInt64) (rest : Bytes) :
  getU64 (putU64 value ++ rest) = value
  := by
  apply UInt64.toNat_inj.mp
  have hoctets := map_octet_append (l := putU64 value) rest
  have hlength : (putU64 value).length = 8 := rfl
  rw [hlength] at hoctets
  rw [toNat_getU64, hoctets, putU64_eq]
  apply BigEndian.toNat_ofNat_of_lt value.toNat_lt

/-! ### Encoding -/

def frameTooLarge : WireError :=
  .framing (Bytes.ofString "frame exceeds C1 bounded text-generation/v1 framing limits")

/-- The header of a frame with a metadata text and a payload of the given lengths. -/
def encodeHeader (type : UInt16) (correlationId : UInt64) (metadataLength payloadLength : Nat) :
    Bytes :=
  kMagic ++ putU16 kFramingVersion ++ putU16 type ++ putU64 correlationId
    ++ putU32 (UInt32.ofNat metadataLength) ++ putU64 (UInt64.ofNat payloadLength)

def encodeFrame (frame : Frame) : Except WireError Bytes :=
  match encodeMetadata frame.metadata with
  | .error e => .error e
  | .ok metadata =>
      if metadata.length > kMaxMetadata
          || frame.payload.length > kMaxC1TextGenerationOpaquePayloadBytes then
        .error frameTooLarge
      else
        .ok (encodeHeader frame.type frame.correlationId metadata.length frame.payload.length
          ++ metadata ++ frame.payload)

/-! ### Reading -/

/-- The fields of a header that passed the checks. -/
structure Header where
  type : UInt16
  correlation : UInt64
  metadataLength : UInt32
  payloadLength : UInt64

/-- The checks on the header: magic, framing version and lengths. -/
def parseHeader (header : Bytes) : Except WireError Header :=
  if header.take 4 ≠ kMagic then
    .error (.framing (Bytes.ofString "invalid framing magic"))
  else if getU16 (header.drop 4) ≠ kFramingVersion then
    .error (.framing (Bytes.ofString "unsupported framing version"))
  else
    let metadataLength := getU32 (header.drop 16)
    let payloadLength := getU64 (header.drop 20)
    if metadataLength.toNat > kMaxMetadata
        || payloadLength.toNat > kMaxC1TextGenerationOpaquePayloadBytes then
      .error frameTooLarge
    else
      .ok ⟨getU16 (header.drop 6), getU64 (header.drop 8), metadataLength, payloadLength⟩

/-- The metadata text or the payload, which is not read when it is empty. -/
def readSection {σ : Type} (read : Nat → Consumer σ WireError Bytes) (length : Nat) :
    Consumer σ WireError Bytes :=
  if length ≠ 0 then read length else pure []

/-- The body of `read_frame`, over a program that reads a number of bytes. -/
def frameFrom {σ : Type} (read : Nat → Consumer σ WireError Bytes) : Consumer σ WireError Frame :=
  do
    let header ← read kHeaderSize
    let h ← Consumer.lift (parseHeader header)
    let metadata ← readSection read h.metadataLength.toNat
    let payload ← readSection read h.payloadLength.toNat
    let decoded ← Consumer.lift (decodeMetadata metadata)
    pure ⟨h.type, h.correlation, decoded, payload⟩

/-- What `read_exact` does at a report without bytes. -/
def readVerdict : ReadEvent → Option WireError
  | .bytes _ _ => none
  | .interrupted => none
  | .wouldBlock =>
      some (.runtime (Bytes.ofString "IPC read failed: Resource temporarily unavailable"))
  | .closed => some (.runtime (Bytes.ofString "peer closed framed IPC"))
  | .failed reason => some (.runtime (Bytes.ofString "IPC read failed: " ++ reason))

def readExact (size : Nat) : Consumer Source WireError Bytes :=
  ⟨fun src => src.readLoop readVerdict size⟩

def readFrame : Consumer Source WireError Frame := frameFrom readExact

/-- `readFrame` on a byte string. -/
def parseFrame : Consumer Bytes WireError Frame := frameFrom Consumer.take

/-- `read_frame`, called `n` times. -/
def readFrames : Nat → Consumer Source WireError (List Frame)
  | 0 => pure []
  | n + 1 => do
      let frame ← readFrame
      let frames ← readFrames n
      pure (frame :: frames)

/-- `read_exact` on a source that stays open takes the first bytes it delivers. -/
theorem readExact_follows (size : Nat) :
  Consumer.Follows Source.Delivers (readExact size) (Consumer.take size)
  := by
  apply Source.readLoop_follows
  · intro b bs
    left
    use b, bs
  · rintro e (hbytes | rfl)
    · exact Or.inl hbytes
    · exact Or.inr rfl

theorem readSection_follows
    {σ τ : Type} {R : σ → τ → Prop} {read : Nat → Consumer σ WireError Bytes}
    {read' : Nat → Consumer τ WireError Bytes} (h : ∀ n, Consumer.Follows R (read n) (read' n))
    (length : Nat) :
  Consumer.Follows R (readSection read length) (readSection read' length)
  := by
  simp only [readSection]
  split_ifs
  · apply h
  · apply Consumer.Follows.pure

/-- Reading a frame with two programs that agree gives the same frame. -/
theorem frameFrom_follows
    {σ τ : Type} {R : σ → τ → Prop} {read : Nat → Consumer σ WireError Bytes}
    {read' : Nat → Consumer τ WireError Bytes} (h : ∀ n, Consumer.Follows R (read n) (read' n)) :
  Consumer.Follows R (frameFrom read) (frameFrom read')
  := by
  apply Consumer.Follows.bind (h _)
  intro header
  apply Consumer.Follows.bind (Consumer.Follows.lift R _)
  intro hd
  apply Consumer.Follows.bind (readSection_follows h _)
  intro metadata
  apply Consumer.Follows.bind (readSection_follows h _)
  intro payload
  apply Consumer.Follows.bind (Consumer.Follows.lift R _)
  intro decoded
  apply Consumer.Follows.pure

/-- `read_frame` on a source that stays open has the outcome of `parseFrame` on the bytes it
delivers. -/
theorem readFrame_follows :
  Consumer.Follows Source.Delivers readFrame parseFrame
  := frameFrom_follows readExact_follows

/-! ### Round trip of one frame -/

theorem encodeHeader_length (type : UInt16) (correlationId : UInt64) (m p : Nat) :
  (encodeHeader type correlationId m p).length = kHeaderSize
  := rfl

/-- The header that was written is read back. -/
theorem parseHeader_encodeHeader
    (type : UInt16) (correlationId : UInt64) {m p : Nat} (hm : m ≤ kMaxMetadata)
    (hp : p ≤ kMaxC1TextGenerationOpaquePayloadBytes) :
  parseHeader (encodeHeader type correlationId m p)
    = .ok ⟨type, correlationId, UInt32.ofNat m, UInt64.ofNat p⟩
  := by
  have hm' : (UInt32.ofNat m).toNat = m := by
    simp only [kMaxMetadata] at hm
    rw [UInt32.toNat_ofNat', Nat.mod_eq_of_lt (by omega)]
  have hp' : (UInt64.ofNat p).toNat = p := by
    simp only [kMaxC1TextGenerationOpaquePayloadBytes] at hp
    rw [UInt64.toNat_ofNat', Nat.mod_eq_of_lt (by omega)]
  have hmagic : (encodeHeader type correlationId m p).take 4 = kMagic := rfl
  have hversion : getU16 ((encodeHeader type correlationId m p).drop 4) = kFramingVersion :=
    getU16_putU16 kFramingVersion _
  have htype : getU16 ((encodeHeader type correlationId m p).drop 6) = type :=
    getU16_putU16 type _
  have hcorrelation : getU64 ((encodeHeader type correlationId m p).drop 8) = correlationId :=
    getU64_putU64 correlationId _
  have hmetadata : getU32 ((encodeHeader type correlationId m p).drop 16) = UInt32.ofNat m :=
    getU32_putU32 (UInt32.ofNat m) _
  have hpayload : getU64 ((encodeHeader type correlationId m p).drop 20) = UInt64.ofNat p :=
    getU64_putU64 (UInt64.ofNat p) []
  rw [parseHeader, hmagic, hversion, htype, hcorrelation, hmetadata, hpayload]
  simp [hm', hp', hm, hp]

/-- The headers that pass the checks. -/
theorem parseHeader_eq_ok_iff (header : Bytes) (h : Header) :
  parseHeader header = .ok h
    ↔ header.take 4 = kMagic ∧ getU16 (header.drop 4) = kFramingVersion
      ∧ (getU32 (header.drop 16)).toNat ≤ kMaxMetadata
      ∧ (getU64 (header.drop 20)).toNat ≤ kMaxC1TextGenerationOpaquePayloadBytes
      ∧ h = ⟨getU16 (header.drop 6), getU64 (header.drop 8), getU32 (header.drop 16),
          getU64 (header.drop 20)⟩
  := by
  rw [parseHeader]
  simp only [ne_eq, ite_not, Bool.or_eq_true, decide_eq_true_eq, gt_iff_lt]
  split_ifs with hmagic hversion hlengths
  · simp only [hmagic, hversion, true_and, false_iff]
    omega
  · simp only [hmagic, hversion, true_and, Except.ok.injEq]
    constructor
    · rintro rfl
      exact ⟨by omega, by omega, rfl⟩
    · rintro ⟨-, -, rfl⟩
      rfl
  · simp [hversion]
  · simp [hmagic]

/-- A header that passes the checks is the one that is written for its fields. -/
theorem encodeHeader_parseHeader {header : Bytes} {h : Header}
    (hlength : header.length = kHeaderSize) (hok : parseHeader header = .ok h) :
  encodeHeader h.type h.correlation h.metadataLength.toNat h.payloadLength.toNat = header
  := by
  rw [kHeaderSize] at hlength
  obtain ⟨hmagic, hversion, -, -, rfl⟩ := (parseHeader_eq_ok_iff _ _).mp hok
  have hversion' : putU16 kFramingVersion = (header.drop 4).take 2 := by
    rw [← hversion, putU16_eq, toNat_getU16_take (by simp; omega), ofNat_toNat_take (by simp; omega)]
  have htype : putU16 (getU16 (header.drop 6)) = (header.drop 6).take 2 := by
    rw [putU16_eq, toNat_getU16_take (by simp; omega), ofNat_toNat_take (by simp; omega)]
  have hcorrelation : putU64 (getU64 (header.drop 8)) = (header.drop 8).take 8 := by
    rw [putU64_eq, toNat_getU64_take (by simp; omega), ofNat_toNat_take (by simp; omega)]
  have hmetadata : putU32 (getU32 (header.drop 16)) = (header.drop 16).take 4 := by
    rw [putU32_eq, toNat_getU32_take (by simp; omega), ofNat_toNat_take (by simp; omega)]
  have hpayload : putU64 (getU64 (header.drop 20)) = (header.drop 20).take 8 := by
    rw [putU64_eq, toNat_getU64_take (by simp; omega), ofNat_toNat_take (by simp; omega)]
  have hcut : ∀ i n, header.take i ++ (header.drop i).take n = header.take (i + n) := by
    intro i n
    rw [List.take_add]
  rw [encodeHeader, UInt32.ofNat_toNat, UInt64.ofNat_toNat, hversion', htype, hcorrelation,
    hmetadata, hpayload, ← hmagic]
  simp only [hcut]
  rw [List.take_of_length_le (by omega)]

/-- A section that is empty is not read, which is no different from reading no byte. -/
theorem readSection_take (length : Nat) :
  readSection Consumer.take length = Consumer.take length
  := by
  rw [readSection]
  split_ifs with hne
  · rfl
  · have hzero : length = 0 := by omega
    rw [hzero]
    rfl

theorem readSection_append
    {bytes : Bytes} {length : Nat} (h : bytes.length = length) (rest : Bytes) :
  (readSection Consumer.take length).run (bytes ++ rest) = .done bytes rest
  := by
  rw [readSection]
  split_ifs with hne
  · apply Consumer.run_take_append rest h
  · have hnil : bytes = [] := List.length_eq_zero_iff.mp (by omega)
    rw [hnil]
    rfl

/-- `parseFrame` on the parts of a frame. -/
theorem parseFrame_sections
    {header metadata payload : Bytes} {h : Header} (rest : Bytes)
    (hlength : header.length = kHeaderSize) (hheader : parseHeader header = .ok h)
    (hmetadata : metadata.length = h.metadataLength.toNat)
    (hpayload : payload.length = h.payloadLength.toNat) :
  parseFrame.run (header ++ metadata ++ payload ++ rest)
    = match decodeMetadata metadata with
      | .ok decoded => .done ⟨h.type, h.correlation, decoded, payload⟩ rest
      | .error e => .raised e
  := by
  simp only [List.append_assoc]
  simp only [parseFrame, frameFrom, Consumer.run_bind, Consumer.run_take_append _ hlength, hheader,
    Consumer.run_lift_ok, readSection_append hmetadata, readSection_append hpayload]
  cases hdecoded : decodeMetadata metadata with
  | ok decoded => rfl
  | error e => rfl

/-- What `encode_frame` accepts: its metadata text, and the bytes it writes. -/
theorem encodeFrame_eq_ok_iff (frame : Frame) (bytes : Bytes) :
  encodeFrame frame = .ok bytes
    ↔ ∃ metadata, encodeMetadata frame.metadata = .ok metadata
        ∧ metadata.length ≤ kMaxMetadata
        ∧ frame.payload.length ≤ kMaxC1TextGenerationOpaquePayloadBytes
        ∧ bytes = encodeHeader frame.type frame.correlationId metadata.length frame.payload.length
            ++ metadata ++ frame.payload
  := by
  rw [encodeFrame]
  cases hmetadata : encodeMetadata frame.metadata with
  | error e => simp
  | ok metadata =>
      simp only [Bool.or_eq_true, decide_eq_true_eq, Except.ok.injEq, exists_eq_left']
      split_ifs with hlarge
      · simp only [false_iff]
        omega
      · simp only [Except.ok.injEq]
        constructor
        · rintro rfl
          exact ⟨by omega, by omega, rfl⟩
        · rintro ⟨-, -, rfl⟩
          rfl

/-- An encoded frame is parsed to itself, and what follows it is left. -/
theorem parseFrame_encodeFrame {frame : Frame} {bytes : Bytes} (h : encodeFrame frame = .ok bytes)
    (rest : Bytes) :
  parseFrame.run (bytes ++ rest) = .done frame rest
  := by
  obtain ⟨metadata, hmetadata, hm, hp, rfl⟩ := (encodeFrame_eq_ok_iff frame bytes).mp h
  have hm' : (UInt32.ofNat metadata.length).toNat = metadata.length := by
    simp only [kMaxMetadata] at hm
    rw [UInt32.toNat_ofNat', Nat.mod_eq_of_lt (by omega)]
  have hp' : (UInt64.ofNat frame.payload.length).toNat = frame.payload.length := by
    simp only [kMaxC1TextGenerationOpaquePayloadBytes] at hp
    rw [UInt64.toNat_ofNat', Nat.mod_eq_of_lt (by omega)]
  rw [parseFrame_sections rest (encodeHeader_length ..) (parseHeader_encodeHeader _ _ hm hp)
    hm'.symm hp'.symm, decodeMetadata_encodeMetadata hmetadata]

end Wire
