import Mathlib.Data.Set.List
import MadreKernel.Client.Protocol

/-!
# Agreement of the two codecs

A frame of the Java client and a frame of the kernel are the same frame when their types
agree modulo 2^16, their correlation ids have the same 64 bits, their metadata are the same
map as UTF-8 and their payloads are equal.  What `Client.Protocol.write` accepts,
`Wire.readFrame` reads as the same frame; what `Wire.encodeFrame` accepts,
`Client.Protocol.read` reads as the same frame.
-/

namespace Client

/-- The metadata of a client's frame and of a kernel's frame are the same map, as UTF-8. -/
def SameMetadata (java : SortedMap JavaString JavaString) (kernel : Metadata) : Prop :=
  ∀ key value, kernel.find? key = some value
    ↔ ∃ k v, java.find? k = some v ∧ k.getBytes = key ∧ v.getBytes = value

/-- The kernel finds the client's value under the client's key. -/
theorem SameMetadata.find?_getBytes
    {java : SortedMap JavaString JavaString} {kernel : Metadata} (h : SameMetadata java kernel)
    (key : JavaString) :
  kernel.find? key.getBytes = (java.find? key).map JavaString.getBytes
  := by
  apply Option.ext
  intro value
  rw [h, Option.map_eq_some_iff]
  constructor
  · rintro ⟨k, v, hfind, hkey, rfl⟩
    obtain rfl := JavaString.getBytes_injective hkey
    exact ⟨v, hfind, rfl⟩
  · rintro ⟨v, hfind, rfl⟩
    exact ⟨key, v, hfind, rfl, rfl⟩

/-- A client's frame and a kernel's frame are the same frame. -/
structure SameFrame (java : Protocol.Frame) (kernel : Frame) : Prop where
  type : (kernel.type.toNat : Int) = java.type.toInt % 2 ^ 16
  correlationId : kernel.correlationId = java.correlationId.toUInt64
  metadata : SameMetadata java.metadata kernel.metadata
  payload : kernel.payload = java.payload

/-! ### Metadata -/

/-- An entry of the client's metadata, as UTF-8. -/
def utf8Entry (e : JavaString × JavaString) : Bytes × Bytes := (e.1.getBytes, e.2.getBytes)

theorem marks_equalsSign :
  KeyValue.Marks String.utf8EncodeChar '=' Wire.equalsSign
  := Unicode.marks_ascii (by decide)

theorem marks_lineFeed :
  KeyValue.Marks String.utf8EncodeChar '\n' Wire.lineFeed
  := Unicode.marks_ascii (by decide)

/-- The text of the client's entries is, in UTF-8, the text of the entries in UTF-8. -/
theorem utf8_render (l : List (JavaString × JavaString)) :
  Unicode.utf8
      (KeyValue.render '=' '\n' (l.map (Prod.map JavaString.codePoints JavaString.codePoints)))
    = KeyValue.render Wire.equalsSign Wire.lineFeed (l.map utf8Entry)
  := by
  rw [Unicode.utf8, KeyValue.flatMap_render marks_equalsSign marks_lineFeed, List.map_map]
  rfl

theorem renderable_utf8Entry_iff (e : JavaString × JavaString) :
  KeyValue.Renderable Wire.equalsSign Wire.lineFeed (utf8Entry e)
    ↔ KeyValue.Renderable '=' '\n' (e.1.codePoints, e.2.codePoints)
  := KeyValue.renderable_encodeEntry_iff marks_equalsSign marks_lineFeed
      (fun _ => String.utf8EncodeChar_ne_nil) (e.1.codePoints, e.2.codePoints)

namespace Protocol

/-- An entry that `encodeMetadata` does not refuse can be rendered. -/
theorem renderable_of_invalidEntry {key value : JavaString} (h : invalidEntry key value = false) :
  KeyValue.Renderable '=' '\n' (key.codePoints, value.codePoints)
  := by
  simp only [invalidEntry, JavaString.contains, Bool.or_eq_false_iff,
    List.contains_eq_mem, decide_eq_false_iff_not] at h
  obtain ⟨⟨⟨⟨⟨hblank, heq⟩, hlf⟩, -⟩, hlf'⟩, -⟩ := h
  refine ⟨?_, heq, hlf, hlf'⟩
  intro hnil
  simp only at hnil
  simp [JavaString.isBlank, hnil] at hblank

/-- `decodeMetadata` assigns the entries of the lines, in order. -/
theorem decodeLines_eq (result : SortedMap JavaString JavaString) (lines : List (List Char)) :
  decodeLines result lines
    = match KeyValue.parseLines '=' lines with
      | none => .error (.io "malformed framed metadata")
      | some l => .ok (l.foldl (fun m e => m.assign ⟨e.1⟩ ⟨e.2⟩) result)
  := by
  induction lines generalizing result with
  | nil => rfl
  | cons line lines ih =>
      rw [decodeLines]
      by_cases hline : line = []
      · rw [if_pos hline, hline, KeyValue.parseLines_cons_nil, ih]
      · rw [if_neg hline, KeyValue.parseLines_cons hline]
        cases KeyValue.parseLine '=' line with
        | none => rfl
        | some e =>
            simp only [Option.bind_some, ih]
            cases KeyValue.parseLines '=' lines with
            | none => rfl
            | some l => rfl

/-- The text of entries that can be rendered is decoded to the map of these entries. -/
theorem decodeMetadata_render
    (malformed : Bytes → JavaString) {l : List (JavaString × JavaString)}
    (h : ∀ e ∈ l, KeyValue.Renderable '=' '\n' (e.1.codePoints, e.2.codePoints)) :
  decodeMetadata malformed (KeyValue.render Wire.equalsSign Wire.lineFeed (l.map utf8Entry))
    = .ok (SortedMap.ofAssigned l)
  := by
  have hrenderable : ∀ e ∈ l.map (Prod.map JavaString.codePoints JavaString.codePoints),
      KeyValue.Renderable '=' '\n' e := by
    intro e he
    obtain ⟨d, hd, rfl⟩ := List.mem_map.mp he
    exact h d hd
  have hparse := KeyValue.parse_render hrenderable (by decide)
  rw [KeyValue.parse] at hparse
  rw [decodeMetadata, ← utf8_render]
  have htext := JavaString.ofUtf8_getBytes malformed
    ⟨KeyValue.render '=' '\n' (l.map (Prod.map JavaString.codePoints JavaString.codePoints))⟩
  rw [JavaString.getBytes] at htext
  rw [htext, decodeLines_eq, hparse]
  simp only [List.foldl_map]
  rfl

end Protocol

/-- What the kernel decodes from the client's metadata text is the same map. -/
theorem sameMetadata_ofEntries (metadata : SortedMap JavaString JavaString) :
  SameMetadata metadata (SortedMap.ofEntries (metadata.entries.map utf8Entry))
  := by
  have hnodup : ((metadata.entries.map utf8Entry).map Prod.fst).Nodup := by
    have hkeys := metadata.nodup_keys.map JavaString.getBytes_injective
    rw [List.map_map] at hkeys ⊢
    exact hkeys
  intro key value
  rw [SortedMap.find?_ofEntries_eq_some_iff hnodup, List.mem_map]
  constructor
  · rintro ⟨⟨k, v⟩, hmem, heq⟩
    cases heq
    exact ⟨k, v, (SortedMap.mem_entries_iff _ _ _).mp hmem, rfl, rfl⟩
  · rintro ⟨k, v, hfind, rfl, rfl⟩
    exact ⟨(k, v), (SortedMap.mem_entries_iff _ _ _).mpr hfind, rfl⟩

/-- The entries of the kernel's map are the UTF-8 entries of a list, which gives the client's
map. -/
theorem exists_entries_of_sameMetadata
    {metadata : SortedMap JavaString JavaString} {kernel : Metadata}
    (h : SameMetadata metadata kernel) :
  ∃ l : List (JavaString × JavaString), l.map utf8Entry = kernel.entries
    ∧ SortedMap.ofAssigned l = metadata
  := by
  have hrange : kernel.entries ∈ Set.range (List.map utf8Entry) := by
    rw [Set.range_list_map]
    rintro ⟨key, value⟩ hmem
    obtain ⟨k, v, -, rfl, rfl⟩ := (h key value).mp ((SortedMap.mem_entries_iff _ _ _).mp hmem)
    exact ⟨(k, v), rfl⟩
  obtain ⟨l, hl⟩ := hrange
  use l, hl
  have hnodup : (l.map Prod.fst).Nodup := by
    have hkeys := kernel.nodup_keys
    rw [← hl, List.map_map] at hkeys
    have hcomp : (Prod.fst ∘ utf8Entry) = JavaString.getBytes ∘ Prod.fst := rfl
    rw [hcomp, ← List.map_map] at hkeys
    exact List.Nodup.of_map _ hkeys
  have hmem : ∀ k v, (k, v) ∈ l ↔ metadata.find? k = some v := by
    intro k v
    have hentry : (k, v) ∈ l ↔ (k.getBytes, v.getBytes) ∈ kernel.entries := by
      rw [← hl]
      constructor
      · intro hkv
        exact List.mem_map_of_mem (f := utf8Entry) hkv
      · intro hkv
        obtain ⟨⟨k', v'⟩, hmem', heq⟩ := List.mem_map.mp hkv
        have hk := JavaString.getBytes_injective (congrArg Prod.fst heq)
        have hv := JavaString.getBytes_injective (congrArg Prod.snd heq)
        simp only at hk hv
        rw [← hk, ← hv]
        exact hmem'
    rw [hentry, SortedMap.mem_entries_iff, h]
    constructor
    · rintro ⟨k', v', hfind, hk, hv⟩
      rw [← JavaString.getBytes_injective hk, ← JavaString.getBytes_injective hv]
      exact hfind
    · intro hfind
      exact ⟨k, v, hfind, rfl, rfl⟩
  apply SortedMap.ext_find?
  intro k
  apply Option.ext
  intro v
  rw [SortedMap.find?_ofAssigned_eq_some_iff hnodup, hmem]

/-! ### Frames -/

namespace Protocol

/-- The client's header is the kernel's header. -/
theorem encodeHeader_eq (type : Int32) (correlationId : Int64) (m p : Nat) :
  encodeHeader type correlationId m p
    = Wire.encodeHeader type.toInt16.toUInt16 correlationId.toUInt64 m p
  := by
  rw [encodeHeader, Wire.encodeHeader, Wire.putU16_eq, Wire.putU16_eq, Wire.putU64_eq,
    Wire.putU32_eq, Wire.putU64_eq]
  rfl

theorem getShort_putU16 (value : UInt16) (rest : Bytes) :
  getShort (Wire.putU16 value ++ rest) = value.toInt16
  := by
  rw [getShort, Wire.putU16_eq, List.take_left' (BigEndian.length_ofNat _ _),
    BigEndian.toNat_ofNat_of_lt value.toNat_lt, UInt16.ofNat_toNat]

theorem getInt_putU32 (value : UInt32) (rest : Bytes) :
  getInt (Wire.putU32 value ++ rest) = value.toInt32
  := by
  rw [getInt, Wire.putU32_eq, List.take_left' (BigEndian.length_ofNat _ _),
    BigEndian.toNat_ofNat_of_lt value.toNat_lt, UInt32.ofNat_toNat]

theorem getLong_putU64 (value : UInt64) (rest : Bytes) :
  getLong (Wire.putU64 value ++ rest) = value.toInt64
  := by
  rw [getLong, Wire.putU64_eq, List.take_left' (BigEndian.length_ofNat _ _),
    BigEndian.toNat_ofNat_of_lt value.toNat_lt, UInt64.ofNat_toNat]

/-- The header that the kernel wrote is read by the client. -/
theorem parseHeader_encodeHeader
    (type : UInt16) (correlationId : UInt64) {m p : Nat} (hm : m ≤ MAX_METADATA)
    (hp : p ≤ MAX_C1_TEXT_GENERATION_OPAQUE_PAYLOAD_BYTES) :
  parseHeader (Wire.encodeHeader type correlationId m p)
    = .ok ⟨Int32.ofNat type.toNat, correlationId.toInt64, Int32.ofNat m, Int64.ofNat p⟩
  := by
  have hmagic : (Wire.encodeHeader type correlationId m p).take 4 = MAGIC := rfl
  have hversion : getShort ((Wire.encodeHeader type correlationId m p).drop 4)
      = Wire.kFramingVersion.toInt16 := getShort_putU16 Wire.kFramingVersion _
  have htype : getShort ((Wire.encodeHeader type correlationId m p).drop 6) = type.toInt16 :=
    getShort_putU16 type _
  have hcorrelation : getLong ((Wire.encodeHeader type correlationId m p).drop 8)
      = correlationId.toInt64 := getLong_putU64 correlationId _
  have hmetadata : getInt ((Wire.encodeHeader type correlationId m p).drop 16)
      = (UInt32.ofNat m).toInt32 := getInt_putU32 (UInt32.ofNat m) _
  have hpayload : getLong ((Wire.encodeHeader type correlationId m p).drop 20)
      = (UInt64.ofNat p).toInt64 := getLong_putU64 (UInt64.ofNat p) []
  have hm' : (Int32.ofNat m).toInt = m := by
    simp only [MAX_METADATA] at hm
    rw [Int32.toInt_ofNat_of_lt (by omega)]
  have hp' : (Int64.ofNat p).toInt = p := by
    simp only [MAX_C1_TEXT_GENERATION_OPAQUE_PAYLOAD_BYTES] at hp
    rw [Int64.toInt_ofNat_of_lt (by omega)]
  have hlengths : ¬((UInt32.ofNat m).toInt32 < 0
      || (UInt32.ofNat m).toInt32 > Int32.ofNat MAX_METADATA
      || (UInt64.ofNat p).toInt64 < 0
      || (UInt64.ofNat p).toInt64
        > Int64.ofNat MAX_C1_TEXT_GENERATION_OPAQUE_PAYLOAD_BYTES) = true := by
    have hsigned : (UInt32.ofNat m).toInt32 = Int32.ofNat m := rfl
    have hsigned' : (UInt64.ofNat p).toInt64 = Int64.ofNat p := rfl
    have hmax : (Int32.ofNat MAX_METADATA).toInt = MAX_METADATA := rfl
    have hmax' : (Int64.ofNat MAX_C1_TEXT_GENERATION_OPAQUE_PAYLOAD_BYTES).toInt
        = MAX_C1_TEXT_GENERATION_OPAQUE_PAYLOAD_BYTES := rfl
    have hzero : (0 : Int32).toInt = 0 := rfl
    have hzero' : (0 : Int64).toInt = 0 := rfl
    simp only [hsigned, hsigned', Bool.or_eq_true, decide_eq_true_eq, gt_iff_lt,
      Int32.lt_iff_toInt_lt, Int64.lt_iff_toInt_lt, hm', hp', hmax, hmax', hzero, hzero']
    omega
  have hone : toUnsignedInt Wire.kFramingVersion.toInt16 = Int32.ofNat FRAMING_VERSION := by decide
  rw [parseHeader, hmagic, hversion, htype, hcorrelation, hmetadata, hpayload, hone]
  simp only [ne_eq, not_true_eq_false, if_false]
  rw [if_neg hlengths]
  rfl

theorem readFully_follows (size : Nat) :
  Consumer.Follows Source.PolledDelivers (readFully size) (Consumer.take size)
  := by
  apply Source.readLoop_follows
  · intro b bs
    left
    use b, bs
  · rintro e (hbytes | rfl | rfl)
    · exact Or.inl hbytes
    · exact Or.inr rfl
    · exact Or.inr rfl

/-- `read` on a source that stays open has the outcome of reading the bytes it delivers. -/
theorem read_follows (malformed : Bytes → JavaString) :
  Consumer.Follows Source.PolledDelivers (read malformed) (frameFrom malformed Consumer.take)
  := by
  apply Consumer.Follows.bind (readFully_follows _)
  intro header
  apply Consumer.Follows.bind (Consumer.Follows.lift _ _)
  intro h
  apply Consumer.Follows.bind (readFully_follows _)
  intro metadata
  apply Consumer.Follows.bind (readFully_follows _)
  intro payload
  apply Consumer.Follows.bind (Consumer.Follows.lift _ _)
  intro decoded
  apply Consumer.Follows.lift

/-- What `write` accepts: its metadata text, and the octets it puts on the channel. -/
theorem write_eq_ok {frame : Frame} {bytes : Bytes} (h : write frame = .ok bytes) :
  (∀ e ∈ frame.metadata.entries, invalidEntry e.1 e.2 = false)
    ∧ ∃ metadata, metadata
          = KeyValue.render Wire.equalsSign Wire.lineFeed (frame.metadata.entries.map utf8Entry)
      ∧ metadata.length ≤ MAX_METADATA
      ∧ bytes = Wire.encodeHeader frame.type.toInt16.toUInt16 frame.correlationId.toUInt64
          metadata.length frame.payload.length ++ metadata ++ frame.payload
  := by
  rw [write, encodeMetadata] at h
  cases hentries : encodeEntries frame.metadata.entries with
  | error e =>
      rw [hentries] at h
      cases h
  | ok out =>
      obtain ⟨hvalid, rfl⟩ := (KeyValue.renderIf_eq_ok_iff _ _ _ _ _ _ _).mp hentries
      rw [hentries] at h
      simp only [JavaString.getBytes, utf8_render, Bool.or_eq_true, decide_eq_true_eq,
        encodeHeader_eq] at h
      split_ifs at h with hlarge
      cases h
      refine ⟨hvalid, _, rfl, by omega, rfl⟩

/-- The client reads the parts of a frame that the kernel wrote. -/
theorem frameFrom_sections
    (malformed : Bytes → JavaString) (type : UInt16) (correlationId : UInt64)
    {metadata payload : Bytes} (rest : Bytes) (hm : metadata.length ≤ MAX_METADATA)
    (hp : payload.length ≤ MAX_C1_TEXT_GENERATION_OPAQUE_PAYLOAD_BYTES) :
  (frameFrom malformed Consumer.take).run
      (Wire.encodeHeader type correlationId metadata.length payload.length ++ metadata ++ payload
        ++ rest)
    = match decodeMetadata malformed metadata with
      | .ok decoded =>
          .done ⟨Int32.ofNat type.toNat, correlationId.toInt64, decoded, payload, hp⟩ rest
      | .error e => .raised e
  := by
  have hm' : (Int32.ofNat metadata.length).toNatClampNeg = metadata.length := by
    simp only [MAX_METADATA] at hm
    rw [Int32.toNatClampNeg_ofNat_of_lt (by omega)]
  have hp' : (Int64.ofNat payload.length).toNatClampNeg = payload.length := by
    simp only [MAX_C1_TEXT_GENERATION_OPAQUE_PAYLOAD_BYTES] at hp
    rw [Int64.toNatClampNeg_ofNat_of_lt (by omega)]
  have hlength : (Wire.encodeHeader type correlationId metadata.length payload.length).length
      = HEADER_SIZE := rfl
  simp only [List.append_assoc]
  simp only [frameFrom, Consumer.run_bind, Consumer.run_take_append _ hlength,
    parseHeader_encodeHeader type correlationId hm hp, Consumer.run_lift_ok, hm', hp',
    Consumer.run_take_append _ (rfl : metadata.length = metadata.length),
    Consumer.run_take_append _ (rfl : payload.length = payload.length)]
  cases hdecoded : decodeMetadata malformed metadata with
  | ok decoded =>
      simp only [Consumer.run_lift_ok]
      rw [Frame.construct, dif_neg (by omega)]
      rfl
  | error e => rfl

end Protocol

theorem toNat_toUInt16 (type : Int32) :
  (type.toInt16.toUInt16.toNat : Int) = type.toInt % 2 ^ 16
  := by
  have hbits : (type.toInt16.toUInt16.toNat : Int) = type.toInt16.toInt % 2 ^ 16 := by
    have hlt := type.toInt16.toUInt16.toNat_lt
    have hcond := BitVec.toInt_eq_toNat_cond type.toInt16.toBitVec
    have htoNat : type.toInt16.toBitVec.toNat = type.toInt16.toUInt16.toNat := rfl
    have htoInt : type.toInt16.toBitVec.toInt = type.toInt16.toInt := rfl
    rw [htoNat, htoInt] at hcond
    split_ifs at hcond <;> omega
  rw [hbits, Int32.toInt_toInt16]
  exact Int.bmod_emod

/-- The kernel parses what the client writes, as the same frame. -/
theorem parseFrame_write {frame : Protocol.Frame} {bytes : Bytes}
    (h : Protocol.write frame = .ok bytes) (rest : Bytes) :
  ∃ frame', Wire.parseFrame.run (bytes ++ rest) = .done frame' rest ∧ SameFrame frame frame'
  := by
  obtain ⟨hvalid, metadata, hmetadata, hm, rfl⟩ := Protocol.write_eq_ok h
  have hp := frame.payload_le
  have hm' : metadata.length = (UInt32.ofNat metadata.length).toNat := by
    simp only [Protocol.MAX_METADATA] at hm
    rw [UInt32.toNat_ofNat', Nat.mod_eq_of_lt (by omega)]
  have hp' : frame.payload.length = (UInt64.ofNat frame.payload.length).toNat := by
    simp only [Protocol.MAX_C1_TEXT_GENERATION_OPAQUE_PAYLOAD_BYTES] at hp
    rw [UInt64.toNat_ofNat', Nat.mod_eq_of_lt (by omega)]
  have hparse : KeyValue.parse Wire.equalsSign Wire.lineFeed metadata
      = some (frame.metadata.entries.map utf8Entry) := by
    rw [hmetadata]
    apply KeyValue.parse_render
    · intro e he
      obtain ⟨d, hd, rfl⟩ := List.mem_map.mp he
      rw [renderable_utf8Entry_iff]
      exact Protocol.renderable_of_invalidEntry (hvalid d hd)
    · decide
  rw [Wire.parseFrame_sections rest (Wire.encodeHeader_length ..)
    (Wire.parseHeader_encodeHeader _ _ hm hp) hm' hp', Wire.decodeMetadata_eq, hparse]
  exact ⟨_, rfl, toNat_toUInt16 frame.type, rfl, sameMetadata_ofEntries frame.metadata, rfl⟩

/-- The client parses what the kernel writes, as the same frame. -/
theorem frameFrom_encodeFrame
    (malformed : Bytes → JavaString) {frame : Frame} {bytes : Bytes}
    {metadata : SortedMap JavaString JavaString} (h : Wire.encodeFrame frame = .ok bytes)
    (hsame : SameMetadata metadata frame.metadata) (rest : Bytes) :
  ∃ frame', (Protocol.frameFrom malformed Consumer.take).run (bytes ++ rest) = .done frame' rest
    ∧ SameFrame frame' frame ∧ frame'.type.toInt = frame.type.toNat ∧ frame'.metadata = metadata
  := by
  obtain ⟨text, htext, hm, hp, rfl⟩ := (Wire.encodeFrame_eq_ok_iff frame bytes).mp h
  obtain ⟨hvalid, rfl⟩ := (Wire.encodeEntries_eq_ok_iff _ _).mp htext
  obtain ⟨l, hl, rfl⟩ := exists_entries_of_sameMetadata hsame
  have hdecoded : Protocol.decodeMetadata malformed
      (KeyValue.render Wire.equalsSign Wire.lineFeed frame.metadata.entries)
        = .ok (SortedMap.ofAssigned l) := by
    rw [← hl]
    apply Protocol.decodeMetadata_render
    intro e he
    rw [← renderable_utf8Entry_iff]
    have hentry : utf8Entry e ∈ frame.metadata.entries := by
      rw [← hl]
      exact List.mem_map_of_mem he
    exact ((Wire.invalidEntry_eq_false_iff _ _).mp (hvalid _ hentry)).1
  have htype : (Int32.ofNat frame.type.toNat).toInt = frame.type.toNat := by
    have hlt := frame.type.toNat_lt
    rw [Int32.toInt_ofNat_of_lt (by omega)]
  use ⟨Int32.ofNat frame.type.toNat, frame.correlationId.toInt64, SortedMap.ofAssigned l,
    frame.payload, hp⟩
  refine ⟨by rw [Protocol.frameFrom_sections malformed _ _ rest hm hp, hdecoded],
    ⟨?_, rfl, hsame, rfl⟩, htype, rfl⟩
  have hlt := frame.type.toNat_lt
  rw [htype]
  omega

/-- The client and the kernel agree on the format of frames.  Whatever the client writes, the
kernel reads as the same frame, and whatever the kernel writes with well-formed metadata, the
client reads as the same frame; each leaves what follows the frame on the channel. -/
theorem codecs_agree (malformed : Bytes → JavaString) :
  (∀ (frame : Protocol.Frame) (bytes rest : Bytes) (src : Source),
    Protocol.write frame = .ok bytes → src.Delivers (bytes ++ rest) →
      ∃ frame' src', Wire.readFrame.run src = .done frame' src' ∧ src'.Delivers rest
        ∧ SameFrame frame frame')
  ∧ (∀ (frame : Frame) (metadata : SortedMap JavaString JavaString) (bytes rest : Bytes)
      (src : Source), SameMetadata metadata frame.metadata → Wire.encodeFrame frame = .ok bytes →
      src.PolledDelivers (bytes ++ rest) →
      ∃ frame' src', (Protocol.read malformed).run src = .done frame' src'
        ∧ src'.PolledDelivers rest ∧ SameFrame frame' frame
        ∧ frame'.type.toInt = frame.type.toNat ∧ frame'.metadata = metadata)
  := by
  constructor
  · intro frame bytes rest src hwrite hsrc
    obtain ⟨frame', hparse, hsame⟩ := parseFrame_write hwrite rest
    have hread := Wire.readFrame_follows src _ hsrc
    rw [hparse] at hread
    obtain ⟨src', hrun, hrest⟩ := hread.of_done
    exact ⟨frame', src', hrun, hrest, hsame⟩
  · intro frame metadata bytes rest src hmetadata hencode hsrc
    obtain ⟨frame', hparse, hsame, htype, hmap⟩ :=
      frameFrom_encodeFrame malformed hencode hmetadata rest
    have hread := Protocol.read_follows malformed src _ hsrc
    rw [hparse] at hread
    obtain ⟨src', hrun, hrest⟩ := hread.of_done
    exact ⟨frame', src', hrun, hrest, hsame, htype, hmap⟩

/-- A frame of the client with metadata that are not ASCII. -/
def accentFrame : Protocol.Frame where
  type := 65546
  correlationId := -1
  metadata := SortedMap.ofAssigned [(⟨['é']⟩, ⟨['=']⟩)]
  payload := [0, 10]
  payload_le := by decide

/-- The octets of this frame. -/
def accentBytes : Bytes :=
  Wire.encodeHeader 10 0xffffffffffffffff 5 2 ++ [0xc3, 0xa9, 61, 61, 10] ++ [0, 10]

theorem codecs_agree_accent :
  (∃ frame' src', Wire.readFrame.run (Source.ofBytes accentBytes) = .done frame' src'
    ∧ src'.Delivers [] ∧ SameFrame accentFrame frame')
  ∧ ∃ frame' src', (Protocol.read fun _ => ⟨[]⟩).run (Source.ofBytes accentBytes)
      = .done frame' src' ∧ src'.PolledDelivers [] ∧ frame'.type = 10
        ∧ frame'.metadata = accentFrame.metadata
  := by
  constructor
  · apply (codecs_agree (fun _ => ⟨[]⟩)).1 accentFrame accentBytes [] (Source.ofBytes accentBytes)
    · decide +kernel
    · constructor
      · apply Source.open_ofBytes
      · simp
  · obtain ⟨frame', src', hrun, hrest, -, htype, hmetadata⟩ :=
      (codecs_agree (fun _ => ⟨[]⟩)).2
        ⟨10, 0xffffffffffffffff,
          SortedMap.ofEntries (accentFrame.metadata.entries.map utf8Entry), [0, 10]⟩
        accentFrame.metadata accentBytes [] (Source.ofBytes accentBytes)
        (sameMetadata_ofEntries _) (by decide +kernel)
        ⟨by decide +kernel, by simp⟩
    use frame', src', hrun, hrest
    refine ⟨?_, hmetadata⟩
    apply Int32.toInt_inj.mp
    rw [htype]
    rfl

end Client
