import MadreKernel.Client.Agreement

/-!
# The language of the two decoders

`Wire.readFrame` and `Client.Protocol.read` read the same byte strings: both wait for more
bytes, both raise an exception, or both end with a frame.  The frames differ in one case.  When
a key stands on several lines of the metadata text, the kernel keeps its first line and the
client its last one.  So the decoders agree on a byte string exactly when the first and the last
line of every key of its metadata text give the key the same value.
-/

namespace Wire

/-- A byte string starts with a frame: its header, a metadata text and a payload that are not
too long. -/
structure StartsWith (b : Bytes) (type : UInt16) (correlationId : UInt64)
    (metadata payload rest : Bytes) : Prop where
  eq_append : b = encodeHeader type correlationId metadata.length payload.length ++ metadata
    ++ payload ++ rest
  metadata_le : metadata.length ≤ kMaxMetadata
  payload_le : payload.length ≤ kMaxC1TextGenerationOpaquePayloadBytes

/-- A byte string starts with one frame at most. -/
theorem StartsWith.unique
    {b metadata metadata' payload payload' rest rest' : Bytes} {type type' : UInt16}
    {correlationId correlationId' : UInt64}
    (h : StartsWith b type correlationId metadata payload rest)
    (h' : StartsWith b type' correlationId' metadata' payload' rest') :
  metadata = metadata'
  := by
  have heq := h.eq_append.symm.trans h'.eq_append
  simp only [List.append_assoc] at heq
  obtain ⟨hheader, hrest⟩ := List.append_inj heq (by simp only [encodeHeader_length])
  have hparse := parseHeader_encodeHeader type correlationId h.metadata_le h.payload_le
  rw [hheader, parseHeader_encodeHeader type' correlationId' h'.metadata_le h'.payload_le,
    Except.ok.injEq, Header.mk.injEq] at hparse
  have hlength : metadata.length = metadata'.length := by
    have hm := h.metadata_le
    have hm' := h'.metadata_le
    simp only [kMaxMetadata] at hm hm'
    have htoNat := congrArg UInt32.toNat hparse.2.2.1
    rw [UInt32.toNat_ofNat', UInt32.toNat_ofNat', Nat.mod_eq_of_lt (by omega),
      Nat.mod_eq_of_lt (by omega)] at htoNat
    exact htoNat.symm
  exact (List.append_inj hrest hlength).1

/-- `parseFrame` on a byte string that starts with a frame. -/
theorem parseFrame_startsWith
    {b metadata payload rest : Bytes} {type : UInt16} {correlationId : UInt64}
    (h : StartsWith b type correlationId metadata payload rest) :
  parseFrame.run b
    = match KeyValue.parse equalsSign lineFeed metadata with
      | some l => .done ⟨type, correlationId, SortedMap.ofEntries l, payload⟩ rest
      | none => .raised malformedMetadata
  := by
  have hm := h.metadata_le
  have hp := h.payload_le
  have hm' : metadata.length = (UInt32.ofNat metadata.length).toNat := by
    simp only [kMaxMetadata] at hm
    rw [UInt32.toNat_ofNat', Nat.mod_eq_of_lt (by omega)]
  have hp' : payload.length = (UInt64.ofNat payload.length).toNat := by
    simp only [kMaxC1TextGenerationOpaquePayloadBytes] at hp
    rw [UInt64.toNat_ofNat', Nat.mod_eq_of_lt (by omega)]
  rw [h.eq_append, parseFrame_sections rest (encodeHeader_length ..)
    (parseHeader_encodeHeader type correlationId hm hp) hm' hp', decodeMetadata_eq]
  cases KeyValue.parse equalsSign lineFeed metadata with
  | some l => rfl
  | none => rfl

/-- In the metadata text of a frame that a byte string starts with, the first and the last line
of every key give it the same value. -/
def RepeatsAgree (b : Bytes) : Prop :=
  ∀ type correlationId metadata payload rest,
    StartsWith b type correlationId metadata payload rest →
    ∀ l, KeyValue.parse equalsSign lineFeed metadata = some l → SortedMap.FirstIsLast l

end Wire

namespace Client

/-! ### Headers -/

namespace Protocol

theorem getShort_eq {p : Bytes} (h : 2 ≤ p.length) :
  getShort p = (Wire.getU16 p).toInt16
  := by
  rw [getShort, ← Wire.toNat_getU16_take h, UInt16.ofNat_toNat]

theorem getInt_eq {p : Bytes} (h : 4 ≤ p.length) :
  getInt p = (Wire.getU32 p).toInt32
  := by
  rw [getInt, ← Wire.toNat_getU32_take h, UInt32.ofNat_toNat]

theorem getLong_eq {p : Bytes} (h : 8 ≤ p.length) :
  getLong p = (Wire.getU64 p).toInt64
  := by
  rw [getLong, ← Wire.toNat_getU64_take h, UInt64.ofNat_toNat]

/-- A length that is in range as a signed integer is in range as an unsigned one. -/
theorem toNat_le_of_toInt32 {v : UInt32} {bound : Nat} (h₀ : 0 ≤ v.toInt32.toInt)
    (h : v.toInt32.toInt ≤ bound) :
  v.toNat ≤ bound
  := by
  have hlt := v.toNat_lt
  have hcond := BitVec.toInt_eq_toNat_cond v.toBitVec
  have htoNat : v.toBitVec.toNat = v.toNat := rfl
  have htoInt : v.toBitVec.toInt = v.toInt32.toInt := rfl
  rw [htoNat, htoInt] at hcond
  split_ifs at hcond <;> omega

theorem toNat_le_of_toInt64 {v : UInt64} {bound : Nat} (h₀ : 0 ≤ v.toInt64.toInt)
    (h : v.toInt64.toInt ≤ bound) :
  v.toNat ≤ bound
  := by
  have hlt := v.toNat_lt
  have hcond := BitVec.toInt_eq_toNat_cond v.toBitVec
  have htoNat : v.toBitVec.toNat = v.toNat := rfl
  have htoInt : v.toBitVec.toInt = v.toInt64.toInt := rfl
  rw [htoNat, htoInt] at hcond
  split_ifs at hcond <;> omega

/-- A header that the client accepts is one that the kernel accepts. -/
theorem exists_parseHeader_eq_ok {header : Bytes} {h : Header}
    (hlength : header.length = HEADER_SIZE) (hok : parseHeader header = .ok h) :
  ∃ h', Wire.parseHeader header = .ok h'
  := by
  rw [HEADER_SIZE] at hlength
  rw [parseHeader] at hok
  simp only [ne_eq, ite_not, Bool.or_eq_true, decide_eq_true_eq] at hok
  split_ifs at hok with hmagic hversion hlengths
  rw [getShort_eq (by simp; omega)] at hversion
  rw [getInt_eq (by simp; omega), getLong_eq (by simp; omega)] at hlengths
  have hversion' : Wire.getU16 (header.drop 4) = Wire.kFramingVersion := by
    have hlt := (Wire.getU16 (header.drop 4)).toNat_lt
    have hint := congrArg Int32.toInt hversion
    have hunsigned : toUnsignedInt (Wire.getU16 (header.drop 4)).toInt16
        = Int32.ofNat (Wire.getU16 (header.drop 4)).toNat := rfl
    rw [hunsigned, FRAMING_VERSION, Int32.toInt_ofNat_of_lt (by omega),
      Int32.toInt_ofNat_of_lt (by omega)] at hint
    apply UInt16.toNat_inj.mp
    exact_mod_cast hint
  have hzero : (0 : Int32).toInt = 0 := rfl
  have hzero' : (0 : Int64).toInt = 0 := rfl
  have hmax : (Int32.ofNat MAX_METADATA).toInt = MAX_METADATA := rfl
  have hmax' : (Int64.ofNat MAX_C1_TEXT_GENERATION_OPAQUE_PAYLOAD_BYTES).toInt
      = MAX_C1_TEXT_GENERATION_OPAQUE_PAYLOAD_BYTES := rfl
  simp only [gt_iff_lt, Int32.lt_iff_toInt_lt, Int64.lt_iff_toInt_lt, hzero, hzero', hmax,
    hmax'] at hlengths
  have hmetadata : (Wire.getU32 (header.drop 16)).toNat ≤ Wire.kMaxMetadata :=
    toNat_le_of_toInt32 (by omega) (by simp only [MAX_METADATA, Wire.kMaxMetadata] at *; omega)
  have hpayload : (Wire.getU64 (header.drop 20)).toNat
      ≤ Wire.kMaxC1TextGenerationOpaquePayloadBytes :=
    toNat_le_of_toInt64 (by omega)
      (by simp only [MAX_C1_TEXT_GENERATION_OPAQUE_PAYLOAD_BYTES,
        Wire.kMaxC1TextGenerationOpaquePayloadBytes] at *; omega)
  exact ⟨_, (Wire.parseHeader_eq_ok_iff _ _).mpr ⟨hmagic, hversion', hmetadata, hpayload, rfl⟩⟩

/-- The entries of the client's text. -/
def javaEntry (e : List Char × List Char) : JavaString × JavaString := (⟨e.1⟩, ⟨e.2⟩)

/-- `read` on a byte string that starts with a frame whose metadata text is UTF-8. -/
theorem frameFrom_startsWith
    (malformed : Bytes → JavaString) {b payload rest : Bytes} {text : List Char} {type : UInt16}
    {correlationId : UInt64}
    (h : Wire.StartsWith b type correlationId (Unicode.utf8 text) payload rest)
    (hp : payload.length ≤ MAX_C1_TEXT_GENERATION_OPAQUE_PAYLOAD_BYTES) :
  (frameFrom malformed Consumer.take).run b
    = match KeyValue.parse '=' '\n' text with
      | some l => .done ⟨Int32.ofNat type.toNat, correlationId.toInt64,
          SortedMap.ofAssigned (l.map javaEntry), payload, hp⟩ rest
      | none => .raised (.io "malformed framed metadata")
  := by
  have htext : JavaString.ofUtf8 malformed (Unicode.utf8 text) = ⟨text⟩ :=
    JavaString.ofUtf8_getBytes malformed ⟨text⟩
  rw [h.eq_append, frameFrom_sections malformed type correlationId rest h.metadata_le hp,
    decodeMetadata, htext, decodeLines_eq, KeyValue.parse]
  cases KeyValue.parseLines '=' (text.splitOn '\n') with
  | some l =>
      simp only [SortedMap.ofAssigned, List.foldl_map]
      rfl
  | none => rfl

end Protocol

/-! ### Outcomes -/

/-- The decoders make the same of a stream: the same frame, with related streams left, an
exception, or they wait for more bytes. -/
inductive SameOutcome {σ τ : Type} (R : σ → τ → Prop) :
    Outcome σ WireError Frame → Outcome τ Exception Protocol.Frame → Prop where
  | done {kernel : Frame} {java : Protocol.Frame} {s : σ} {t : τ} (hframe : SameFrame java kernel)
      (htype : java.type.toInt = kernel.type.toNat) (hrest : R s t) :
      SameOutcome R (.done kernel s) (.done java t)
  | waiting : SameOutcome R .waiting .waiting
  | raised (e : WireError) (e' : Exception) : SameOutcome R (.raised e) (.raised e')

/-- Streams of the two decoders that deliver the same bytes. -/
def SameBytes (s t : Source) : Prop := ∃ b, s.Delivers b ∧ t.PolledDelivers b

/-- A header that the kernel accepts: the decoders read on, or wait. -/
theorem waiting_or_startsWith
    (malformed : Bytes → JavaString) {b : Bytes} {h : Wire.Header}
    (hlong : Wire.kHeaderSize ≤ b.length)
    (hheader : Wire.parseHeader (b.take Wire.kHeaderSize) = .ok h) :
  (Wire.parseFrame.run b = .waiting
      ∧ (Protocol.frameFrom malformed Consumer.take).run b = .waiting)
    ∨ ∃ type correlationId metadata payload rest,
        Wire.StartsWith b type correlationId metadata payload rest
  := by
  have hlength : (b.take Wire.kHeaderSize).length = Wire.kHeaderSize := by
    rw [List.length_take]
    omega
  obtain ⟨-, -, hm, hp, hfields⟩ := (Wire.parseHeader_eq_ok_iff _ _).mp hheader
  have hencode := Wire.encodeHeader_parseHeader hlength hheader
  have hm' : h.metadataLength.toNat ≤ Wire.kMaxMetadata := by
    rw [hfields]
    exact hm
  have hp' : h.payloadLength.toNat ≤ Wire.kMaxC1TextGenerationOpaquePayloadBytes := by
    rw [hfields]
    exact hp
  by_cases hwhole : h.metadataLength.toNat + h.payloadLength.toNat
      ≤ (b.drop Wire.kHeaderSize).length
  · right
    have hmetadata : ((b.drop Wire.kHeaderSize).take h.metadataLength.toNat).length
        = h.metadataLength.toNat := by
      rw [List.length_take]
      omega
    have hpayload : (((b.drop Wire.kHeaderSize).drop h.metadataLength.toNat).take
        h.payloadLength.toNat).length = h.payloadLength.toNat := by
      rw [List.length_take, List.length_drop]
      omega
    refine ⟨h.type, h.correlation, (b.drop Wire.kHeaderSize).take h.metadataLength.toNat,
      ((b.drop Wire.kHeaderSize).drop h.metadataLength.toNat).take h.payloadLength.toNat,
      ((b.drop Wire.kHeaderSize).drop h.metadataLength.toNat).drop h.payloadLength.toNat,
      ?_, ?_, ?_⟩
    · rw [hmetadata, hpayload, hencode]
      simp only [List.append_assoc, List.take_append_drop]
    · rw [hmetadata]
      exact hm'
    · rw [hpayload]
      exact hp'
  · left
    have hjava := Protocol.parseHeader_encodeHeader h.type h.correlation hm' hp'
    rw [hencode] at hjava
    have hclampm : (Int32.ofNat h.metadataLength.toNat).toNatClampNeg
        = h.metadataLength.toNat := by
      simp only [Wire.kMaxMetadata] at hm'
      rw [Int32.toNatClampNeg_ofNat_of_lt (by omega)]
    have hclampp : (Int64.ofNat h.payloadLength.toNat).toNatClampNeg
        = h.payloadLength.toNat := by
      simp only [Wire.kMaxC1TextGenerationOpaquePayloadBytes] at hp'
      rw [Int64.toNatClampNeg_ofNat_of_lt (by omega)]
    have hlong' : Protocol.HEADER_SIZE ≤ b.length := hlong
    constructor
    · rw [Wire.parseFrame, Wire.frameFrom, Consumer.run_take_bind_of_le hlong, hheader]
      simp only [Wire.readSection_take]
      apply Consumer.run_take_bind_take_of_lt
      omega
    · rw [Protocol.frameFrom, Consumer.run_take_bind_of_le hlong']
      have hsize : Protocol.HEADER_SIZE = Wire.kHeaderSize := rfl
      rw [hsize, hjava, Consumer.run_bind, Consumer.run_lift_ok]
      simp only [hclampm, hclampp]
      apply Consumer.run_take_bind_take_of_lt
      omega

/-- A byte string that does not start with a frame: the decoders wait, or both refuse it. -/
theorem waiting_or_raised_or_startsWith (malformed : Bytes → JavaString) (b : Bytes) :
  (Wire.parseFrame.run b = .waiting
      ∧ (Protocol.frameFrom malformed Consumer.take).run b = .waiting)
    ∨ (∃ e e', Wire.parseFrame.run b = .raised e
      ∧ (Protocol.frameFrom malformed Consumer.take).run b = .raised e')
    ∨ ∃ type correlationId metadata payload rest,
        Wire.StartsWith b type correlationId metadata payload rest
  := by
  by_cases hlong : Wire.kHeaderSize ≤ b.length
  · have hlong' : Protocol.HEADER_SIZE ≤ b.length := hlong
    have hlength : (b.take Protocol.HEADER_SIZE).length = Protocol.HEADER_SIZE := by
      rw [List.length_take]
      omega
    cases hheader : Wire.parseHeader (b.take Wire.kHeaderSize) with
    | error e =>
        cases hheader' : Protocol.parseHeader (b.take Protocol.HEADER_SIZE) with
        | error e' =>
            right
            left
            use e, e'
            rw [Wire.parseFrame, Wire.frameFrom, Consumer.run_take_bind_of_le hlong, hheader,
              Protocol.frameFrom, Consumer.run_take_bind_of_le hlong', hheader']
            exact ⟨rfl, rfl⟩
        | ok h' =>
            obtain ⟨h, hok⟩ := Protocol.exists_parseHeader_eq_ok hlength hheader'
            have hsize : Protocol.HEADER_SIZE = Wire.kHeaderSize := rfl
            rw [hsize, hheader] at hok
            cases hok
    | ok h =>
        rcases waiting_or_startsWith malformed hlong hheader with hwaiting | hstarts
        · exact Or.inl hwaiting
        · exact Or.inr (Or.inr hstarts)
  · left
    have hshort : b.length < Wire.kHeaderSize := by omega
    have hshort' : b.length < Protocol.HEADER_SIZE := hshort
    rw [Wire.parseFrame, Wire.frameFrom, Protocol.frameFrom, Consumer.run_take_bind_of_lt hshort,
      Consumer.run_take_bind_of_lt hshort']
    exact ⟨rfl, rfl⟩

/-! ### Repeated keys -/

/-- The map of the last lines and the map of the first lines are the same exactly when the first
and the last line of every key agree. -/
theorem sameMetadata_ofAssigned_iff (l : List (JavaString × JavaString)) :
  SameMetadata (SortedMap.ofAssigned l) (SortedMap.ofEntries (l.map utf8Entry))
    ↔ SortedMap.FirstIsLast (l.map utf8Entry)
  := by
  have hentry : l.map utf8Entry = l.map (Prod.map JavaString.getBytes JavaString.getBytes) := rfl
  have hlast : ∀ key value,
      (∃ k v, (SortedMap.ofAssigned l).find? k = some v ∧ k.getBytes = key ∧ v.getBytes = value)
        ↔ (SortedMap.ofAssigned (l.map utf8Entry)).find? key = some value := by
    intro key value
    rw [SortedMap.find?_ofAssigned, hentry, ← List.map_reverse,
      SortedMap.lookup_map_iff JavaString.getBytes_injective]
    simp only [SortedMap.find?_ofAssigned]
  rw [← SortedMap.ofEntries_eq_ofAssigned_iff]
  simp only [SameMetadata, hlast]
  constructor
  · intro h
    apply SortedMap.ext_find?
    intro key
    apply Option.ext
    apply h
  · intro h key value
    rw [h]

/-- The entries of a text, as UTF-8. -/
theorem parse_utf8 (text : List Char) :
  KeyValue.parse Wire.equalsSign Wire.lineFeed (Unicode.utf8 text)
    = (KeyValue.parse '=' '\n' text).map
        (fun l => (l.map Protocol.javaEntry).map utf8Entry)
  := by
  rw [Unicode.utf8, KeyValue.parse_flatMap marks_equalsSign marks_lineFeed
    (fun _ => String.utf8EncodeChar_ne_nil)]
  simp only [List.map_map]
  rfl

/-- The frame that both decoders read at the start of a byte string is the same exactly when the
first and the last line of every key agree. -/
theorem sameOutcome_startsWith_iff
    {σ τ : Type} {R : σ → τ → Prop} {type : UInt16} {correlationId : UInt64} {payload : Bytes}
    (hp : payload.length ≤ Protocol.MAX_C1_TEXT_GENERATION_OPAQUE_PAYLOAD_BYTES)
    (l : List (JavaString × JavaString)) {s : σ} {t : τ} (hrest : R s t) :
  SameOutcome R
      (.done ⟨type, correlationId, SortedMap.ofEntries (l.map utf8Entry), payload⟩ s)
      (.done ⟨Int32.ofNat type.toNat, correlationId.toInt64, SortedMap.ofAssigned l, payload,
        hp⟩ t)
    ↔ SortedMap.FirstIsLast (l.map utf8Entry)
  := by
  rw [← sameMetadata_ofAssigned_iff]
  have hlt := type.toNat_lt
  have htype : (Int32.ofNat type.toNat).toInt = type.toNat := by
    rw [Int32.toInt_ofNat_of_lt (by omega)]
  constructor
  · rintro (⟨hframe, -, -⟩ | _ | _)
    exact hframe.metadata
  · intro hmetadata
    apply SameOutcome.done
    · refine ⟨?_, rfl, hmetadata, rfl⟩
      rw [htype]
      simp only
      omega
    · exact htype
    · exact hrest

/-- Decoders whose outcomes on the byte string are the same without a frame. -/
theorem sameOutcome_of_not_done
    {malformed : Bytes → JavaString} {b : Bytes} {src src' : Source} (hsrc : src.Delivers b)
    (hsrc' : src'.PolledDelivers b)
    (h : (Wire.parseFrame.run b = .waiting
          ∧ (Protocol.frameFrom malformed Consumer.take).run b = .waiting)
        ∨ ∃ e e', Wire.parseFrame.run b = .raised e
          ∧ (Protocol.frameFrom malformed Consumer.take).run b = .raised e') :
  SameOutcome SameBytes (Wire.readFrame.run src) ((Protocol.read malformed).run src')
    ∧ Wire.RepeatsAgree b
  := by
  have hkernel := Wire.readFrame_follows src b hsrc
  have hjava := Protocol.read_follows malformed src' b hsrc'
  have hrepeats : (∀ frame rest, Wire.parseFrame.run b ≠ .done frame rest)
      → Wire.RepeatsAgree b := by
    intro hdone type correlationId metadata payload rest hstarts l hparse
    have hrun := Wire.parseFrame_startsWith hstarts
    rw [hparse] at hrun
    exact absurd hrun (hdone _ _)
  rcases h with ⟨hwaiting, hwaiting'⟩ | ⟨e, e', hraised, hraised'⟩
  · rw [hwaiting] at hkernel
    rw [hwaiting'] at hjava
    rw [hkernel.of_waiting, hjava.of_waiting]
    use SameOutcome.waiting
    apply hrepeats
    intro frame rest
    rw [hwaiting]
    simp
  · rw [hraised] at hkernel
    rw [hraised'] at hjava
    rw [hkernel.of_raised, hjava.of_raised]
    use SameOutcome.raised e e'
    apply hrepeats
    intro frame rest
    rw [hraised]
    simp

/-- Decoders of a byte string that starts with a frame. -/
theorem sameOutcome_iff_firstIsLast
    (malformed : Bytes → JavaString) {b payload rest : Bytes} {text : List Char} {type : UInt16}
    {correlationId : UInt64} {src src' : Source} (hsrc : src.Delivers b)
    (hsrc' : src'.PolledDelivers b)
    (hstarts : Wire.StartsWith b type correlationId (Unicode.utf8 text) payload rest)
    {l : List (Bytes × Bytes)}
    (hl : KeyValue.parse Wire.equalsSign Wire.lineFeed (Unicode.utf8 text) = some l) :
  SameOutcome SameBytes (Wire.readFrame.run src) ((Protocol.read malformed).run src')
    ↔ SortedMap.FirstIsLast l
  := by
  have hkernel := Wire.readFrame_follows src b hsrc
  have hjava := Protocol.read_follows malformed src' b hsrc'
  rw [Wire.parseFrame_startsWith hstarts, hl] at hkernel
  rw [Protocol.frameFrom_startsWith malformed hstarts hstarts.payload_le] at hjava
  rw [parse_utf8, Option.map_eq_some_iff] at hl
  obtain ⟨entries, hentries, rfl⟩ := hl
  rw [hentries] at hjava
  obtain ⟨s, hrun, hs⟩ := hkernel.of_done
  obtain ⟨t, hrun', ht⟩ := hjava.of_done
  rw [hrun, hrun']
  apply sameOutcome_startsWith_iff
  use rest

/-- On every byte string whose metadata text is UTF-8, the two decoders wait for more bytes, both
refuse it or both read the same frame and leave the same bytes, exactly when the first and the
last line of every key of the metadata text agree. -/
theorem decoders_agree_iff
    (malformed : Bytes → JavaString) (b : Bytes) (src src' : Source) (hsrc : src.Delivers b)
    (hsrc' : src'.PolledDelivers b)
    (hutf8 : ∀ type correlationId metadata payload rest,
      Wire.StartsWith b type correlationId metadata payload rest
        → ∃ text, metadata = Unicode.utf8 text) :
  SameOutcome SameBytes (Wire.readFrame.run src) ((Protocol.read malformed).run src')
    ↔ Wire.RepeatsAgree b
  := by
  rcases waiting_or_raised_or_startsWith malformed b with hwaiting | hraised | hstarts
  · obtain ⟨hsame, hrepeats⟩ := sameOutcome_of_not_done hsrc hsrc' (Or.inl hwaiting)
    exact iff_of_true hsame hrepeats
  · obtain ⟨hsame, hrepeats⟩ := sameOutcome_of_not_done hsrc hsrc' (Or.inr hraised)
    exact iff_of_true hsame hrepeats
  · constructor
    · intro hsame type correlationId metadata payload rest hstarts l hl
      obtain ⟨text, rfl⟩ := hutf8 _ _ _ _ _ hstarts
      exact (sameOutcome_iff_firstIsLast malformed hsrc hsrc' hstarts hl).mp hsame
    · intro hrepeats
      obtain ⟨type, correlationId, metadata, payload, rest, hstarts⟩ := hstarts
      obtain ⟨text, rfl⟩ := hutf8 _ _ _ _ _ hstarts
      cases hl : KeyValue.parse Wire.equalsSign Wire.lineFeed (Unicode.utf8 text) with
      | some l =>
          apply (sameOutcome_iff_firstIsLast malformed hsrc hsrc' hstarts hl).mpr
          exact hrepeats _ _ _ _ _ hstarts l hl
      | none =>
          -- A line without a key: both decoders refuse the metadata text.
          have hkernel := Wire.parseFrame_startsWith hstarts
          have hjava := Protocol.frameFrom_startsWith malformed hstarts hstarts.payload_le
          rw [hl] at hkernel
          rw [parse_utf8, Option.map_eq_none_iff] at hl
          rw [hl] at hjava
          exact (sameOutcome_of_not_done hsrc hsrc' (Or.inr ⟨_, _, hkernel, hjava⟩)).1

/-- A frame with a blank line, a repeated key and no line end after the last line, with one
more byte behind it. -/
def repeatedBytes : Bytes :=
  Wire.encodeHeader 10 0xffffffffffffffff 8 1 ++ Bytes.ofString "k=1\n\nk=1" ++ [7] ++ [0]

theorem repeatedBytes_startsWith :
  Wire.StartsWith repeatedBytes 10 0xffffffffffffffff (Unicode.utf8 "k=1\n\nk=1".toList) [7] [0]
  := ⟨by decide +kernel, by decide +kernel, by decide +kernel⟩

theorem decoders_agree_iff_repeated :
  SameOutcome SameBytes (Wire.readFrame.run (Source.ofBytes repeatedBytes))
    ((Protocol.read fun _ => ⟨[]⟩).run (Source.ofBytes repeatedBytes))
  := by
  apply (decoders_agree_iff (fun _ => ⟨[]⟩) repeatedBytes (Source.ofBytes repeatedBytes)
    (Source.ofBytes repeatedBytes) ⟨Source.open_ofBytes _, by simp⟩ ⟨by decide +kernel, by simp⟩
    ?_).mpr
  · intro type correlationId metadata payload rest hstarts l hl
    rw [← repeatedBytes_startsWith.unique hstarts] at hl
    have hentries : KeyValue.parse Wire.equalsSign Wire.lineFeed
        (Unicode.utf8 "k=1\n\nk=1".toList) = some [([107], [49]), ([107], [49])] := by
      decide +kernel
    rw [hentries, Option.some.injEq] at hl
    rw [← hl]
    intro key
    rfl
  · intro type correlationId metadata payload rest hstarts
    use "k=1\n\nk=1".toList
    rw [repeatedBytes_startsWith.unique hstarts]

/-- A frame that gives one key two values. -/
def rebindingBytes : Bytes := Wire.encodeHeader 10 1 8 0 ++ Bytes.ofString "k=1\nk=2\n"

theorem rebindingBytes_startsWith :
  Wire.StartsWith rebindingBytes 10 1 (Unicode.utf8 "k=1\nk=2\n".toList) [] []
  := ⟨by decide +kernel, by decide +kernel, by decide +kernel⟩

/-- The kernel reads the key `k` of this frame as `1` and the client reads it as `2`. -/
theorem decoders_differ :
  ¬∀ (malformed : Bytes → JavaString) (b : Bytes) (src src' : Source), src.Delivers b →
    src'.PolledDelivers b →
    (∀ type correlationId metadata payload rest,
      Wire.StartsWith b type correlationId metadata payload rest
        → ∃ text, metadata = Unicode.utf8 text) →
    SameOutcome SameBytes (Wire.readFrame.run src) ((Protocol.read malformed).run src')
  := by
  intro h
  have hsrc : (Source.ofBytes rebindingBytes).Delivers rebindingBytes :=
    ⟨Source.open_ofBytes _, by simp⟩
  have hsrc' : (Source.ofBytes rebindingBytes).PolledDelivers rebindingBytes :=
    ⟨by decide +kernel, by simp⟩
  have hentries : KeyValue.parse Wire.equalsSign Wire.lineFeed
      (Unicode.utf8 "k=1\nk=2\n".toList) = some [([107], [49]), ([107], [50])] := by
    decide +kernel
  have hsame := h (fun _ => ⟨[]⟩) rebindingBytes _ _ hsrc hsrc' (by
    intro type correlationId metadata payload rest hstarts
    use "k=1\nk=2\n".toList
    rw [rebindingBytes_startsWith.unique hstarts])
  have hagree := (sameOutcome_iff_firstIsLast (fun _ => ⟨[]⟩) hsrc hsrc'
    rebindingBytes_startsWith hentries).mp hsame
  have hvalues := hagree [107]
  revert hvalues
  decide +kernel

end Client
