import MadreKernel.Client.Engines
import MadreKernel.Kernel.Correlation

/-!
# A call over a connection to the Kernel

`Converses` puts the two ends together: what a call writes is what `serve_connection` reads, and the
frames that it sends are what the call reads.  The `HELLO` of the client is accepted.  A reply that
the encoder accepts, in the metadata that the client decodes, is the response of the exchange; the
error about a reply that the encoder refuses makes the call throw.
-/

namespace Client

open Kernel.Serving LocalKernelClient

/-- The octets of frames that are sent one after the other. -/
def sentBytes (frames : List Frame) : Bytes :=
  frames.flatMap fun frame => (Wire.encodeFrame frame).toOption.getD []

/-- The client writes a `HELLO` and a command, and the Kernel that reads them sends some octets. -/
def Converses (cfg : Kernel.Config) (calls : Calls) (hello command : Protocol.Frame)
    (bytes : Bytes) : Prop :=
  ∃ helloBytes commandBytes first second, Protocol.write hello = .ok helloBytes
    ∧ Protocol.write command = .ok commandBytes
    ∧ Wire.parseFrame.run (helloBytes ++ commandBytes) = .done first commandBytes
    ∧ Wire.parseFrame.run commandBytes = .done second []
    ∧ bytes = sentBytes (serveConnection cfg calls (.ok first) (.ok second))

/-! ### Metadata -/

/-- A text that is well-formed UTF-8. -/
def WellFormed (text : Bytes) : Prop := ∃ s : JavaString, s.getBytes = text

/-- Fields that are well-formed are metadata of the client, too. -/
theorem exists_sameMetadata
    {fields : List (Bytes × Bytes)} (hnodup : (fields.map Prod.fst).Nodup)
    (h : ∀ e ∈ fields, WellFormed e.1 ∧ WellFormed e.2) :
  ∃ metadata, SameMetadata metadata (SortedMap.ofAssigned fields)
  := by
  have hrange : fields ∈ Set.range (List.map utf8Entry) := by
    rw [Set.range_list_map]
    intro e he
    obtain ⟨⟨k, hk⟩, v, hv⟩ := h e he
    exact ⟨(k, v), Prod.ext hk hv⟩
  obtain ⟨l, rfl⟩ := hrange
  have hkeys : (l.map Prod.fst).Nodup := by
    rw [List.map_map] at hnodup
    have hcomp : (Prod.fst ∘ utf8Entry) = JavaString.getBytes ∘ Prod.fst := rfl
    rw [hcomp, ← List.map_map] at hnodup
    exact List.Nodup.of_map _ hnodup
  use SortedMap.ofAssigned l
  intro key value
  rw [SortedMap.find?_ofAssigned_eq_some_iff hnodup, List.mem_map]
  constructor
  · rintro ⟨⟨k, v⟩, hmem, heq⟩
    cases heq
    exact ⟨k, v, (SortedMap.find?_ofAssigned_eq_some_iff hkeys _ _).mpr hmem, rfl, rfl⟩
  · rintro ⟨k, v, hfind, rfl, rfl⟩
    exact ⟨(k, v), (SortedMap.find?_ofAssigned_eq_some_iff hkeys _ _).mp hfind, rfl⟩

/-- A field of a frame of the client, as the Kernel finds it. -/
theorem metadataValue_of_sameFrame
    {type : Int32} {correlation : Int64} {metadata : List (String × JavaString)} {kernel : Frame}
    (h : SameFrame (frame type correlation metadata) kernel) (hnodup : (metadata.map Prod.fst).Nodup)
    {key : String} {value : JavaString} (hmem : (key, value) ∈ metadata) :
  Kernel.metadataValue kernel key = .ok value.getBytes
  := by
  have hkeys : ((metadata.map fun e => (JavaString.ofString e.1, e.2)).map Prod.fst).Nodup := by
    have hinjective : Function.Injective JavaString.ofString :=
      fun s t h => (JavaString.ofString_inj s t).mp h
    have hmap := hnodup.map hinjective
    rw [List.map_map] at hmap ⊢
    exact hmap
  have hfind : (frame type correlation metadata).metadata.find? (.ofString key) = some value :=
    (SortedMap.find?_ofAssigned_eq_some_iff hkeys _ _).mpr
      (List.mem_map_of_mem (f := fun e => (JavaString.ofString e.1, e.2)) hmem)
  rw [Kernel.metadataValue, ← JavaString.getBytes_ofString, h.metadata.find?_getBytes, hfind]
  rfl

theorem type_of_sameFrame {java : Protocol.Frame} {kernel : Frame} (h : SameFrame java kernel)
    {n : UInt16} (hn : java.type.toInt = n.toNat) :
  kernel.type = n
  := by
  have htype := h.type
  have hlt := n.toNat_lt
  rw [hn] at htype
  apply UInt16.toNat_inj.mp
  omega

theorem toUInt64_injective :
  Function.Injective Int64.toUInt64
  := Function.LeftInverse.injective Int64.toInt64_toUInt64

/-! ### The `HELLO` -/

/-- What the Kernel answers to the `HELLO` of the client. -/
def helloReply (helloRequest : Frame) : Frame :=
  Kernel.withField ⟨helloResponse, helloRequest.correlationId, ∅, []⟩ "kernel_protocol_version"
    (Bytes.ofString "2")

theorem accepted_of_sameFrame
    {correlation : Int64} {first : Frame} (h : SameFrame (helloFrame correlation) first) :
  Accepted first (helloReply first)
  := by
  have hmin := metadataValue_of_sameFrame h (by decide) List.mem_cons_self
  have hmax := metadataValue_of_sameFrame h (by decide)
    (List.mem_cons_of_mem _ (List.mem_singleton_self _))
  have hstoi : Kernel.stoi (JavaString.ofString (toString (2 : Int32).toInt)).getBytes
      = .ok 2 := by
    decide +kernel
  constructor
  · exact type_of_sameFrame h rfl
  · rw [Kernel.Serving.hello, hmin, hmax]
    simp only [bind, Except.bind, MIN_KERNEL_PROTOCOL_VERSION, MAX_KERNEL_PROTOCOL_VERSION, hstoi]
    rfl
  · rfl

theorem exists_write_helloFrame (correlation : Int64) :
  ∃ bytes, Protocol.write (helloFrame correlation) = .ok bytes
  := by
  have hentries : (∀ e ∈ (helloFrame 0).metadata.entries,
        Protocol.invalidEntry e.1 e.2 = false)
      ∧ (KeyValue.render Wire.equalsSign Wire.lineFeed
        ((helloFrame 0).metadata.entries.map utf8Entry)).length ≤ Protocol.MAX_METADATA := by
    decide +kernel
  exact exists_write hentries.1 hentries.2

/-- The client accepts the answer to its `HELLO`. -/
theorem checkHello_of_sameFrame
    {correlation : Int64} {first : Frame} (h : SameFrame (helloFrame correlation) first)
    {hello : Protocol.Frame} (hsame : SameFrame hello (helloReply first))
    (htype : hello.type.toInt = (helloReply first).type.toNat) :
  checkHello correlation hello = .ok ()
  := by
  have hresponse : hello.type = HELLO_RESPONSE := Int32.toInt_inj.mp htype
  have hcorrelation : hello.correlationId = correlation :=
    toUInt64_injective (hsame.correlationId.symm.trans h.correlationId)
  have hversion : requiredInt hello (.ofString "kernel_protocol_version") = .ok 2 := by
    apply requiredInt_of_sameMetadata hsame.metadata
    rw [JavaString.getBytes_ofString]
    simp only [helloReply, Kernel.withField, SortedMap.find?_assign, if_true]
    rfl
  rw [checkHello, (checkError_eq_ok_iff hello).mpr (by rw [hresponse]; decide)]
  simp only [bind, Except.bind, expectType_of_eq hresponse, hversion]
  rw [if_neg]
  · rfl
  · simp only [hcorrelation, ne_eq, not_true_eq_false, false_or]
    decide

/-- After the `HELLO`, an exchange reads the response to its command. -/
theorem run_exchange
    (malformed : Bytes → JavaString) {helloCorrelation : Int64} {command : Protocol.Frame}
    {commandBytes : Bytes} (hwrite : Protocol.write command = .ok commandBytes) {first : Frame}
    (hfirst : SameFrame (helloFrame helloCorrelation) first) {helloBytes : Bytes}
    (hencode : Wire.encodeFrame (helloReply first) = .ok helloBytes) (rest : Bytes) :
  (exchange (Protocol.frameFrom malformed Consumer.take) helloCorrelation command).run
      (helloBytes ++ rest)
    = ((Protocol.frameFrom malformed Consumer.take).mapError CallException.ofException
        >>= fun response => Consumer.lift (checkResponse command response)
        >>= fun _ => pure response).run rest
  := by
  obtain ⟨written, hhello⟩ := exists_write_helloFrame helloCorrelation
  have hfields : ∀ e ∈ [(Bytes.ofString "kernel_protocol_version", Bytes.ofString "2")],
      WellFormed e.1 ∧ WellFormed e.2 := by
    intro e he
    rw [List.mem_singleton] at he
    rw [he]
    exact ⟨⟨_, JavaString.getBytes_ofString _⟩, ⟨_, JavaString.getBytes_ofString _⟩⟩
  obtain ⟨metadata, hmetadata⟩ := exists_sameMetadata (by simp) hfields
  obtain ⟨hello, hrun, hsame, htype, -⟩ :=
    frameFrom_encodeFrame malformed hencode hmetadata rest
  rw [exchange, hhello, hwrite]
  simp only [Except.mapError, Consumer.run_bind, Consumer.run_lift_ok, Consumer.run_mapError, hrun,
    checkHello_of_sameFrame hfirst hsame htype]

/-! ### The response -/

/-- Whatever the client makes of the metadata of a frame, it reads its type. -/
theorem type_of_run
    {frame : Frame} {bytes : Bytes} (hencode : Wire.encodeFrame frame = .ok bytes)
    {malformed : Bytes → JavaString} {rest rest' : Bytes} {response : Protocol.Frame}
    (hrun : (Protocol.frameFrom malformed Consumer.take).run (bytes ++ rest)
      = .done response rest') :
  response.type.toInt = frame.type.toNat
  := by
  obtain ⟨metadata, -, hm, hp, rfl⟩ := (Wire.encodeFrame_eq_ok_iff frame bytes).mp hencode
  rw [Protocol.frameFrom_sections malformed _ _ rest hm hp] at hrun
  split at hrun
  · cases hrun
    have hlt := frame.type.toNat_lt
    rw [Int32.toInt_ofNat_of_lt (by omega)]
  · cases hrun

theorem caughtResponse_type (helloRequest : Frame) (e : WireError) :
  (caughtResponse helloRequest e).type = Kernel.MessageType.error.code
  := by
  cases e with
  | framing text => rfl
  | runtime text => rfl

theorem sentBytes_cons {frame : Frame} {bytes : Bytes} (h : Wire.encodeFrame frame = .ok bytes)
    (frames : List Frame) :
  sentBytes (frame :: frames) = bytes ++ sentBytes frames
  := by
  rw [sentBytes, List.flatMap_cons, h]
  rfl

theorem exists_converses
    (cfg : Kernel.Config) (calls : Calls) (helloCorrelation : Int64) {command : Protocol.Frame}
    {commandBytes : Bytes} (hwrite : Protocol.write command = .ok commandBytes) :
  ∃ bytes, Converses cfg calls (helloFrame helloCorrelation) command bytes
  := by
  obtain ⟨helloBytes, hhello⟩ := exists_write_helloFrame helloCorrelation
  obtain ⟨first, hfirst, -⟩ := parseFrame_write hhello commandBytes
  obtain ⟨second, hsecond, -⟩ := parseFrame_write hwrite []
  rw [List.append_nil] at hsecond
  exact ⟨_, helloBytes, commandBytes, first, second, hhello, hwrite, hfirst, hsecond, rfl⟩

/-- The Kernel answers the `HELLO`, and then sends what comes of the command. -/
theorem Converses.frames
    {cfg : Kernel.Config} {calls : Calls} {helloCorrelation : Int64} {command : Protocol.Frame}
    {bytes : Bytes} (h : Converses cfg calls (helloFrame helloCorrelation) command bytes) :
  ∃ commandBytes first second, Protocol.write command = .ok commandBytes
    ∧ SameFrame (helloFrame helloCorrelation) first ∧ SameFrame command second
    ∧ bytes = sentBytes (helloReply first
      :: sends first ((handle cfg calls second).mapError .runtime) fun _ => [])
  := by
  obtain ⟨helloBytes, commandBytes, first, second, hhello, hwrite, hfirst, hsecond, rfl⟩ := h
  obtain ⟨first', hfirst', hsame⟩ := parseFrame_write hhello commandBytes
  obtain ⟨second', hsecond', hsame'⟩ := parseFrame_write hwrite []
  rw [List.append_nil] at hsecond'
  cases hfirst.symm.trans hfirst'
  cases hsecond.symm.trans hsecond'
  refine ⟨commandBytes, first, second, hwrite, hsame, hsame', ?_⟩
  rw [serveConnection_accepted (accepted_of_sameFrame hsame)]

/-- The response of an exchange is the reply of the Kernel, when the encoder accepts it and the
client can decode its metadata. -/
theorem Converses.run_exchange
    {cfg : Kernel.Config} {calls : Calls} {helloCorrelation : Int64} {command : Protocol.Frame}
    {bytes : Bytes} (h : Converses cfg calls (helloFrame helloCorrelation) command bytes)
    (malformed : Bytes → JavaString) {metadata : SortedMap JavaString JavaString}
    {reply : Frame → Frame} (hhandle : ∀ second, SameFrame command second →
      handle cfg calls second = .ok (reply second)
        ∧ (reply second).correlationId = second.correlationId
        ∧ (reply second).type ≠ Kernel.MessageType.error.code
        ∧ Wire.encodable (reply second) = true ∧ SameMetadata metadata (reply second).metadata) :
  ∃ second response, SameFrame command second ∧ SameFrame response (reply second)
    ∧ response.type.toInt = (reply second).type.toNat
    ∧ (exchange (Protocol.frameFrom malformed Consumer.take) helloCorrelation command).run bytes
      = .done response []
  := by
  obtain ⟨commandBytes, first, second, hwrite, hfirst, hsecond, rfl⟩ := h.frames
  obtain ⟨hreply, hcorrelation, htype, hencodable, hmetadata⟩ := hhandle second hsecond
  obtain ⟨helloBytes, hhello⟩ :=
    (Wire.encodable_iff _).mp (accepted_of_sameFrame hfirst).encodable
  obtain ⟨replyBytes, hencode⟩ := (Wire.encodable_iff _).mp hencodable
  obtain ⟨response, hrun, hsame, hresponse, -⟩ :=
    frameFrom_encodeFrame malformed hencode hmetadata (sentBytes [])
  refine ⟨second, response, hsecond, hsame, hresponse, ?_⟩
  have hnoError : response.type ≠ ERROR := by
    intro herror
    apply htype
    rw [herror] at hresponse
    apply UInt16.toNat_inj.mp
    have hcode : (ERROR.toInt : Int) = (Kernel.MessageType.error.code).toNat := rfl
    omega
  have hcheck : checkResponse command response = .ok () := by
    have hid : response.correlationId = command.correlationId :=
      toUInt64_injective
        (hsame.correlationId.symm.trans (hcorrelation.trans hsecond.correlationId))
    rw [checkResponse, (checkError_eq_ok_iff response).mpr hnoError]
    simp only [bind, Except.bind, hid, ne_eq, not_true_eq_false, if_false]
    rfl
  rw [hreply, sentBytes_cons hhello, Client.run_exchange malformed hwrite hfirst hhello]
  simp only [Except.mapError, sends, hencode]
  rw [sentBytes_cons hencode]
  simp only [Consumer.run_bind, Consumer.run_mapError, hrun, hcheck, Consumer.run_lift_ok]
  rfl

/-- When an exchange has a response, the encoder accepted the reply of the Kernel. -/
theorem Converses.encodable_of_run
    {cfg : Kernel.Config} {calls : Calls} {helloCorrelation : Int64} {command : Protocol.Frame}
    {bytes : Bytes} (h : Converses cfg calls (helloFrame helloCorrelation) command bytes)
    {malformed : Bytes → JavaString} {response : Protocol.Frame} {rest : Bytes}
    (hrun : (exchange (Protocol.frameFrom malformed Consumer.take) helloCorrelation command).run
      bytes = .done response rest) :
  ∃ second, SameFrame command second
    ∧ ∀ reply, handle cfg calls second = .ok reply → Wire.encodable reply = true
  := by
  obtain ⟨commandBytes, first, second, hwrite, hfirst, hsecond, rfl⟩ := h.frames
  refine ⟨second, hsecond, ?_⟩
  intro reply hreply
  obtain ⟨helloBytes, hhello⟩ :=
    (Wire.encodable_iff _).mp (accepted_of_sameFrame hfirst).encodable
  rw [hreply, sentBytes_cons hhello, Client.run_exchange malformed hwrite hfirst hhello] at hrun
  rw [Wire.encodable_iff]
  cases hencode : Wire.encodeFrame reply with
  | ok replyBytes => exact ⟨replyBytes, rfl⟩
  | error e =>
      -- the error that is sent instead makes the client throw
      obtain ⟨caughtBytes, hcaught⟩ :=
        (Wire.encodable_iff _).mp (encodable_caughtResponse hencode first)
      simp only [Except.mapError, sends, hencode, catchSends, hcaught] at hrun
      rw [sentBytes_cons hcaught, Consumer.run_bind, Consumer.run_mapError] at hrun
      cases hread : (Protocol.frameFrom malformed Consumer.take).run
          (caughtBytes ++ sentBytes []) with
      | waiting =>
          rw [hread] at hrun
          cases hrun
      | raised e' =>
          rw [hread] at hrun
          cases hrun
      | done caught rest' =>
          have herror : caught.type = ERROR := by
            have htype := type_of_run hcaught hread
            rw [caughtResponse_type] at htype
            exact Int32.toInt_inj.mp htype
          rw [hread] at hrun
          simp only [Consumer.run_bind] at hrun
          cases hcheck : checkResponse command caught with
          | error e' =>
              rw [hcheck] at hrun
              cases hrun
          | ok u =>
              rw [checkResponse] at hcheck
              obtain ⟨_, hpassed, -⟩ := Kernel.bind_eq_ok hcheck
              exact absurd herror ((checkError_eq_ok_iff caught).mp hpassed)

end Client
