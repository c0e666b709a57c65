import MadreKernel.Kernel.Refinement
import MadreKernel.Kernel.Serving

/-!
# Correlation of replies

The reply to a request has the correlation id of the request when its handler and the encoding of
the reply return.  When one of them throws, the reply is an error with the correlation id of the
`HELLO`, if the text that was thrown can be sent at all.

The replies of the composed system are those of served requests: what the threads of the system do
between the calls of a handler is in the answers to its calls.
-/

namespace Kernel

namespace Serving

open Wire

section

variable {cfg : Config} {calls : Calls} {request : Frame}

/-- A `HELLO` that is accepted, with its response. -/
structure Accepted (helloRequest helloReply : Frame) : Prop where
  type : helloRequest.type = helloCode
  reply : hello helloRequest = .ok helloReply
  accepted : helloReply.type = helloResponse

/-- The handler and the encoding of its reply return; or the `HELLO` has the correlation id of the
request, and what a call throws can be sent. -/
def Answerable (cfg : Config) (calls : Calls) (helloRequest request : Frame) : Prop :=
  (Valid request ∧ (∀ text, ¬Raises cfg calls request text) ∧ Fits cfg calls request)
    ∨ (helloRequest.correlationId = request.correlationId
      ∧ ∀ text, Raises cfg calls request text → Sendable text)

theorem Accepted.encodable {helloRequest helloReply : Frame}
    (h : Accepted helloRequest helloReply) :
  encodable helloReply = true
  := by
  obtain ⟨-, hreply, haccepted⟩ := h
  rw [hello] at hreply
  obtain ⟨minText, -, hreply⟩ := bind_eq_ok hreply
  obtain ⟨clientMin, -, hreply⟩ := bind_eq_ok hreply
  obtain ⟨maxText, -, hreply⟩ := bind_eq_ok hreply
  obtain ⟨clientMax, -, hreply⟩ := bind_eq_ok hreply
  simp only at hreply
  split_ifs at hreply with hmismatch
  · cases hreply
    cases haccepted
  · cases hreply
    generalize min clientMax kMaxKernelProtocolVersion = n
    have hlength : (Bytes.ofString (toString n.toInt)).length ≤ 11 := by
      apply Decimal.length_ofString_toString_le (by decide)
      have hlt := n.toInt_lt
      have hge := n.le_toInt
      omega
    have hkey : plainKey (Bytes.ofString "kernel_protocol_version") = true
        ∧ (Bytes.ofString "kernel_protocol_version").length = 23 :=
      replyField_plain (by simp [replyFields])
    have hone := encodable_one helloResponse helloRequest.correlationId
      (Bytes.ofString "kernel_protocol_version") (Bytes.ofString (toString n.toInt)) []
    simp only [hkey.1, plainText_toString, and_self, textLength, List.map_cons, List.map_nil,
      List.sum_cons, List.sum_nil, hkey.2, kMaxMetadata, List.length_nil, Nat.zero_le, true_and,
      and_true] at hone
    apply hone.mpr
    omega

theorem serveConnection_accepted
    {helloRequest helloReply : Frame} (h : Accepted helloRequest helloReply) :
  serveConnection cfg calls (.ok helloRequest) (.ok request)
    = helloReply
      :: sends helloRequest ((handle cfg calls request).mapError .runtime) fun _ => []
  := by
  obtain ⟨bytes, hbytes⟩ := (encodable_iff helloReply).mp h.encodable
  have hne : ¬helloReply.type = MessageType.error.code := by
    rw [h.accepted]
    decide
  simp only [serveConnection, h.type, ne_eq, not_true_eq_false, if_false, h.reply, Except.mapError,
    sends, hbytes, if_neg hne]

theorem catchSends_of_encodable
    {helloRequest : Frame} {e : WireError}
    (h : encodable (caughtResponse helloRequest e) = true) :
  catchSends helloRequest e = [caughtResponse helloRequest e]
  := by
  obtain ⟨bytes, hbytes⟩ := (encodable_iff _).mp h
  rw [catchSends, hbytes]

theorem catchSends_of_not_encodable
    {helloRequest : Frame} {e : WireError}
    (h : ¬encodable (caughtResponse helloRequest e) = true) :
  catchSends helloRequest e = []
  := by
  rw [catchSends]
  split
  next bytes hbytes => exact absurd ((encodable_iff _).mpr ⟨bytes, hbytes⟩) h
  next => rfl

/-- One frame is sent, a reply to the request with its correlation id. -/
def Replies (request : Frame) (sent : List Frame) : Prop :=
  ∃ reply, sent = [reply] ∧ reply.correlationId = request.correlationId ∧ Matches request reply

theorem replies_caughtResponse_iff (helloRequest request : Frame) (e : WireError) :
  Replies request [caughtResponse helloRequest e]
    ↔ helloRequest.correlationId = request.correlationId
  := by
  have hfields : (caughtResponse helloRequest e).correlationId = helloRequest.correlationId
      ∧ (caughtResponse helloRequest e).type = MessageType.error.code := by
    cases e with
    | _ => exact ⟨rfl, rfl⟩
  constructor
  · rintro ⟨reply, hreply, hcorrelation, -⟩
    cases hreply
    exact hfields.1.symm.trans hcorrelation
  · intro h
    exact ⟨_, rfl, hfields.1.trans h, Or.inl hfields.2⟩

/-- What a connection sends for a request is one reply to it in exactly the cases of
`Answerable`. -/
theorem replies_iff
    (helloRequest : Frame) {result : Except Bytes Frame}
    (h : Outcome request (Valid request) (Raises cfg calls request) (Fits cfg calls request)
      result) :
  Replies request (sends helloRequest (result.mapError .runtime) fun _ => [])
    ↔ Answerable cfg calls helloRequest request
  := by
  rw [Answerable]
  cases h with
  | @replied reply hvalid hquiet hcorrelation hmatches hfits =>
      have hnone : ∀ text, Raises cfg calls request text → Sendable text := by
        intro text hraises
        exact absurd hraises (hquiet text)
      simp only [Except.mapError, sends]
      cases hencode : encodeFrame reply with
      | ok bytes =>
          have hfit := hfits.mp ((encodable_iff reply).mpr ⟨bytes, hencode⟩)
          constructor
          · intro _
            exact Or.inl ⟨hvalid, hquiet, hfit⟩
          · intro _
            exact ⟨reply, rfl, hcorrelation, hmatches⟩
      | error e =>
          have hnot : ¬Fits cfg calls request := by
            intro hfit
            obtain ⟨bytes, hbytes⟩ := (encodable_iff reply).mp (hfits.mpr hfit)
            rw [hencode] at hbytes
            cases hbytes
          simp only [catchSends_of_encodable (encodable_caughtResponse hencode helloRequest),
            replies_caughtResponse_iff]
          constructor
          · intro hsame
            exact Or.inr ⟨hsame, hnone⟩
          · rintro (⟨-, -, hfit⟩ | ⟨hsame, -⟩)
            · exact absurd hfit hnot
            · exact hsame
  | @refused text hinvalid hquiet hsendable =>
      have hencodable : encodable (caughtResponse helloRequest (.runtime text)) = true :=
        (encodable_throwResponse helloRequest text).mpr hsendable
      simp only [Except.mapError, sends, catchSends_of_encodable hencodable,
        replies_caughtResponse_iff]
      constructor
      · intro hsame
        refine Or.inr ⟨hsame, ?_⟩
        intro t hraises
        exact absurd hraises (hquiet t)
      · rintro (⟨hvalid, -⟩ | ⟨hsame, -⟩)
        · exact absurd hvalid hinvalid
        · exact hsame
  | @raised text hvalid hraises =>
      have hthis : Raises cfg calls request text := (hraises text).mpr rfl
      have hencodable : encodable (caughtResponse helloRequest (.runtime text)) = true
          ↔ Sendable text := encodable_throwResponse helloRequest text
      simp only [Except.mapError, sends]
      by_cases hsendable : Sendable text
      · simp only [catchSends_of_encodable (hencodable.mpr hsendable), replies_caughtResponse_iff]
        constructor
        · intro hsame
          refine Or.inr ⟨hsame, ?_⟩
          intro t ht
          rw [(hraises t).mp ht]
          exact hsendable
        · rintro (⟨-, hquiet, -⟩ | ⟨hsame, -⟩)
          · exact absurd hthis (hquiet text)
          · exact hsame
      · rw [catchSends_of_not_encodable (mt hencodable.mp hsendable)]
        constructor
        · rintro ⟨reply, hreply, -⟩
          cases hreply
        · rintro (⟨-, hquiet, -⟩ | ⟨-, hall⟩)
          · exact absurd hthis (hquiet text)
          · exact absurd (hall text hthis) hsendable

/-- On a connection whose `HELLO` is accepted, the request is answered by one frame with its
correlation id, a response of its type or an error, exactly when its handler and the encoding of the
reply return, or the `HELLO` had the same correlation id and the text that is thrown can be
sent. -/
theorem reply_correlated_iff
    (cfg : Config) (calls : Calls) {helloRequest helloReply : Frame} (request : Frame)
    (h : Accepted helloRequest helloReply) :
  (∃ reply, serveConnection cfg calls (.ok helloRequest) (.ok request) = [helloReply, reply]
      ∧ reply.correlationId = request.correlationId ∧ Matches request reply)
    ↔ Answerable cfg calls helloRequest request
  := by
  rw [serveConnection_accepted h,
    ← replies_iff helloRequest (handle_outcome cfg calls request)]
  constructor
  · rintro ⟨reply, hsent, hreply⟩
    exact ⟨reply, (List.cons.inj hsent).2, hreply⟩
  · rintro ⟨reply, hsent, hreply⟩
    exact ⟨reply, by rw [hsent], hreply⟩

end

namespace Sample

/-- A `HELLO` of a client of the one version, with a correlation id. -/
def hello (correlationId : UInt64) : Frame where
  type := helloCode
  correlationId := correlationId
  metadata := SortedMap.ofEntries
    [(Bytes.ofString "min_kernel_protocol_version", Bytes.ofString "2"),
      (Bytes.ofString "max_kernel_protocol_version", Bytes.ofString "2")]
  payload := []

def helloReply (correlationId : UInt64) : Frame where
  type := helloResponse
  correlationId := correlationId
  metadata := SortedMap.ofEntries
    [(Bytes.ofString "kernel_protocol_version", Bytes.ofString "2")]
  payload := []

/-- The calls about a store that has no Work. -/
def noWork : Calls where
  nowMs := 0
  draws := (0, 0)
  write _ _ := .ok ()
  submit _ := .ok ()
  find _ := .ok none
  acknowledge _ := .ok false
  cancel _ := .ok none
  fileExists _ := .ok false
  fileSize _ := .ok 0
  content _ := .ok []
  isWarm _ := false

theorem accepted_hello :
  Accepted (hello 1) (helloReply 1)
  := by
  constructor
  · rfl
  · decide +kernel
  · rfl

/-- A request without metadata. -/
def request (type : MessageType) (correlationId : UInt64) : Frame :=
  ⟨type.code, correlationId, ∅, []⟩

end Sample

/-- A `SUBMIT` without fields is answered with the correlation id of the `HELLO`. -/
theorem submit_answered_for_hello :
  Accepted (Sample.hello 1) (Sample.helloReply 1)
    ∧ serveConnection Kernel.Sample.config Sample.noWork (.ok (Sample.hello 1))
        (.ok (Sample.request .submit 2))
      = [Sample.helloReply 1,
        throwResponse (Sample.hello 1) (Bytes.ofString "missing metadata field: work_type")]
    ∧ ¬∃ reply, serveConnection Kernel.Sample.config Sample.noWork (.ok (Sample.hello 1))
        (.ok (Sample.request .submit 2)) = [Sample.helloReply 1, reply]
      ∧ reply.correlationId = (Sample.request .submit 2).correlationId
      ∧ Matches (Sample.request .submit 2) reply
  := by
  have hsent : serveConnection Kernel.Sample.config Sample.noWork (.ok (Sample.hello 1))
      (.ok (Sample.request .submit 2))
      = [Sample.helloReply 1,
        throwResponse (Sample.hello 1) (Bytes.ofString "missing metadata field: work_type")] := by
    decide +kernel
  refine ⟨Sample.accepted_hello, hsent, ?_⟩
  rintro ⟨reply, hreply, hcorrelation, -⟩
  rw [hsent] at hreply
  cases hreply
  revert hcorrelation
  decide

/-- A query of the engines. -/
theorem reply_correlated_listEngines :
  Accepted (Sample.hello 1) (Sample.helloReply 1)
    ∧ ∃ reply, serveConnection Kernel.Sample.config Sample.noWork (.ok (Sample.hello 1))
        (.ok (Sample.request .listEngines 2)) = [Sample.helloReply 1, reply]
      ∧ reply.correlationId = 2 ∧ Matches (Sample.request .listEngines 2) reply
  := by
  refine ⟨Sample.accepted_hello, (reply_correlated_iff _ _ _ Sample.accepted_hello).mpr ?_⟩
  left
  refine ⟨?_, ?_, ?_⟩
  · simp [valid_iff, Sample.request, MessageType.code]
  · simp [raises_iff, Sample.request, MessageType.code]
  · simp only [fits_iff, Sample.request, MessageType.code]
    refine ⟨by simp, ?_, by simp⟩
    intro _
    decide +kernel

/-! ### The replies of the system -/

section

open WorkStore

variable {cfg : Config} {s s' : System} {p p' : Process}

/-- What the calls of a handler answer over a data directory. -/
def callsOver (store : Store) (files : Files) (nowMs : Int64) (draws : UInt64 × UInt64)
    (faults : List (Option Bytes)) : Calls where
  nowMs := nowMs
  draws := draws
  write _ _ := .ok ()
  submit work := ((WorkStore.submit work).exec faults store).1
  find id := ((WorkStore.find id).exec faults store).1
  acknowledge id := ((WorkStore.acknowledge id).exec faults store).1
  cancel id := ((WorkStore.cancel id).exec faults store).1
  fileExists path := .ok (files path).isSome
  fileSize path := (files path).elim (.error (Bytes.ofString "cannot get file size"))
    fun content => .ok content.length
  content path :=
    (files path).elim (.error (Bytes.ofString "inspect payload file size: " ++ path)) .ok
  isWarm _ := false

/-- The frame that comes of what a handler returns or throws. -/
def replyFor (helloRequest : Frame) : Except Bytes Frame → Frame
  | .ok reply => reply
  | .error text => throwResponse helloRequest text

/-- A frame is what a served request comes to, for some answers to its calls. -/
def Served (cfg : Config) (c : Connection) (frame : Frame) : Prop :=
  ∃ calls, frame = replyFor c.hello (handle cfg calls c.request)

/-- What a handler that has begun knows about its request. -/
def Began (cfg : Config) : HandlerPhase → Prop
  | .idle => True
  | .submitWriting c work | .submitRenaming c work | .submitStoring c work =>
      c.request.type = MessageType.submit.code
        ∧ c.request.payload.length ≤ kMaxC1TextGenerationOpaquePayloadBytes
        ∧ ∃ nowMs draws, submitRecord cfg.dataDir c.request nowMs draws = .ok work
  | .resultFound c _ =>
      c.request.type = MessageType.result.code
        ∧ ∃ id, metadataValue c.request "work_id" = .ok id
  | .acknowledgeFound c _ | .removingInput c _ | .removingResult c _ =>
      c.request.type = MessageType.acknowledge.code
        ∧ ∃ id, metadataValue c.request "work_id" = .ok id

theorem handle_submit {calls : Calls} {request : Frame} {work : WorkRecord}
    (htype : request.type = MessageType.submit.code)
    (hpayload : request.payload.length ≤ kMaxC1TextGenerationOpaquePayloadBytes)
    (hrecord : submitRecord cfg.dataDir request calls.nowMs calls.draws = .ok work) :
  handle cfg calls request = do
    calls.write work.inputPath request.payload
    calls.submit work
    return System.submitReply request work
  := by
  rw [handle, if_pos htype, submit, if_neg (Nat.not_lt.mpr hpayload), hrecord]
  rfl

theorem handle_acknowledge {calls : Calls} {request : Frame} {id : Bytes} {work : WorkRecord}
    (htype : request.type = MessageType.acknowledge.code)
    (hid : metadataValue request "work_id" = .ok id) (hfind : calls.find id = .ok (some work)) :
  handle cfg calls request = do
    if ← calls.acknowledge id then return System.acknowledgeReply request
    else
      return errorResponse request "RESULT_NOT_ACKNOWLEDGEABLE"
        "result is not available for acknowledgement"
  := by
  rw [handle, htype, if_neg (by decide), if_neg (by decide), if_neg (by decide), if_pos rfl,
    acknowledge, findFirst, hid]
  simp only [bind, Except.bind, hfind]

/-- The reply of `result` over the files. -/
theorem handle_result (files : Files) {request : Frame} {id : Bytes} (work : WorkRecord)
    (htype : request.type = MessageType.result.code)
    (hid : metadataValue request "work_id" = .ok id) :
  handle cfg { callsOver Store.empty files 0 (0, 0) [] with find := fun _ => .ok (some work) }
      request = resultReply files request work
  := by
  rw [handle, htype, if_neg (by decide), if_neg (by decide), if_pos rfl, result, findFirst, hid,
    resultReply]
  by_cases hdone : work.state = .succeeded ∧ work.acknowledged = false
  · cases hfile : files work.resultPath with
    | none => simp [bind, Except.bind, available, callsOver, hdone, hfile, pure, Except.pure]
    | some content =>
        by_cases hlarge : content.length > kMaxC1TextGenerationOpaquePayloadBytes
        · simp [bind, Except.bind, available, callsOver, hdone, hfile, hlarge, pure, Except.pure]
        · simp [bind, Except.bind, available, callsOver, hdone, hfile, hlarge, pure, Except.pure,
            readBinaryBounded, Kernel.readBinaryBounded]
  · have hnot : ¬(work.state = .succeeded ∧ work.acknowledged = false
        ∧ (files work.resultPath).isSome = true) := fun h => hdone ⟨h.1, h.2.1⟩
    simp [bind, Except.bind, available, hdone, hnot, pure, Except.pure]

/-- A handler waits for its next call, or sends a reply that a served request comes to. -/
inductive Goes (cfg : Config) (s : System) (p : Process) : System → Prop where
  | awaits {store : Store} {files : Files} (handler : HandlerPhase) (hbegan : Began cfg handler) :
      Goes cfg s p { s with store, files, process := some { p with handler } }
  | replies {store : Store} {files : Files} {submitted : List (CString × Frame)} {c : Connection}
      {frame : Frame} (hserved : Served cfg c frame) :
      Goes cfg s p
        { store
          files
          process := some { p with handler := .idle }
          history := { s.history with
            submitted
            replies := s.history.replies ++ [(c.request, frame)] } }

theorem Goes.reply {store : Store} {files : Files} {c : Connection} {frame : Frame}
    (h : Served cfg c frame) :
  Goes cfg s p (s.reply p store files c frame)
  := .replies h

theorem Served.of_handle {calls : Calls} {c : Connection} {result : Except Bytes Frame}
    (h : handle cfg calls c.request = result) :
  Served cfg c (replyFor c.hello result)
  := ⟨calls, by rw [h]⟩

/-- A request that begins with `find` fails, or goes on with the Work that is found. -/
theorem findFirst_goes
    {c : Connection} {faults : List (Option Bytes)} {nowMs : Int64} {draws : UInt64 × UInt64}
    {found : WorkRecord → System} {next : Bytes → WorkRecord → Except Bytes Frame}
    (hhandle : handle cfg (callsOver s.store s.files nowMs draws faults) c.request
      = findFirst (callsOver s.store s.files nowMs draws faults) c.request next)
    (hfound : ∀ id work, metadataValue c.request "work_id" = .ok id →
      findFirst (callsOver s.store s.files nowMs draws faults) c.request next = next id work →
      Goes cfg s p (found work)) :
  Goes cfg s p (s.findFirst p c faults found)
  := by
  have hfirst := hhandle
  rw [findFirst] at hfirst
  rw [System.findFirst]
  cases hid : metadataValue c.request "work_id" with
  | error e =>
      rw [hid] at hfirst
      exact .reply (.of_handle hfirst)
  | ok id =>
      have hcall : (callsOver s.store s.files nowMs draws faults).find id
          = ((find id).exec faults s.store).1 := rfl
      simp only [hid, bind, Except.bind, hcall] at hfirst
      cases hexec : (find id).exec faults s.store with
      | mk result store =>
          rw [hexec] at hfirst
          simp only [hexec]
          rcases result with e | _ | work
          · exact .reply (.of_handle hfirst)
          · exact .reply (.of_handle hfirst)
          · exact hfound id work hid (hhandle.symm.trans hfirst)

theorem handle_goes
    {c : Connection} {nowMs : Int64} {draws : UInt64 × UInt64} {faults : List (Option Bytes)}
    (h : s.handle cfg p c nowMs draws faults = some s') :
  Goes cfg s p s'
  := by
  have hhandle : handle cfg (callsOver s.store s.files nowMs draws faults) c.request
      = handle cfg (callsOver s.store s.files nowMs draws faults) c.request := rfl
  conv_rhs at hhandle => rw [handle]
  rw [System.handle] at h
  split_ifs at h with hsubmit hlarge hstatus hresult hacknowledge hcancel hengines
  · rw [if_pos hsubmit, submit, if_pos hlarge] at hhandle
    cases h
    exact .reply (.of_handle hhandle)
  · rw [if_pos hsubmit, submit, if_neg hlarge] at hhandle
    cases hrecord : submitRecord cfg.dataDir c.request nowMs draws with
    | error e =>
        rw [hrecord] at h
        cases h
        have hthrow : handle cfg (callsOver s.store s.files nowMs draws faults) c.request
            = .error e := by
          rw [hhandle]
          simp only [callsOver, hrecord, bind, Except.bind]
        exact .reply (.of_handle hthrow)
    | ok work =>
        rw [hrecord] at h
        cases h
        exact .awaits _ ⟨hsubmit, Nat.le_of_not_lt hlarge, nowMs, draws, hrecord⟩
  · rw [if_neg hsubmit, if_pos hstatus, status] at hhandle
    cases h
    apply findFirst_goes hhandle
    intro id work _ hnext
    exact .reply (.of_handle (hhandle.trans hnext))
  · rw [if_neg hsubmit, if_neg hstatus, if_pos hresult, result] at hhandle
    cases h
    apply findFirst_goes hhandle
    intro id work hid _
    exact .awaits _ ⟨hresult, id, hid⟩
  · rw [if_neg hsubmit, if_neg hstatus, if_neg hresult, if_pos hacknowledge, acknowledge]
      at hhandle
    cases h
    apply findFirst_goes hhandle
    intro id work hid _
    exact .awaits _ ⟨hacknowledge, id, hid⟩
  · rw [if_neg hsubmit, if_neg hstatus, if_neg hresult, if_neg hacknowledge, if_pos hcancel,
      cancel] at hhandle
    cases hid : metadataValue c.request "work_id" with
    | error e =>
        rw [hid] at h hhandle
        cases h
        exact .reply (.of_handle hhandle)
    | ok id =>
        have hcall : (callsOver s.store s.files nowMs draws faults).cancel id
            = ((WorkStore.cancel id).exec faults s.store).1 := rfl
        simp only [hid, bind, Except.bind, hcall] at h hhandle
        cases hexec : (WorkStore.cancel id).exec faults s.store with
        | mk result store =>
            rw [hexec] at h hhandle
            rcases result with e | _ | state
            · cases h
              exact .reply (.of_handle hhandle)
            · cases h
              exact .reply (.of_handle hhandle)
            · cases h
              exact .reply (.of_handle hhandle)
  · have hlist : ¬c.request.type = MessageType.listEngines.code := by
      intro htype
      simp [htype] at hengines
    have hengine : ¬c.request.type = MessageType.engineStatus.code := by
      intro htype
      simp [htype] at hengines
    rw [if_neg hsubmit, if_neg hstatus, if_neg hresult, if_neg hacknowledge, if_neg hcancel,
      if_neg hlist, if_neg hengine] at hhandle
    cases h
    exact .reply (.of_handle hhandle)

/-- The calls of a `SUBMIT`. -/
def submitCalls (nowMs : Int64) (draws : UInt64 × UInt64) (written stored : Except Bytes Unit) :
    Calls :=
  { callsOver Store.empty (fun _ => none) nowMs draws [] with
    write := fun _ _ => written
    submit := fun _ => stored }

theorem served_submit
    {c : Connection} {work : WorkRecord} (hbegan : Began cfg (.submitWriting c work))
    (written stored : Except Bytes Unit) :
  Served cfg c (replyFor c.hello (do
    written
    stored
    return System.submitReply c.request work))
  := by
  obtain ⟨htype, hpayload, nowMs, draws, hrecord⟩ := hbegan
  have hhandle := @handle_submit cfg (submitCalls nowMs draws written stored) c.request work htype
    hpayload hrecord
  exact .of_handle hhandle

/-- The calls of an `ACKNOWLEDGE` that finds a Work. -/
def acknowledgeCalls (work : WorkRecord) (acknowledged : Except Bytes Bool) : Calls :=
  { callsOver Store.empty (fun _ => none) 0 (0, 0) [] with
    find := fun _ => .ok (some work)
    acknowledge := fun _ => acknowledged }

theorem served_acknowledge
    {c : Connection} (work : WorkRecord) (hbegan : Began cfg (.acknowledgeFound c work))
    (acknowledged : Except Bytes Bool) :
  Served cfg c (replyFor c.hello (do
    if ← acknowledged then return System.acknowledgeReply c.request
    else
      return errorResponse c.request "RESULT_NOT_ACKNOWLEDGEABLE"
        "result is not available for acknowledgement"))
  := by
  obtain ⟨htype, id, hid⟩ := hbegan
  have hhandle := @handle_acknowledge cfg (acknowledgeCalls work acknowledged) c.request id work
    htype hid rfl
  exact .of_handle hhandle

theorem proceed_goes
    {faults : List (Option Bytes)} (hbegan : Began cfg p.handler)
    (h : s.proceed p faults = some s') :
  Goes cfg s p s'
  := by
  cases hphase : p.handler with
  | idle =>
      simp only [System.proceed, hphase] at h
      cases h
  | submitWriting c work =>
      simp only [System.proceed, hphase] at h hbegan
      cases h
      exact .awaits (.submitRenaming c work) hbegan
  | submitRenaming c work =>
      simp only [System.proceed, hphase, Option.map_eq_some_iff] at h hbegan
      obtain ⟨files, -, rfl⟩ := h
      exact .awaits (.submitStoring c work) hbegan
  | submitStoring c work =>
      simp only [System.proceed, hphase] at h hbegan
      cases hexec : (WorkStore.submit work).exec faults s.store with
      | mk result store =>
          rw [hexec] at h
          rcases result with e | ⟨⟩
          · cases h
            exact .reply (served_submit hbegan (.ok ()) (.error e))
          · cases h
            exact .replies (served_submit hbegan (.ok ()) (.ok ()))
  | resultFound c work =>
      simp only [System.proceed, hphase] at h
      rw [hphase] at hbegan
      obtain ⟨htype, id, hid⟩ := hbegan
      have hserved : Served cfg c (replyFor c.hello (resultReply s.files c.request work)) :=
        .of_handle (handle_result s.files work htype hid)
      cases hreply : resultReply s.files c.request work with
      | error e =>
          rw [hreply] at h hserved
          cases h
          exact .reply hserved
      | ok frame =>
          rw [hreply] at h hserved
          cases h
          exact .reply hserved
  | acknowledgeFound c work =>
      simp only [System.proceed, hphase] at h
      rw [hphase] at hbegan
      obtain ⟨id, hid⟩ := hbegan.2
      simp only [hid] at h
      cases hexec : (WorkStore.acknowledge id).exec faults s.store with
      | mk result store =>
          rw [hexec] at h
          rcases result with e | _ | _
          · cases h
            exact .reply (served_acknowledge work hbegan (.error e))
          · cases h
            exact .reply (served_acknowledge work hbegan (.ok false))
          · cases h
            exact .awaits (.removingInput c work) hbegan
  | removingInput c work =>
      simp only [System.proceed, hphase] at h hbegan
      cases h
      exact .awaits (.removingResult c work) hbegan
  | removingResult c work =>
      simp only [System.proceed, hphase] at h hbegan
      cases h
      exact .reply (served_acknowledge work hbegan (.ok true))

theorem handlerStep_goes
    {input : System.HandlerInput} (hprocess : s.process = some p) (hbegan : Began cfg p.handler)
    (h : s.handlerStep cfg p input = some s') :
  Goes cfg s p s'
  := by
  cases input with
  | request c nowMs draws faults =>
      simp only [System.handlerStep] at h
      split at h
      · split_ifs at h
        exact handle_goes h
      · cases h
  | write count =>
      simp only [System.handlerStep] at h
      split at h
      · cases h
        rw [hprocess]
        exact .awaits p.handler hbegan
      · cases h
  | proceed faults => exact proceed_goes hbegan h
  | throw text =>
      cases hphase : p.handler with
      | submitWriting c work =>
          simp only [System.handlerStep, hphase] at h hbegan
          cases h
          exact .reply (served_submit hbegan (.error text) (.ok ()))
      | submitRenaming c work =>
          simp only [System.handlerStep, hphase] at h hbegan
          cases h
          exact .reply (served_submit hbegan (.error text) (.ok ()))
      | removingInput c work =>
          simp only [System.handlerStep, hphase] at h hbegan
          cases h
          exact .awaits (.removingResult c work) hbegan
      | removingResult c work =>
          simp only [System.handlerStep, hphase] at h hbegan
          cases h
          exact .reply (served_acknowledge work hbegan (.ok true))
      | _ =>
          simp only [System.handlerStep, hphase] at h
          cases h

/-- The scheduler leaves the handler and the replies alone. -/
theorem schedulerMove_handler (h : SchedulerMove cfg s p s') :
  s'.history = s.history ∧ ∀ p', s'.process = some p' → p'.handler = p.handler
  := by
  cases h with
  | gone => exact ⟨rfl, fun p' hp' => by cases hp'⟩
  | _ =>
      refine ⟨rfl, ?_⟩
      rintro p' ⟨⟩
      rfl

/-- A step adds no reply, or one that a served request comes to. -/
theorem step_served
    {e : System.Event} (hbegan : ∀ p, s.process = some p → Began cfg p.handler)
    (hstep : s.step cfg e = some s') :
  (s'.history.replies = s.history.replies
      ∨ ∃ c frame, s'.history.replies = s.history.replies ++ [(c.request, frame)]
        ∧ Served cfg c frame)
    ∧ ∀ p', s'.process = some p' → Began cfg p'.handler
  := by
  cases hprocess : s.process with
  | none =>
      cases e with
      | start nowMs faults =>
          simp only [System.step, hprocess, Option.some.injEq] at hstep
          subst hstep
          rw [System.startStep]
          split
          · refine ⟨Or.inl rfl, ?_⟩
            rintro p' ⟨⟩
            trivial
          · refine ⟨Or.inl rfl, ?_⟩
            rintro p' ⟨⟩
      | _ =>
          simp only [System.step, hprocess] at hstep
          cases hstep
  | some p =>
      have hp := hbegan p hprocess
      cases e with
      | start nowMs faults =>
          simp only [System.step, hprocess] at hstep
          cases hstep
      | crash =>
          simp only [System.step, hprocess] at hstep
          cases hstep
          refine ⟨Or.inl rfl, ?_⟩
          rintro p' ⟨⟩
      | stop =>
          simp only [System.step, hprocess] at hstep
          cases hstep
          refine ⟨Or.inl rfl, ?_⟩
          rintro p' ⟨⟩
          exact hp
      | scheduler input =>
          simp only [System.step, hprocess] at hstep
          obtain ⟨hhistory, hhandler⟩ :=
            schedulerMove_handler (System.schedulerStep_move hstep)
          refine ⟨Or.inl (by rw [hhistory]), ?_⟩
          intro p' hp'
          rw [hhandler p' hp']
          exact hp
      | task i input =>
          simp only [System.step, hprocess, System.attemptStep] at hstep
          split at hstep
          · cases hstep
          · obtain ⟨step, -, rfl⟩ := Option.map_eq_some_iff.mp hstep
            refine ⟨Or.inl rfl, ?_⟩
            rintro p' ⟨⟩
            cases step.next with
            | _ => exact hp
      | handler input =>
          simp only [System.step, hprocess] at hstep
          cases handlerStep_goes hprocess hp hstep with
          | awaits handler hbegan' =>
              refine ⟨Or.inl rfl, ?_⟩
              rintro p' ⟨⟩
              exact hbegan'
          | replies hserved =>
              refine ⟨Or.inr ⟨_, _, rfl, hserved⟩, ?_⟩
              rintro p' ⟨⟩
              trivial

/-- Every reply of a run of the system is what its request comes to when it is served. -/
theorem reachable_served (h : (machine cfg).Reachable s) :
  ∀ r ∈ s.history.replies, ∃ c frame, r = (c.request, frame) ∧ Served cfg c frame
  := by
  have hboth := Machine.Reachable.invariant
    (P := fun s : System =>
      (∀ r ∈ s.history.replies, ∃ c frame, r = (c.request, frame) ∧ Served cfg c frame)
        ∧ ∀ p, s.process = some p → Began cfg p.handler) ?_ ?_ h
  · exact hboth.1
  · rintro s ⟨-, hprocess, hhistory⟩
    rw [hprocess, hhistory]
    simp
  · rintro s e s' - ⟨hreplies, hbegan⟩ hstep
    obtain ⟨hsame | ⟨c, frame, hadded, hserved⟩, hbegan'⟩ := step_served hbegan hstep
    · rw [hsame]
      exact ⟨hreplies, hbegan'⟩
    · refine ⟨?_, hbegan'⟩
      rw [hadded]
      intro r hr
      rcases List.mem_append.mp hr with hr | hr
      · exact hreplies r hr
      · exact ⟨c, frame, List.mem_singleton.mp hr, hserved⟩

end

end Serving

end Kernel
