import MadreKernel.Kernel.Configuration
import MadreKernel.Workers.Loop

/-!
# The fake worker

The worker that the Kernel starts for its fake engines.  It answers a request with the payload behind
`fake:`.  Some payloads make it crash, hang, stall in the middle of a frame, fail, or look for
descriptors that it has inherited.

The delay before an answer changes nothing but the time, so that it is left out, with the clock.
-/

namespace Kernel

/-- The arguments that a process is started with: `c_str` of each. -/
def WorkerLaunchSpec.argv (launch : WorkerLaunchSpec) : List Bytes :=
  launch.arguments.map fun argument => (CString.ofBytes argument).toBytes

namespace FakeWorker

open Wire WorkerMain

structure Options where
  engineId : Bytes := []
  delayMs : Int32 := 0
  deriving DecidableEq

def usage : Bytes :=
  Bytes.ofString "usage: madre-fake-worker --engine-id <id> --delay-ms <ms>"

/-- The loop of `parse_options`. -/
def parseArguments (options : Options) : List Bytes → Except Bytes Options
  | [] => .ok options
  | [_] => .error usage
  | argument :: value :: rest =>
      if argument = Bytes.ofString "--engine-id" then
        parseArguments { options with engineId := value } rest
      else if argument = Bytes.ofString "--delay-ms" then
        match stoi value with
        | .ok delayMs => parseArguments { options with delayMs } rest
        | .error e => .error e
      else .error usage

def parseOptions (arguments : List Bytes) : Except Bytes Options :=
  match parseArguments {} arguments with
  | .error e => .error e
  | .ok options =>
      if options.engineId = [] ∨ options.delayMs < 0 then .error usage else .ok options

def crash : Bytes := Bytes.ofString "__C3_WORKER_CRASH__"

def hang : Bytes := Bytes.ofString "__C3_HANG_AFTER_DELAY__"

def partialStall : Bytes := Bytes.ofString "__C3_PARTIAL_FRAME_STALL__"

def descriptorCheck : Bytes := Bytes.ofString "__C3_CHECK_NO_EXTRA_FDS__"

def forcedFailure : Bytes := Bytes.ofString "__C2_TECHNICAL_FAILURE__"

def resultPrefix : Bytes := Bytes.ofString "fake:"

def failure (request : Frame) (text : Bytes) : Frame :=
  ⟨workerFailure, request.correlationId,
    SortedMap.ofEntries [(Bytes.ofString "technical_failure", text)], []⟩

/-- The first descriptor behind the standard ones that is open. -/
def extraDescriptor (isOpen : Nat → Bool) : Option Nat := (List.range' 3 253).find? isOpen

/-- The `write` of four octets of a frame, after which nothing more comes. -/
def stall (sink : Sink) : Bytes × Executed Unit :=
  match sink with
  | [] => ([], .writing)
  | .accepted count :: _ => (kMagic.take (count + 1), .hanging)
  | .stalled :: _ => ([], .hanging)
  | .interrupted :: _ => ([], .exited 87)
  | .failed _ :: _ => ([], .exited 87)

/-- What `execute` does about a request. -/
inductive Action where
  | write (frame : Frame)
  | threw (what : Bytes)
  | exit (status : Nat)
  | hang
  | stall

/-- The inherited descriptor that the check of descriptors finds. -/
def leakedDescriptor (isOpen : Nat → Bool) (request : Frame) : Option Nat :=
  if request.payload = descriptorCheck then extraDescriptor isOpen else none

/-- The answer to a request that is checked. -/
def answerTo (isOpen : Nat → Bool) (request : Frame) : Frame :=
  match leakedDescriptor isOpen request with
  | some fd =>
      failure request
        (Bytes.ofString "WORKER_FD_LEAK: inherited descriptor " ++ Bytes.ofString (toString fd))
  | none =>
      if request.payload = forcedFailure then
        failure request
          (Bytes.ofString "FAKE_TECHNICAL_FAILURE: deterministic C2 test engine failure")
      else if request.payload.length
          > kMaxC1TextGenerationOpaquePayloadBytes - resultPrefix.length then
        failure request (Bytes.ofString "FAKE_RESULT_TOO_LARGE: bounded result limit exceeded")
      else ⟨workerResult, request.correlationId, ∅, resultPrefix ++ request.payload⟩

/-- The part of `execute` behind the checks of the request. -/
def respond (isOpen : Nat → Bool) (request : Frame) : Action :=
  if request.payload = crash then .exit 86
  else if request.payload = hang then .hang
  else if request.payload = partialStall then .stall
  else .write (answerTo isOpen request)

/-- What `execute` does in a process in which some descriptors are open. -/
def action (options : Options) (isOpen : Nat → Bool) (request : Frame) : Action :=
  if request.type ≠ workerExecute then
    .write (failure request (Bytes.ofString "WORKER_PROTOCOL_FAILURE: unsupported request"))
  else
    match metadataValue request "engine_id" with
    | .error what => .threw what
    | .ok engine =>
        if engine ≠ options.engineId then
          .write (failure request
            (Bytes.ofString "WORKER_PROTOCOL_FAILURE: engine identity mismatch"))
        else
          match (metadataValue request "attempt_started_at_ms").bind leadingI64 with
          | .error what => .threw what
          | .ok _ => respond isOpen request

def execute (options : Options) (isOpen : Nat → Bool) (_ : Unit) (request : Frame) (sink : Sink) :
    Bytes × Executed Unit :=
  match action options isOpen request with
  | .write frame => send () sink frame
  | .threw what => ([], .threw what)
  | .exit status => ([], .exited status)
  | .hang => ([], .hanging)
  | .stall => stall sink

/-! ### What it answers -/

/-- The frame that an action writes. -/
def Action.answer? : Action → Option (Unit × Frame)
  | .write frame => some ((), frame)
  | _ => none

/-- The answer to a request. -/
def react (options : Options) (isOpen : Nat → Bool) (_ : Unit) (request : Frame) :
    Option (Unit × Frame) :=
  (action options isOpen request).answer?

/-- The texts of the failures. -/
def failureTexts : List String :=
  ["WORKER_PROTOCOL_FAILURE: unsupported request",
    "WORKER_PROTOCOL_FAILURE: engine identity mismatch",
    "FAKE_TECHNICAL_FAILURE: deterministic C2 test engine failure",
    "FAKE_RESULT_TOO_LARGE: bounded result limit exceeded"]

/-- A failure with a plain and short text, or a result within the limit. -/
inductive Sent (request : Frame) : Frame → Prop where
  | failed {text : Bytes} (hplain : plainText text = true) (hlength : text.length ≤ 128) :
      Sent request (failure request text)
  | succeeded (hpayload : (resultPrefix ++ request.payload).length
      ≤ kMaxC1TextGenerationOpaquePayloadBytes) :
      Sent request ⟨workerResult, request.correlationId, ∅, resultPrefix ++ request.payload⟩

theorem Sent.of_text {request : Frame} {text : String} (h : text ∈ failureTexts) :
  Sent request (failure request (Bytes.ofString text))
  := by
  simp only [failureTexts, List.mem_cons, List.not_mem_nil, or_false] at h
  rcases h with rfl | rfl | rfl | rfl
  all_goals exact .failed (by decide +kernel) (by decide +kernel)

theorem leakedDescriptor_lt
    {isOpen : Nat → Bool} {request : Frame} {fd : Nat} (h : leakedDescriptor isOpen request = some fd) :
  fd < 256
  := by
  rw [leakedDescriptor] at h
  split_ifs at h
  have hmem := List.mem_of_find?_eq_some h
  rw [List.mem_range'] at hmem
  obtain ⟨i, hi, rfl⟩ := hmem
  omega

theorem sent_answerTo (isOpen : Nat → Bool) (request : Frame) :
  Sent request (answerTo isOpen request)
  := by
  rw [answerTo]
  split
  next fd hfd =>
    have hlt := leakedDescriptor_lt hfd
    have hdigits : Bytes.ofString (toString fd) = Decimal.digits fd :=
      Decimal.ofString_toString_natCast fd
    rw [hdigits]
    apply Sent.failed
    · have hprefix : plainText (Bytes.ofString "WORKER_FD_LEAK: inherited descriptor ") = true := by
        decide +kernel
      have hnumber : plainText (Decimal.digits fd) = true :=
        plainText_decimal fun b hb => Or.inr (Decimal.isOctet_of_mem_digits hb)
      rw [plainText, Bool.not_eq_true'] at hprefix hnumber ⊢
      rw [List.any_append, hprefix, hnumber]
      rfl
    · have hprefix : (Bytes.ofString "WORKER_FD_LEAK: inherited descriptor ").length = 37 := by
        decide +kernel
      have hnumber : (Decimal.digits fd).length ≤ 3 :=
        Decimal.length_digits_le (by decide) (by omega)
      rw [List.length_append, hprefix]
      omega
  next =>
    split_ifs with hforced hlarge
    · exact .of_text (by simp [failureTexts])
    · exact .of_text (by simp [failureTexts])
    · apply Sent.succeeded
      have hlength : resultPrefix.length = 5 := by
        decide +kernel
      simp only [kMaxC1TextGenerationOpaquePayloadBytes] at hlarge ⊢
      rw [List.length_append, hlength]
      omega

theorem sent_of_respond
    {isOpen : Nat → Bool} {request frame : Frame} (h : respond isOpen request = .write frame) :
  Sent request frame
  := by
  rw [respond] at h
  split_ifs at h
  cases h
  exact sent_answerTo isOpen request

theorem sent_of_action
    {options : Options} {isOpen : Nat → Bool} {request frame : Frame}
    (h : action options isOpen request = .write frame) :
  Sent request frame
  := by
  rw [action] at h
  split_ifs at h
  · cases h
    exact .of_text (by simp [failureTexts])
  · split at h
    · cases h
    · split_ifs at h
      · cases h
        exact .of_text (by simp [failureTexts])
      · split at h
        · cases h
        · exact sent_of_respond h

/-- Whatever it writes is encodable, and has the correlation id of the request. -/
theorem Sent.encodable {request frame : Frame} (h : Sent request frame) :
  encodable frame = true ∧ frame.correlationId = request.correlationId
  := by
  cases h with
  | failed hplain hlength => exact ⟨encodable_failure _ hplain hlength, rfl⟩
  | succeeded hpayload => exact ⟨encodable_result _ hpayload, rfl⟩

theorem execute_reacts
    (options : Options) (isOpen : Nat → Bool) (state : Unit) (request : Frame) (sink : Sink)
    (hsink : Progressing sink) :
  Reacts sink (execute options isOpen state request sink) (react options isOpen state request)
  := by
  rw [execute, react]
  cases haction : action options isOpen request with
  | write frame =>
      obtain ⟨octets, hencode⟩ := (encodable_iff frame).mp (sent_of_action haction).encodable.1
      exact send_reacts hsink hencode ()
  | stall =>
      apply Reacts.stops
      intro state' rest
      simp only [stall]
      split <;> simp
  | _ =>
      apply Reacts.stops
      intro state' rest
      simp

theorem program_correlates (options : Options) (isOpen : Nat → Bool) :
  (program (react options isOpen)).Correlates
  := by
  rintro request answer ⟨_, _, hreact⟩
  simp only [react] at hreact
  cases haction : action options isOpen request with
  | write frame =>
      rw [haction] at hreact
      cases hreact
      exact (sent_of_action haction).encodable.2
  | _ =>
      rw [haction] at hreact
      cases hreact

/-- A result of the fake worker has the payload of its request behind the prefix. -/
theorem program_result
    {options : Options} {isOpen : Nat → Bool} {request answer : Frame}
    (h : program (react options isOpen) request answer) (htype : answer.type = workerResult) :
  answer.payload = resultPrefix ++ request.payload
  := by
  obtain ⟨_, _, hreact⟩ := h
  simp only [react] at hreact
  cases haction : action options isOpen request with
  | write frame =>
      rw [haction] at hreact
      cases hreact
      cases sent_of_action haction with
      | failed => exact absurd htype (show workerFailure ≠ workerResult by decide)
      | succeeded => rfl
  | _ =>
      rw [haction] at hreact
      cases hreact

/-! ### The worker of a fake engine -/

/-- The fake worker reads the arguments that the Kernel starts it with. -/
theorem parseOptions_fakeLaunch
    {arguments : List CString} {options : Kernel.Options} {engine : EngineDescriptorFacts}
    (hparse : Kernel.parseOptions arguments = .ok options)
    (hengine : engine ∈ fakeEngines options) :
  parseOptions (fakeLaunch options engine).argv = .ok ⟨engine.id, options.fakeDelayMs⟩
  := by
  have hne := (fakeEngineInventory_valid engine (mem_fakeEngines hengine).2).2
  have hdelay : ¬options.fakeDelayMs < 0 := by
    rw [Kernel.parseOptions] at hparse
    obtain ⟨parsed, -, hparse⟩ := bind_eq_ok hparse
    simp only at hparse
    split_ifs at hparse with hphysical
    cases hparse
    simp only [not_or] at hphysical
    exact hphysical.2.2.1
  have hdigits : (0 : UInt8) ∉ Bytes.ofString (toString options.fakeDelayMs.toInt) := by
    intro hmem
    have hoctet := Decimal.isOctet_of_mem hmem
    simp [Decimal.IsOctet] at hoctet
  have hargv : (fakeLaunch options engine).argv = [Bytes.ofString "--engine-id", engine.id,
      Bytes.ofString "--delay-ms", Bytes.ofString (toString options.fakeDelayMs.toInt)] := by
    rw [WorkerLaunchSpec.argv, fakeLaunch]
    simp only [List.map_cons, List.map_nil]
    rw [CString.toBytes_ofBytes (by decide +kernel), CString.toBytes_ofBytes engine.id_nulFree,
      CString.toBytes_ofBytes (by decide +kernel), CString.toBytes_ofBytes hdigits]
  have hother : Bytes.ofString "--delay-ms" ≠ Bytes.ofString "--engine-id" := by
    decide +kernel
  rw [hargv, parseOptions]
  simp only [parseArguments, if_true, if_neg hother, stoi_toString, hne, hdelay, or_self, if_false]

/-- The payloads at which the worker stops. -/
def stops (payload : Bytes) : Bool :=
  payload = crash || payload = hang || payload = partialStall

theorem react_requestFrame (options : Options) (isOpen : Nat → Bool) (c : Call) :
  react options isOpen () (c.requestFrame options.engineId)
    = if stops c.payload then none
      else some ((), answerTo isOpen (c.requestFrame options.engineId))
  := by
  have hfind : ∀ key value, (c.requestFrame options.engineId).metadata.find? key = some value
      ↔ (key, value) ∈ [(Bytes.ofString "engine_id", options.engineId),
        (Bytes.ofString "attempt_started_at_ms",
          Bytes.ofString (toString c.attemptStartedAtMs.toInt))] := by
    intro key value
    apply SortedMap.find?_ofEntries_eq_some_iff
    have hne : Bytes.ofString "engine_id" ≠ Bytes.ofString "attempt_started_at_ms" := by
      decide +kernel
    simp [hne]
  have hengine : metadataValue (c.requestFrame options.engineId) "engine_id"
      = .ok options.engineId := by
    rw [metadataValue, (hfind _ _).mpr List.mem_cons_self]
  have hstarted : metadataValue (c.requestFrame options.engineId) "attempt_started_at_ms"
      = .ok (Bytes.ofString (toString c.attemptStartedAtMs.toInt)) := by
    rw [metadataValue, (hfind _ _).mpr (List.mem_cons_of_mem _ List.mem_cons_self)]
  have haction : action options isOpen (c.requestFrame options.engineId)
      = respond isOpen (c.requestFrame options.engineId) := by
    rw [action, if_neg (by simp [Call.requestFrame]), hengine]
    simp only [ne_eq, not_true_eq_false, if_false, hstarted, Except.bind, leadingI64_toString]
  have hpayload : (c.requestFrame options.engineId).payload = c.payload := rfl
  rw [react, haction, respond, hpayload, stops]
  split_ifs <;> simp_all [Action.answer?]

/-- The answers to the requests of some calls. -/
theorem answers_requestFrames (options : Options) (isOpen : Nat → Bool) (calls : List Call) :
  answers (react options isOpen) () (calls.map (·.requestFrame options.engineId))
    = ((calls.takeWhile fun c => !stops c.payload).map fun c =>
        answerTo isOpen (c.requestFrame options.engineId),
      ((calls.dropWhile fun c => !stops c.payload).head?).map fun c =>
        ((), c.requestFrame options.engineId))
  := by
  induction calls with
  | nil => rfl
  | cons c calls ih =>
      rw [List.map_cons, answers, react_requestFrame]
      cases hstops : stops c.payload with
      | true => simp [hstops]
      | false =>
          rw [if_neg (by decide)]
          simp only [ih, List.takeWhile_cons, List.dropWhile_cons, hstops, Bool.not_false, if_true,
            List.map_cons]

/-- A fake worker that the Kernel has started for an engine answers the requests of any calls with
their payloads behind the prefix, in order and under every pattern of partial reads and writes, up
to the first payload that stops it, and leaves with status 0 when its input is closed. -/
theorem answers_calls
    {arguments : List CString} {options : Kernel.Options} {engine : EngineDescriptorFacts}
    (hparse : Kernel.parseOptions arguments = .ok options) (hengine : engine ∈ fakeEngines options)
    (isOpen : Nat → Bool) (calls : List Call) {wire : Bytes}
    (hwire : encodeFrames (calls.map (·.requestFrame engine.id)) = .ok wire) (closed : Bool)
    {src : Source} (hsrc : src.Delivers wire) {sink : Sink} (hsink : Progressing sink) {n : Nat}
    (hn : calls.length < n) :
  ∃ worker octets, parseOptions (fakeLaunch options engine).argv = .ok worker
    ∧ encodeFrames ((calls.takeWhile fun c => !stops c.payload).map fun c =>
        answerTo isOpen (c.requestFrame engine.id)) = .ok octets
    ∧ ((∀ c ∈ calls, stops c.payload = false)
        ∧ mainLoop (execute worker isOpen) n () (src ++ inputEnd closed) sink
          = (octets, atEnd closed)
      ∨ (∃ c sink', (calls.dropWhile fun c => !stops c.payload).head? = some c
        ∧ mainLoop (execute worker isOpen) n () (src ++ inputEnd closed) sink
          = (octets ++ (execute worker isOpen () (c.requestFrame engine.id) sink').1,
            (execute worker isOpen () (c.requestFrame engine.id) sink').2.standing))
      ∨ ∃ written, mainLoop (execute worker isOpen) n () (src ++ inputEnd closed) sink
          = (written, .writing)
        ∧ written <+: octets ∧ acceptances sink < octets.length)
  := by
  have hanswers := answers_requestFrames ⟨engine.id, options.fakeDelayMs⟩ isOpen calls
  obtain ⟨octets, hoctets, hloop⟩ := mainLoop_reacts
    (execute_reacts ⟨engine.id, options.fakeDelayMs⟩ isOpen) _ wire hwire closed () src hsrc sink
    hsink n (by rw [List.length_map]; exact hn)
  simp only [hanswers] at hoctets hloop
  refine ⟨⟨engine.id, options.fakeDelayMs⟩, octets, parseOptions_fakeLaunch hparse hengine, hoctets,
    ?_⟩
  rcases hloop with ⟨hnone, hdone⟩ | ⟨state, request, sink', hstuck, hdone⟩ | hwaits
  · left
    refine ⟨?_, hdone⟩
    rw [Option.map_eq_none_iff, List.head?_eq_none_iff, List.dropWhile_eq_nil_iff] at hnone
    intro c hc
    simpa using hnone c hc
  · right
    left
    obtain ⟨c, hc, hrequest⟩ := Option.map_eq_some_iff.mp hstuck
    cases hrequest
    exact ⟨c, sink', hc, hdone⟩
  · exact Or.inr (Or.inr hwaits)

namespace Sample

/-- The options of a Kernel with a fake worker. -/
def options : Kernel.Options where
  dataDir := literal "d"
  endpoint := literal "e"
  fakeWorker := literal "f"

/-- The first fake engine. -/
def engine : EngineDescriptorFacts :=
  fakeEngine "fake-standard" ["basic-text"] ["standard-v1", "shared-v1"] ["STANDARD"]
    ⟨1, 64 * kMiB, [], 0⟩

def call : Call := ⟨0, Bytes.ofString "in", 1, 0, none, false⟩

end Sample

/-- One request, of which each octet of the answer is taken alone. -/
theorem answers_calls_one :
  ∃ wire worker octets, encodeFrames [Sample.call.requestFrame Sample.engine.id] = .ok wire
    ∧ encodeFrames [⟨workerResult, 1, ∅, Bytes.ofString "fake:in"⟩] = .ok octets
    ∧ mainLoop (execute worker fun _ => false) 2 () (Source.ofBytes wire ++ inputEnd true)
        (List.replicate 64 (.accepted 0))
      = (octets, .exited 0)
  := by
  have hparse : Kernel.parseOptions (["--data-dir", "d", "--endpoint", "e", "--fake-worker",
      "f"].map literal) = .ok Sample.options := rfl
  have hengine : Sample.engine ∈ fakeEngines Sample.options := by
    rw [fakeEngines, if_neg (by decide +kernel)]
    exact List.mem_cons_self
  have hwire : (encodeFrames [Sample.call.requestFrame Sample.engine.id]).isOk = true := by
    decide +kernel
  cases hencode : encodeFrames [Sample.call.requestFrame Sample.engine.id] with
  | error e =>
      rw [hencode] at hwire
      cases hwire
  | ok wire =>
      have hsink : Progressing (List.replicate 64 (.accepted 0)) := by
        intro e he
        exact Or.inl ⟨0, (List.mem_replicate.mp he).2⟩
      obtain ⟨worker, octets, -, hoctets, hloop⟩ := answers_calls hparse hengine (fun _ => false)
        [Sample.call] hencode true
        ⟨Source.open_ofBytes wire, Source.content_ofBytes wire⟩ hsink (n := 2) (by decide)
      have hstops : stops Sample.call.payload = false := by
        decide +kernel
      have hanswer : answerTo (fun _ => false) (Sample.call.requestFrame Sample.engine.id)
          = ⟨workerResult, 1, ∅, Bytes.ofString "fake:in"⟩ := by
        decide +kernel
      simp only [List.takeWhile_cons, List.dropWhile_cons, hstops, Bool.not_false, if_true,
        List.takeWhile_nil, List.dropWhile_nil, List.map_cons, List.map_nil, hanswer] at hoctets hloop
      have hlength : (encodeFrames [⟨workerResult, 1, ∅, Bytes.ofString "fake:in"⟩]).toOption.all
          (fun octets => octets.length ≤ 64) = true := by
        decide +kernel
      refine ⟨wire, worker, octets, rfl, hoctets, ?_⟩
      rcases hloop with ⟨-, hdone⟩ | ⟨c, sink', hnone, -⟩ | ⟨written, -, -, hlt⟩
      · exact hdone
      · cases hnone
      · rw [hoctets] at hlength
        have hacceptances : acceptances (List.replicate 64 (.accepted 0)) = 64 := by
          decide
        simp [Except.toOption] at hlength
        omega

end FakeWorker

end Kernel
