import MadreKernel.Lib.Machine
import MadreKernel.Pool.Execute
import MadreKernel.Pool.Reading

/-!
# A response and the exit of its worker

One call of `execute`, and a worker process that writes one response to the request of the call
and then exits.  The Kernel does not stop, the Work is not cancelled and its stop time is not
reached.  The octets of the response, the end of the output and the exit of the process are
seen by different system calls.  A call that sees the end or the exit before it has taken the
response reports a crash, although the response is in the pipe.
-/

namespace Kernel

open Wire

/-- The outcome that a response determines. -/
def outcomeOf (response : Frame) : WorkerOutcome :=
  if response.type = workerResult then .succeeded response.payload
  else .technicalFailure ((response.metadata.find? (Bytes.ofString "technical_failure")).getD
    (Bytes.ofString "WORKER_PROTOCOL_FAILURE: missing technical failure"))

structure Exchange where
  worker : Worker
  progress : Progress

namespace Exchange

inductive Event where
  | act (a : Worker.Act)
  | execute (input : Input)

/-- The process sends nothing more, and it exits when all of its output is in the pipe. -/
def mayAct (w : Worker) : Worker.Act → Bool
  | .send _ => false
  | .exit _ => w.flushed = w.output.length
  | .vanish => w.flushed = w.output.length
  | .read _ => true
  | .flush _ => true

/-- The Kernel is not stopping, the Work is not cancelled, and the stop time is not reached. -/
def unhindered (c : Call) : Input → Bool
  | .answers stopping cancellation nowMs =>
      !stopping && !c.stopTimeReached nowMs && match cancellation with
        | .ok cancelled => !cancelled
        | .error _ => false
  | _ => true

def step (c : Call) (s : Exchange) : Event → Option Exchange
  | .act a =>
      if mayAct s.worker a then (s.worker.act a).map fun w => { s with worker := w } else none
  | .execute input =>
      match s.progress with
      | .goesOn phase =>
          if unhindered c input then
            (Execute.step c s.worker phase input).map fun (w, progress) => ⟨w, progress⟩
          else none
      | _ => none

/-- A complete response to a call, and its octets. -/
structure Answers (c : Call) (response : Frame) (octets : Bytes) : Prop where
  encoded : encodeFrame response = .ok octets
  correlationId : response.correlationId = c.correlationId
  type : response.type = workerResult ∨ response.type = workerFailure

/-- `execute` is called on a worker from which everything has been read, and whose process will
send the octets of one response to the call. -/
structure Starts (c : Call) (response : Frame) (octets : Bytes) (s : Exchange) : Prop where
  progress : s.progress = .goesOn .entering
  running : s.worker.running = true
  request : ∃ request, encodeFrame (c.requestFrame s.worker.engineId) = .ok request
  answers : Answers c response octets
  reader : s.worker.responseReader = []
  received : s.worker.received = s.worker.flushed
  output : s.worker.output.drop s.worker.received = octets
  flushed : s.worker.flushed ≤ s.worker.output.length

def machine (c : Call) (response : Frame) (octets : Bytes) : Machine Exchange Event where
  init := Starts c response octets
  step := step c

/-- A step of `execute` that sees neither the exit of the process nor the end of its output, and
whose system call does not fail: a probe of a process that runs, and a turn that comes before
the exit or that finds as much in the pipe as it may read. -/
def seesNoExit (s : Exchange) : Event → Bool
  | .act _ => true
  | .execute .probe => s.worker.running
  | .execute (.answers _ _ _) => true
  | .execute (.write (.failed _)) => false
  | .execute (.write _) => true
  | .execute (.read _) => s.worker.running || kReadBudget ≤ s.worker.available.length
  | .execute (.poll failure) => failure.isNone

/-- A step of `execute`. -/
def isExecute : Event → Bool
  | .act _ => false
  | .execute _ => true

/-! ### Turns -/

/-- The process has sent, or will send, the octets of a response that is not complete in the
reader yet. -/
structure Awaits (octets : Bytes) (w : Worker) : Prop where
  child : w.child ≠ none
  received_le : w.received ≤ w.flushed
  flushed_le : w.flushed ≤ w.output.length
  untaken : w.responseReader ++ w.output.drop w.received = octets
  short : w.responseReader.length < octets.length

theorem Awaits.available_length {octets : Bytes} {w : Worker} (h : Awaits octets w) :
  w.available.length = w.flushed - w.received
  := by
  have hflushed := h.flushed_le
  rw [Worker.available, List.length_drop, List.length_take]
  omega

/-- What is in the reader and in the pipe fits the buffer. -/
theorem Awaits.fits
    {response : Frame} {octets : Bytes} {w : Worker} (h : Awaits octets w)
    (hencoded : encodeFrame response = .ok octets) :
  w.responseReader.length + w.available.length ≤ kMaxBufferedFrame
  := by
  have hmax := encodeFrame_length_le hencoded
  have hlength := congrArg List.length h.untaken
  have hflushed := h.flushed_le
  have havailable := h.available_length
  rw [List.length_append, List.length_drop] at hlength
  omega

/-- A turn that does not come to the end of the output: it moves what is in the pipe, or as much
as it may read, and then takes a frame. -/
theorem readTurn_before_end
    {w w' : Worker} {reports : Source} {result : Except WireError (Option Frame)}
    (hchild : w.child ≠ none)
    (hsize : w.responseReader.length + w.available.length ≤ kMaxBufferedFrame)
    (hsees : w.running = true ∨ kReadBudget ≤ w.available.length)
    (hturn : w.readTurn reports = some (result, w')) :
  ∃ moved left, w.available = moved ++ left ∧ (w.available ≠ [] → moved ≠ [])
    ∧ takeFrame (w.responseReader ++ moved) = (result, w'.responseReader)
    ∧ w' = { w with
        responseReader := w'.responseReader, received := w.received + moved.length }
  := by
  rw [Worker.readTurn, if_neg hchild] at hturn
  split_ifs at hturn with hreports
  obtain ⟨hopen, hcontent⟩ := hreports
  rw [← hcontent] at hsize
  by_cases hless : w.available.length < kReadBudget
  · have hlast : w.lastReport = .wouldBlock := by
      rw [Worker.lastReport, if_pos (hsees.resolve_right (by omega))]
    rw [hlast, readAvailable_all hopen hsize (by rw [hcontent]; exact hless), hcontent] at hturn
    cases hturn
    refine ⟨w.available, [], (List.append_nil _).symm, id, rfl, ?_⟩
    simp [Source.content]
  · obtain ⟨rest, hread, hrest⟩ := readAvailable_part w.lastReport hopen hsize
      (by rw [hcontent]; omega)
    rw [hread, hcontent] at hturn
    cases hturn
    have hend : Source.content [w.lastReport] = [] := by
      rw [Worker.lastReport]
      split_ifs <;> rfl
    rw [hcontent, hend, List.append_nil] at hrest
    refine ⟨w.available.take kReadBudget, w.available.drop kReadBudget,
      (List.take_append_drop _ _).symm, ?_, rfl, ?_⟩
    · intro _ hnil
      have hlength := congrArg List.length hnil
      simp only [List.length_take, List.length_nil, kReadBudget] at hlength hless
      omega
    · have hmoved : w.available.length - rest.content.length
          = (w.available.take kReadBudget).length := by
        rw [hrest, List.length_drop, List.length_take]
        omega
      simp only [hmoved]

/-- A turn that does not come to the end of the output returns the response, or no frame while
the response is not complete. -/
theorem Awaits.turn
    {response : Frame} {octets : Bytes} {w w' : Worker} {reports : Source}
    {result : Except WireError (Option Frame)} (h : Awaits octets w)
    (hencoded : encodeFrame response = .ok octets)
    (hsees : w.running = true ∨ kReadBudget ≤ w.available.length)
    (hturn : w.readTurn reports = some (result, w')) :
  result = .ok (some response)
    ∨ (result = .ok none ∧ Awaits octets w'
      ∧ (w.available ≠ [] → w.responseReader.length < w'.responseReader.length))
  := by
  have hreceived := h.received_le
  have havailable := h.available_length
  obtain ⟨moved, left, hmoved, hsome, htake, hw'⟩ :=
    readTurn_before_end h.child (h.fits hencoded) hsees hturn
  have hparse := parseFrame_encodeFrame hencoded []
  rw [List.append_nil] at hparse
  have hsplit : octets = (w.responseReader ++ moved)
      ++ w.output.drop (w.received + moved.length) := by
    rw [List.append_assoc, ← Worker.output_drop hmoved, h.untaken]
  rcases parseFrame_streaming.run_of_append hparse hsplit with ⟨hwaiting, hless⟩ | ⟨hdone, -⟩
  · right
    have hspec := takeFrame_eq (w.responseReader ++ moved)
    rw [hwaiting] at hspec
    simp only [htake, Prod.mk.injEq] at hspec
    obtain ⟨rfl, hreader⟩ := hspec
    rw [List.length_append, List.length_nil] at hless
    have hin : moved.length ≤ w.flushed - w.received := by
      rw [← havailable, hmoved, List.length_append]
      omega
    refine ⟨rfl, ?_, ?_⟩
    · rw [hw']
      refine ⟨h.child, ?_, h.flushed_le, ?_, ?_⟩
      · simp only
        omega
      · simp only [hreader]
        exact hsplit.symm
      · simp only [hreader, List.length_append]
        omega
    · intro hnonempty
      have hpos := List.length_pos_iff.mpr (hsome hnonempty)
      rw [hreader, List.length_append]
      omega
  · left
    have hspec := takeFrame_eq (w.responseReader ++ moved)
    rw [hdone] at hspec
    simp only [htake, Prod.mk.injEq] at hspec
    exact hspec.1

/-- A turn that comes to the end of the output throws, even when the response is in the pipe. -/
theorem Awaits.turn_at_end
    {response : Frame} {octets : Bytes} {w w' : Worker} {reports : Source}
    {result : Except WireError (Option Frame)} (h : Awaits octets w)
    (hencoded : encodeFrame response = .ok octets) (hrun : w.running = false)
    (hless : w.available.length < kReadBudget)
    (hturn : w.readTurn reports = some (result, w')) :
  w'.running = false ∧ ∃ e, result = .error e
  := by
  have hreports := hturn
  rw [Worker.readTurn, if_neg h.child] at hreports
  split_ifs at hreports with hdelivers
  obtain ⟨e, buffer, received, hclosed⟩ := Worker.readTurn_closed h.child hrun hdelivers.1
    hdelivers.2 (h.fits hencoded) hless
  cases hturn.symm.trans hclosed
  exact ⟨hrun, e, rfl⟩

/-- The process goes on with its output, or it exits when all of it is in the pipe. -/
theorem Awaits.act
    {octets : Bytes} {w w' : Worker} {a : Worker.Act} (h : Awaits octets w)
    (hmay : mayAct w a = true) (hact : w.act a = some w') :
  Awaits octets w' ∧ w'.responseReader = w.responseReader ∧ w'.output = w.output
    ∧ w.flushed ≤ w'.flushed
  := by
  rw [Worker.act.eq_def, if_pos (Worker.act_running hact)] at hact
  have hexit : ∀ state, Awaits octets (w.exitAs state) := by
    intro state
    refine ⟨?_, h.received_le, h.flushed_le, h.untaken, h.short⟩
    simpa [Worker.exitAs] using h.child
  cases a with
  | exit status =>
      cases hact
      exact ⟨hexit _, rfl, rfl, le_rfl⟩
  | vanish =>
      cases hact
      exact ⟨hexit _, rfl, rfl, le_rfl⟩
  | read count =>
      simp only at hact
      split_ifs at hact
      cases hact
      exact ⟨⟨h.child, h.received_le, h.flushed_le, h.untaken, h.short⟩, rfl, rfl, le_rfl⟩
  | send octets => cases hmay
  | flush count =>
      simp only at hact
      split_ifs at hact with hroom
      cases hact
      refine ⟨⟨h.child, ?_, hroom, h.untaken, h.short⟩, rfl, rfl, Nat.le_add_right _ _⟩
      apply h.received_le.trans (Nat.le_add_right _ _)

/-! ### Steps -/

/-- The phases of a call that nothing has ended. -/
def Proceeds : Phase → Prop
  | .writeFailed _ => False
  | .readFailed _ => False
  | .lastReading _ => False
  | _ => True

theorem proceeds_sendLoop (request : Bytes) (offset : Nat) :
  Proceeds (Execute.sendLoop request offset)
  := by
  rw [Execute.sendLoop]
  split_ifs <;> trivial

/-- How many steps there are before the next turn. -/
def untilTurn : Phase → Nat
  | .checking => 3
  | .probing => 2
  | .polling => 1
  | _ => 0

/-- Everything that a step of a call can do that sees no exit, when nothing hinders the call. -/
inductive Proceeding (c : Call) (w : Worker) : Phase → Input → Worker → Progress → Prop where
  | kept {phase phase' : Phase} {input : Input} (hproceeds : Proceeds phase')
      (hnext : Execute.stage phase = .receiving →
        Execute.stage phase' = .receiving ∧ untilTurn phase' < untilTurn phase) :
      Proceeding c w phase input w (.goesOn phase')
  | wrote (request : Bytes) (offset count : Nat) :
      Proceeding c w (.writing request offset) (.write (.wrote count))
        (w.writeRequest c.attempt c.correlationId request offset count)
        (.goesOn (Execute.sendLoop request (offset + count)))
  | turned {reports : Source} {w' : Worker} {progress : Progress}
      (hread : Execute.read c w reports (fun w => (w, .goesOn .checking)) = some (w', progress)) :
      Proceeding c w .reading (.read reports) w' progress

/-- A step before the response loop. -/
theorem Proceeding.before
    {c : Call} {w : Worker} {phase phase' : Phase} {input : Input} (hproceeds : Proceeds phase')
    (hstage : Execute.stage phase ≠ .receiving) :
  Proceeding c w phase input w (.goesOn phase')
  := by
  apply Proceeding.kept hproceeds
  intro hreceiving
  exact absurd hreceiving hstage

theorem unhindered_answers
    {c : Call} {stopping : Bool} {cancellation : Except Bytes Bool} {nowMs : Int64}
    (h : unhindered c (.answers stopping cancellation nowMs) = true) :
  stopping = false ∧ c.stopTimeReached nowMs = false ∧ cancellation = .ok false
  := by
  match cancellation with
  | .error what => simp [unhindered] at h
  | .ok cancelled => simpa [unhindered, and_assoc] using h

theorem Proceeding.probed
    {c : Call} {w : Worker} {phase phase' : Phase} (hrun : w.running = true)
    (h : Proceeding c w phase .probe w (.goesOn phase')) :
  Proceeding c w phase .probe (Execute.probed w fun w => (w, .goesOn phase')).1
    (Execute.probed w fun w => (w, .goesOn phase')).2
  := by
  rw [Execute.probed, Worker.alive_of_running hrun]
  exact h

theorem polled_proceeding
    {c : Call} {s : Exchange} {phase phase' : Phase} {failure : Option Bytes} {what : String}
    (hsees : seesNoExit s (.execute (.poll failure)) = true)
    (h : Proceeding c s.worker phase (.poll none) s.worker (.goesOn phase')) :
  Proceeding c s.worker phase (.poll failure)
    (Execute.polled s.worker failure what phase').1 (Execute.polled s.worker failure what phase').2
  := by
  cases failure with
  | none => exact h
  | some reason => cases hsees

theorem checkSending_proceeding
    {c : Call} {w : Worker} {request : Bytes} {offset : Nat} {stopping : Bool}
    {cancellation : Except Bytes Bool} {nowMs : Int64}
    (h : unhindered c (.answers stopping cancellation nowMs) = true) :
  Proceeding c w (.sending request offset) (.answers stopping cancellation nowMs)
    (Execute.checkSending c w request offset stopping cancellation nowMs).1
    (Execute.checkSending c w request offset stopping cancellation nowMs).2
  := by
  obtain ⟨rfl, htime, rfl⟩ := unhindered_answers h
  rw [Execute.checkSending, if_neg Bool.false_ne_true]
  simp only [htime, Bool.false_eq_true, if_false]
  exact Proceeding.before trivial (by simp [Execute.stage])

theorem check_proceeding
    {c : Call} {w : Worker} {stopping : Bool} {cancellation : Except Bytes Bool} {nowMs : Int64}
    (h : unhindered c (.answers stopping cancellation nowMs) = true) :
  Proceeding c w .checking (.answers stopping cancellation nowMs)
    (Execute.check c w stopping cancellation nowMs).1
    (Execute.check c w stopping cancellation nowMs).2
  := by
  obtain ⟨rfl, htime, rfl⟩ := unhindered_answers h
  rw [Execute.check, if_neg Bool.false_ne_true]
  simp only [htime, Bool.false_eq_true, if_false]
  exact Proceeding.kept trivial fun _ => ⟨rfl, Nat.lt_succ_self _⟩

theorem write_proceeding
    {c : Call} {s : Exchange} {request : Bytes} {offset : Nat} {result : WriteResult}
    {w' : Worker} {progress : Progress}
    (hsees : seesNoExit s (.execute (.write result)) = true)
    (h : Execute.write c s.worker request offset result = some (w', progress)) :
  Proceeding c s.worker (.writing request offset) (.write result) w' progress
  := by
  cases result with
  | wrote count =>
      rw [Execute.write] at h
      split_ifs at h
      cases h
      exact Proceeding.wrote request offset count
  | blocked =>
      cases h
      exact Proceeding.before trivial (by simp [Execute.stage])
  | failed reason => cases hsees

theorem step_proceeding
    {c : Call} {s : Exchange} {phase : Phase} {input : Input} {w' : Worker} {progress : Progress}
    (hproceeds : Proceeds phase)
    (hrequest : ∃ request, encodeFrame (c.requestFrame s.worker.engineId) = .ok request)
    (hunhindered : unhindered c input = true) (hsees : seesNoExit s (.execute input) = true)
    (h : Execute.step c s.worker phase input = some (w', progress)) :
  Proceeding c s.worker phase input w' progress
  := by
  have hresult : ∀ {result : Worker × Progress}, some result = some (w', progress) →
      Proceeding c s.worker phase input result.1 result.2 →
      Proceeding c s.worker phase input w' progress := by
    intro result heq hproceeding
    cases heq
    exact hproceeding
  rw [Execute.step.eq_def] at h
  split at h
  · apply hresult h
    obtain ⟨request, hencode⟩ := hrequest
    rw [Execute.enter, Execute.probed, Worker.alive_of_running hsees]
    simp only [hencode]
    exact Proceeding.before (proceeds_sendLoop request 0) (by simp [Execute.stage])
  · apply hresult h
    apply checkSending_proceeding hunhindered
  · apply hresult h
    apply Proceeding.probed hsees
    exact Proceeding.before trivial (by simp [Execute.stage])
  · apply write_proceeding hsees h
  · cases hproceeds
  · apply hresult h
    apply polled_proceeding hsees
    exact Proceeding.before (proceeds_sendLoop _ _) (by simp [Execute.stage])
  · exact Proceeding.turned h
  · cases hproceeds
  · apply hresult h
    apply check_proceeding hunhindered
  · cases hproceeds
  · apply hresult h
    apply Proceeding.probed hsees
    exact Proceeding.kept trivial fun _ => ⟨rfl, Nat.lt_succ_self _⟩
  · apply hresult h
    apply polled_proceeding hsees
    exact Proceeding.kept trivial fun _ => ⟨rfl, Nat.lt_succ_self _⟩
  · cases h

/-- A response to the call determines what it returns. -/
theorem Answers.finishResponse
    {c : Call} {response : Frame} {octets : Bytes} (h : Answers c response octets) (w : Worker) :
  (Execute.finishResponse c w response).2 = outcomeOf response
  := by
  rw [Execute.finishResponse, if_neg (not_not.mpr h.correlationId), outcomeOf]
  split_ifs with hresult hfailure
  · rfl
  · rfl
  · exact absurd h.type (not_or.mpr ⟨hresult, hfailure⟩)

/-! ### Runs that see no exit -/

/-- The call waits for the response, or it has returned what the response determines. -/
def OnCourse (c : Call) (response : Frame) (octets : Bytes) (s : Exchange) : Prop :=
  match s.progress with
  | .goesOn phase =>
      Awaits octets s.worker ∧ Proceeds phase
        ∧ ∃ request, encodeFrame (c.requestFrame s.worker.engineId) = .ok request
  | .returned outcome => outcome = outcomeOf response
  | .threw _ => False

/-- The request is written, and the response is in the pipe or in the reader. -/
def Delivered (s : Exchange) : Prop :=
  match s.progress with
  | .goesOn phase =>
      Execute.stage phase = .receiving ∧ s.worker.flushed = s.worker.output.length
  | _ => True

/-- It decreases with every step of a call that the response is delivered to. -/
def rank (octets : Bytes) (s : Exchange) : Nat :=
  match s.progress with
  | .goesOn phase => 4 * (octets.length - s.worker.responseReader.length) + untilTurn phase
  | _ => 0

section

variable {c : Call} {response : Frame} {octets : Bytes}

/-- An act of the process. -/
theorem OnCourse.act
    {s : Exchange} {a : Worker.Act} {w : Worker} (h : OnCourse c response octets s)
    (hmay : mayAct s.worker a = true) (hact : s.worker.act a = some w) :
  OnCourse c response octets ⟨w, s.progress⟩
    ∧ (Delivered s → Delivered ⟨w, s.progress⟩ ∧ rank octets ⟨w, s.progress⟩ = rank octets s)
  := by
  obtain ⟨worker, progress⟩ := s
  cases progress with
  | goesOn phase =>
      obtain ⟨hawaits, hproceeds, hrequest⟩ := h
      obtain ⟨hawaits', hreader, houtput, hflushed⟩ := hawaits.act hmay hact
      constructor
      · refine ⟨hawaits', hproceeds, ?_⟩
        simp only
        rw [(Worker.act_later hact).1.engineId]
        exact hrequest
      · rintro ⟨hstage, hall⟩
        have hle := hawaits'.flushed_le
        simp only at hall hflushed houtput
        simp only [Delivered, rank, hreader, houtput, and_true]
        rw [houtput] at hle
        exact ⟨hstage, by omega⟩
  | returned outcome => exact ⟨h, fun _ => ⟨trivial, rfl⟩⟩
  | threw what => cases h

/-- A step of a call that the process has answered or will answer. -/
theorem OnCourse.proceeding
    {s : Exchange} {phase : Phase} {input : Input} {w : Worker} {progress : Progress}
    (h : OnCourse c response octets s) (hphase : s.progress = .goesOn phase)
    (hanswers : Answers c response octets) (hsees : seesNoExit s (.execute input) = true)
    (hproceeding : Proceeding c s.worker phase input w progress) :
  OnCourse c response octets ⟨w, progress⟩
    ∧ (Delivered s → Delivered ⟨w, progress⟩ ∧ rank octets ⟨w, progress⟩ < rank octets s)
  := by
  rw [OnCourse, hphase] at h
  obtain ⟨hawaits, hproceeds, hrequest⟩ := h
  simp only [Delivered, rank, hphase]
  have hshort := hawaits.short
  cases hproceeding with
  | kept hproceeds' hnext =>
      refine ⟨⟨hawaits, hproceeds', hrequest⟩, ?_⟩
      rintro ⟨hstage, hall⟩
      obtain ⟨hstage', hless⟩ := hnext hstage
      refine ⟨⟨hstage', hall⟩, ?_⟩
      simp only
      omega
  | wrote request offset count =>
      constructor
      · refine ⟨?_, proceeds_sendLoop _ _, hrequest⟩
        exact ⟨hawaits.child, hawaits.received_le, hawaits.flushed_le, hawaits.untaken, hshort⟩
      · rintro ⟨hstage, -⟩
        cases hstage
  | turned hread =>
      rw [Execute.read, Option.map_eq_some_iff] at hread
      obtain ⟨⟨result, w₁⟩, hturn, heq⟩ := hread
      have hsees' : s.worker.running = true ∨ kReadBudget ≤ s.worker.available.length := by
        simpa [seesNoExit] using hsees
      have hlater := (Worker.readTurn_later hturn).1
      obtain ⟨buffer, received, hw₁⟩ := Worker.readTurn_eq hturn
      rcases hawaits.turn hanswers.encoded hsees' hturn with rfl | ⟨rfl, hawaits', hmore⟩
      · cases heq
        refine ⟨hanswers.finishResponse w₁, fun _ => ⟨trivial, ?_⟩⟩
        simp only
        omega
      · cases heq
        constructor
        · refine ⟨hawaits', trivial, ?_⟩
          simp only
          rw [hlater.engineId]
          exact hrequest
        · rintro ⟨-, hall⟩
          -- The pipe is not empty, since the response is not complete in the reader.
          have havailable : s.worker.available ≠ [] := by
            intro hnil
            have huntaken := congrArg List.length hawaits.untaken
            have hlength := hawaits.available_length
            rw [hnil, List.length_nil] at hlength
            rw [List.length_append, List.length_drop] at huntaken
            omega
          have hgrown := hmore havailable
          have hshort' := hawaits'.short
          refine ⟨⟨rfl, ?_⟩, ?_⟩
          · rw [hw₁]
            exact hall
          · simp only [untilTurn]
            omega

/-- A step is an act of the process or a step of the call. -/
theorem step_cases {s s' : Exchange} {e : Event} (h : step c s e = some s') :
  (∃ a w, e = .act a ∧ mayAct s.worker a = true ∧ s.worker.act a = some w
    ∧ s' = ⟨w, s.progress⟩)
  ∨ ∃ input phase w progress, e = .execute input ∧ s.progress = .goesOn phase
    ∧ unhindered c input = true ∧ Execute.step c s.worker phase input = some (w, progress)
    ∧ s' = ⟨w, progress⟩
  := by
  cases e with
  | act a =>
      rw [step] at h
      split_ifs at h with hmay
      obtain ⟨w, hact, rfl⟩ := Option.map_eq_some_iff.mp h
      exact Or.inl ⟨a, w, rfl, hmay, hact, rfl⟩
  | execute input =>
      simp only [step] at h
      split at h
      · rename_i phase hphase
        split_ifs at h with hunhindered
        obtain ⟨⟨w, progress⟩, hexecute, rfl⟩ := Option.map_eq_some_iff.mp h
        exact Or.inr ⟨input, phase, w, progress, rfl, hphase, hunhindered, hexecute, rfl⟩
      · cases h

theorem OnCourse.step
    {s s' : Exchange} {e : Event} (hanswers : Answers c response octets)
    (h : OnCourse c response octets s) (hsees : seesNoExit s e = true)
    (hstep : step c s e = some s') :
  OnCourse c response octets s'
    ∧ (Delivered s → Delivered s' ∧ (isExecute e).toNat + rank octets s' ≤ rank octets s)
  := by
  obtain ⟨a, w, rfl, hmay, hact, rfl⟩
    | ⟨input, phase, w, progress, rfl, hphase, hunhindered, hexecute, rfl⟩ := step_cases hstep
  · obtain ⟨hcourse, hdelivered⟩ := h.act hmay hact
    refine ⟨hcourse, fun hs => ?_⟩
    obtain ⟨hs', hrank⟩ := hdelivered hs
    refine ⟨hs', ?_⟩
    rw [hrank, isExecute, Bool.toNat_false, Nat.zero_add]
  · have hcourse := h
    rw [OnCourse, hphase] at hcourse
    have hproceeding := step_proceeding hcourse.2.1 hcourse.2.2 hunhindered hsees hexecute
    obtain ⟨hcourse', hdelivered⟩ := h.proceeding hphase hanswers hsees hproceeding
    refine ⟨hcourse', fun hs => ?_⟩
    obtain ⟨hs', hrank⟩ := hdelivered hs
    refine ⟨hs', ?_⟩
    rw [isExecute, Bool.toNat_true]
    omega

/-! ### Runs that see the exit -/

/-- The call has crashed, or a read or a write has failed and it is about to. -/
inductive Lost : Exchange → Prop where
  | writing (w : Worker) (reason : Bytes) : Lost ⟨w, .goesOn (.writeFailed reason)⟩
  | reading {w : Worker} (what : Bytes) (hrun : w.running = false) :
      Lost ⟨w, .goesOn (.readFailed what)⟩
  | crashed (w : Worker) (reason : Bytes) : Lost ⟨w, .returned (.crashed reason)⟩

/-- A probe that does not find the process running ends the call with a crash. -/
theorem lost_probed
    {w : Worker} (next : Worker → Worker × Progress) (hrun : w.running = false) :
  Lost ⟨(Execute.probed w next).1, (Execute.probed w next).2⟩
  := by
  obtain ⟨status, halive⟩ := Worker.alive_of_not_running hrun
  rw [Execute.probed, halive]
  apply Lost.crashed

theorem lost_polled
    {s : Exchange} {failure : Option Bytes} {what : String} {next : Phase}
    (hsees : ¬ seesNoExit s (.execute (.poll failure)) = true) :
  Lost ⟨(Execute.polled s.worker failure what next).1,
    (Execute.polled s.worker failure what next).2⟩
  := by
  cases failure with
  | none => exact absurd rfl hsees
  | some reason => apply Lost.crashed

theorem Lost.of_some
    {result : Worker × Progress} {w : Worker} {progress : Progress}
    (heq : some result = some (w, progress)) (h : Lost ⟨result.1, result.2⟩) :
  Lost ⟨w, progress⟩
  := by
  cases heq
  exact h

/-- A call that is lost stays lost. -/
theorem Lost.step
    {s s' : Exchange} {e : Event} (h : Lost s) (hstep : Exchange.step c s e = some s') :
  Lost s'
  := by
  obtain ⟨a, w, rfl, -, hact, rfl⟩
    | ⟨input, phase, w, progress, rfl, hphase, -, hexecute, rfl⟩ := step_cases hstep
  · cases h with
    | writing => apply Lost.writing
    | reading what hrun => cases (Worker.act_running hact).symm.trans hrun
    | crashed => apply Lost.crashed
  · cases h with
    | writing w₀ reason =>
        cases hphase
        cases input with
        | probe =>
            apply Lost.of_some hexecute
            cases hrun : w₀.running with
            | true =>
                simp only [Execute.probed, Worker.alive_of_running hrun]
                apply Lost.crashed
            | false => apply lost_probed _ hrun
        | _ => cases hexecute
    | reading what hrun =>
        cases hphase
        cases input with
        | probe =>
            apply Lost.of_some hexecute
            apply lost_probed _ hrun
        | _ => cases hexecute
    | crashed => cases hphase

/-- A step that sees the exit, or whose system call fails, loses the call. -/
theorem OnCourse.lost
    {s s' : Exchange} {e : Event} (hanswers : Answers c response octets)
    (h : OnCourse c response octets s) (hsees : ¬ seesNoExit s e = true)
    (hstep : Exchange.step c s e = some s') :
  Lost s'
  := by
  obtain ⟨a, w, rfl, -, -, rfl⟩
    | ⟨input, phase, w, progress, rfl, hphase, -, hexecute, rfl⟩ := step_cases hstep
  · exact absurd rfl hsees
  rw [OnCourse, hphase] at h
  obtain ⟨hawaits, hproceeds, -⟩ := h
  rw [Execute.step.eq_def] at hexecute
  split at hexecute
  · apply Lost.of_some hexecute
    apply lost_probed _ (Bool.not_eq_true _ ▸ hsees)
  · exact absurd rfl hsees
  · apply Lost.of_some hexecute
    apply lost_probed _ (Bool.not_eq_true _ ▸ hsees)
  · rename_i result
    cases result with
    | wrote count => exact absurd rfl hsees
    | blocked => exact absurd rfl hsees
    | failed reason =>
        cases hexecute
        apply Lost.writing
  · cases hproceeds
  · apply Lost.of_some hexecute
    apply lost_polled hsees
  · simp only [seesNoExit, Bool.or_eq_true, not_or, Bool.not_eq_true, decide_eq_true_eq,
      Nat.not_le] at hsees
    rw [Execute.read, Option.map_eq_some_iff] at hexecute
    obtain ⟨⟨result, w₁⟩, hturn, heq⟩ := hexecute
    obtain ⟨hrun, e, rfl⟩ := hawaits.turn_at_end hanswers.encoded hsees.1 hsees.2 hturn
    cases heq
    exact Lost.reading _ hrun
  · cases hproceeds
  · exact absurd rfl hsees
  · cases hproceeds
  · apply Lost.of_some hexecute
    apply lost_probed _ (Bool.not_eq_true _ ▸ hsees)
  · apply Lost.of_some hexecute
    apply lost_polled hsees
  · cases hexecute

end

/-! ### The outcome of the call -/

namespace Sample

def call : Call := ⟨0, [], 1, 0, none, false⟩

def response : Frame := ⟨workerResult, 1, ∅, [5]⟩

def octets : Bytes := encodeHeader workerResult 1 0 1 ++ [5]

/-- A worker that is called, and that will send the response. -/
def start : Exchange where
  worker :=
    { Worker.spawn ⟨Bytes.ofString "worker", []⟩ (Bytes.ofString "engine") 7 8 9 0 with
      emitted := [⟨octets, 0⟩] }
  progress := .goesOn .entering

/-- The request is written, and the response is in the pipe. -/
def sentEvents : List Event :=
  [.execute .probe, .execute (.answers false (.ok false) 0), .execute .probe,
    .execute (.write (.wrote 69)), .act (.read 69), .act (.flush 29)]

/-- The call is about to read, and the pipe holds the response. -/
def aboutToRead (s : Exchange) : Bool :=
  (match s.progress with
    | .goesOn phase => phase = .reading
    | _ => false)
  && s.worker.available = octets && s.worker.responseReader = [] && s.worker.child.isSome

theorem progress_of_aboutToRead {s : Exchange} (h : aboutToRead s = true) :
  s.progress = .goesOn .reading ∧ s.worker.available = octets ∧ s.worker.responseReader = []
    ∧ s.worker.child ≠ none
  := by
  simp only [aboutToRead, Bool.and_eq_true, decide_eq_true_eq] at h
  obtain ⟨⟨⟨hphase, havailable⟩, hreader⟩, hchild⟩ := h
  refine ⟨?_, havailable, hreader, Option.isSome_iff_ne_none.mp hchild⟩
  split at hphase
  · rename_i phase hprogress
    rw [hprogress, of_decide_eq_true hphase]
  · cases hphase

end Sample

end Exchange

end Kernel
