import MadreKernel.Kernel.System
import MadreKernel.Pool.Worker

/-!
# Executing an attempt

The calls of `WorkerProcess::execute`, cut at its system calls: each step probes the child,
writes to it, reads a turn of its output, polls, or asks whether the Kernel stops, whether the
Work is cancelled and what time it is.  Between two steps anything else may happen to the
worker: the process acts, and other threads run operations of the pool.
-/

/-- The text of an exception. -/
def WireError.what : WireError → Bytes
  | .framing message => message
  | .runtime message => message

namespace Kernel

open Wire

def workerExecute : UInt16 := 200

def workerResult : UInt16 := 201

def workerFailure : UInt16 := 202

/-- The arguments of `execute`, and the number of the attempt that calls it. -/
structure Call where
  attempt : Nat
  payload : Bytes
  correlationId : UInt64
  attemptStartedAtMs : Int64
  stopAtMs : Option Int64
  timeoutWins : Bool
  deriving DecidableEq

namespace Call

/-- The frame that is sent to the worker of an engine. -/
def requestFrame (c : Call) (engineId : Bytes) : Frame where
  type := workerExecute
  correlationId := c.correlationId
  metadata := SortedMap.ofEntries
    [(Bytes.ofString "engine_id", engineId),
      (Bytes.ofString "attempt_started_at_ms",
        Bytes.ofString (toString c.attemptStartedAtMs.toInt))]
  payload := c.payload

/-- `stop_at_ms && now_ms() >= *stop_at_ms` -/
def stopTimeReached (c : Call) (nowMs : Int64) : Bool := c.stopAtMs.any (· ≤ nowMs)

def timeoutFailure (c : Call) : Bytes :=
  if c.timeoutWins then Bytes.ofString "ATTEMPT_TIMEOUT: per-attempt timeout expired"
  else Bytes.ofString "DEADLINE_EXPIRED: Work deadline expired during attempt"

end Call

/-- Why `execute` reads for a last time. -/
inductive Verdict where
  | cancelled
  | timedOut
  deriving DecidableEq

/-- Where a call of `execute` stands.  The phases of the request loop carry `request_bytes` and
`request_offset`. -/
inductive Phase where
  | entering
  /-- at the head of the request loop -/
  | sending (request : Bytes) (offset : Nat)
  /-- before `alive` in the request loop -/
  | probingToSend (request : Bytes) (offset : Nat)
  | writing (request : Bytes) (offset : Nat)
  /-- a write has failed -/
  | writeFailed (reason : Bytes)
  | pollingToSend (request : Bytes) (offset : Nat)
  /-- at the head of the response loop -/
  | reading
  /-- `read_available` has thrown -/
  | readFailed (what : Bytes)
  /-- after a turn without a response -/
  | checking
  /-- before the last turn -/
  | lastReading (verdict : Verdict)
  /-- before `alive` in the response loop -/
  | probing
  | polling
  deriving DecidableEq

inductive WriteResult where
  | wrote (count : Nat)
  /-- nothing was written: the pipe is full, or the call was interrupted -/
  | blocked
  | failed (reason : Bytes)

/-- What the environment answers at a step. -/
inductive Input where
  /-- `waitpid` -/
  | probe
  /-- the answers of `kernel_stopping`, `cancellation_requested` and `now_ms` -/
  | answers (stopping : Bool) (cancellation : Except Bytes Bool) (nowMs : Int64)
  | write (result : WriteResult)
  | read (reports : Source)
  | poll (failure : Option Bytes)

/-- What a step comes to. -/
inductive Progress where
  | goesOn (phase : Phase)
  | returned (outcome : WorkerOutcome)
  | threw (what : Bytes)

namespace Execute

/-- What `execute` returns for a child that is gone. -/
def crash (w : Worker) : WorkerOutcome :=
  .crashed (Bytes.ofString "WORKER_CRASH: " ++ w.exitDescription)

/-- A probe of the child: the call goes on when the child runs. -/
def probed (w : Worker) (next : Worker → Worker × Progress) : Worker × Progress :=
  match w.alive with
  | (false, w) => (w, .returned (crash w))
  | (true, w) => next w

/-- The condition of the request loop. -/
def sendLoop (request : Bytes) (offset : Nat) : Phase :=
  if offset < request.length then .sending request offset else .reading

/-- `execute` before its request loop. -/
def enter (c : Call) (w : Worker) : Worker × Progress :=
  probed w fun w =>
    match encodeFrame (c.requestFrame w.engineId) with
    | .error e =>
        (w.terminate,
          .returned (.technicalFailure (Bytes.ofString "WORKER_PROTOCOL_FAILURE: " ++ e.what)))
    | .ok request => (w, .goesOn (sendLoop request 0))

/-- The checks at the head of the request loop. -/
def checkSending (c : Call) (w : Worker) (request : Bytes) (offset : Nat) (stopping : Bool)
    (cancellation : Except Bytes Bool) (nowMs : Int64) : Worker × Progress :=
  if stopping then (w.terminate, .returned .stopped)
  else
    match cancellation with
    | .error what => (w, .threw what)
    | .ok true => (w.terminate, .returned .cancelled)
    | .ok false =>
        if c.stopTimeReached nowMs then (w.terminate, .returned (.timedOut c.timeoutFailure))
        else (w, .goesOn (.probingToSend request offset))

/-- The write of the request loop.  Octets reach the pipe of a process that runs only. -/
def write (c : Call) (w : Worker) (request : Bytes) (offset : Nat) :
    WriteResult → Option (Worker × Progress)
  | .wrote count =>
      if w.running ∧ 0 < count ∧ offset + count ≤ request.length then
        some (w.writeRequest c.attempt c.correlationId request offset count,
          .goesOn (sendLoop request (offset + count)))
      else none
  | .blocked => some (w, .goesOn (.pollingToSend request offset))
  | .failed reason => some (w, .goesOn (.writeFailed reason))

/-- `finish_response` -/
def finishResponse (c : Call) (w : Worker) (response : Frame) : Worker × WorkerOutcome :=
  if response.correlationId ≠ c.correlationId then
    (w.terminate, .technicalFailure
      (Bytes.ofString "WORKER_PROTOCOL_FAILURE: correlation id mismatch"))
  else if response.type = workerResult then
    ({ w with answered := w.answered ++ [c.attempt] }, .succeeded response.payload)
  else if response.type = workerFailure then
    ({ w with answered := w.answered ++ [c.attempt] },
      .technicalFailure ((response.metadata.find? (Bytes.ofString "technical_failure")).getD
        (Bytes.ofString "WORKER_PROTOCOL_FAILURE: missing technical failure")))
  else
    (w.terminate, .technicalFailure
      (Bytes.ofString "WORKER_PROTOCOL_FAILURE: unexpected worker response"))

/-- A turn of the response loop; `silent` is what follows a turn without a response. -/
def read (c : Call) (w : Worker) (reports : Source) (silent : Worker → Worker × Progress) :
    Option (Worker × Progress) :=
  (w.readTurn reports).map fun (result, w) =>
    match result with
    | .ok (some response) =>
        ((finishResponse c w response).1, .returned (finishResponse c w response).2)
    | .ok none => silent w
    | .error e => (w, .goesOn (.readFailed e.what))

/-- The checks of the response loop. -/
def check (c : Call) (w : Worker) (stopping : Bool) (cancellation : Except Bytes Bool)
    (nowMs : Int64) : Worker × Progress :=
  if stopping then (w.terminate, .returned .stopped)
  else
    match cancellation with
    | .error what => (w, .threw what)
    | .ok true => (w, .goesOn (.lastReading .cancelled))
    | .ok false =>
        if c.stopTimeReached nowMs then (w, .goesOn (.lastReading .timedOut))
        else (w, .goesOn .probing)

/-- The outcome of a verdict. -/
def conclude (c : Call) : Verdict → WorkerOutcome
  | .cancelled => .cancelled
  | .timedOut => .timedOut c.timeoutFailure

/-- A poll: the call goes on unless the poll fails. -/
def polled (w : Worker) (failure : Option Bytes) (what : String) (next : Phase) :
    Worker × Progress :=
  match failure with
  | none => (w, .goesOn next)
  | some reason => (w.terminate, .returned (.crashed (Bytes.ofString what ++ reason)))

/-- A step of a call of `execute`; an answer that the phase does not ask for is refused. -/
def step (c : Call) (w : Worker) : Phase → Input → Option (Worker × Progress)
  | .entering, .probe => some (enter c w)
  | .sending request offset, .answers stopping cancellation nowMs =>
      some (checkSending c w request offset stopping cancellation nowMs)
  | .probingToSend request offset, .probe =>
      some (probed w fun w => (w, .goesOn (.writing request offset)))
  | .writing request offset, .write result => write c w request offset result
  | .writeFailed reason, .probe =>
      some (probed w fun w => (w.terminate, .returned (.crashed
        (Bytes.ofString "WORKER_IPC_FAILURE: request write failed: " ++ reason))))
  | .pollingToSend request offset, .poll failure =>
      some (polled w failure "WORKER_IPC_FAILURE: request poll failed: " (sendLoop request offset))
  | .reading, .read reports => read c w reports fun w => (w, .goesOn .checking)
  | .readFailed what, .probe =>
      some (probed w fun w => (w.terminate, .returned (.technicalFailure
        (Bytes.ofString "WORKER_PROTOCOL_FAILURE: " ++ what))))
  | .checking, .answers stopping cancellation nowMs =>
      some (check c w stopping cancellation nowMs)
  | .lastReading verdict, .read reports =>
      read c w reports fun w => (w.terminate, .returned (conclude c verdict))
  | .probing, .probe => some (probed w fun w => (w, .goesOn .polling))
  | .polling, .poll failure =>
      some (polled w failure "WORKER_IPC_FAILURE: poll failed: " .reading)
  | _, _ => none

/-! ### What a step does -/

/-- The parts of `execute`. -/
inductive Stage where
  | entering
  | sending (request : Bytes) (offset : Nat)
  | receiving
  /-- a call has failed, and the child is about to be killed -/
  | failed

def stage : Phase → Stage
  | .entering => .entering
  | .sending request offset => .sending request offset
  | .probingToSend request offset => .sending request offset
  | .writing request offset => .sending request offset
  | .writeFailed _ => .failed
  | .pollingToSend request offset => .sending request offset
  | .reading => .receiving
  | .readFailed _ => .failed
  | .checking => .receiving
  | .lastReading _ => .receiving
  | .probing => .receiving
  | .polling => .receiving

/-- Everything that a step of `execute` can do. -/
inductive Moves (c : Call) (w : Worker) : Phase → Input → Worker → Progress → Prop where
  /-- The child was found dead, or it was killed. -/
  | ended {phase : Phase} {input : Input} {outcome : WorkerOutcome} (buffer : Bytes)
      (received : Nat) (status : Option UInt32) (hfailed : ∀ payload, outcome ≠ .succeeded payload) :
      Moves c w phase input
        { w with
          responseReader := buffer, received := received, child := none, lastWaitStatus := status }
        (.returned outcome)
  | entered {request : Bytes} (hrun : w.running = true)
      (hencode : encodeFrame (c.requestFrame w.engineId) = .ok request) :
      Moves c w .entering .probe w (.goesOn (sendLoop request 0))
  | threwSending (request : Bytes) (offset : Nat) (what : Bytes) (nowMs : Int64) :
      Moves c w (.sending request offset) (.answers false (.error what) nowMs) w (.threw what)
  | threwChecking (what : Bytes) (nowMs : Int64) :
      Moves c w .checking (.answers false (.error what) nowMs) w (.threw what)
  /-- A step within a stage. -/
  | kept {phase phase' : Phase} {input : Input} (hstage : stage phase' = stage phase)
      (hnot : stage phase ≠ .failed) :
      Moves c w phase input w (.goesOn phase')
  | failedWrite {request : Bytes} {offset : Nat} (reason : Bytes) :
      Moves c w (.writing request offset) (.write (.failed reason)) w
        (.goesOn (.writeFailed reason))
  | resent (request : Bytes) (offset : Nat) :
      Moves c w (.pollingToSend request offset) (.poll none) w (.goesOn (sendLoop request offset))
  | wrote {request : Bytes} {offset count : Nat} (hrun : w.running = true) (hpos : 0 < count)
      (hle : offset + count ≤ request.length) :
      Moves c w (.writing request offset) (.write (.wrote count))
        (w.writeRequest c.attempt c.correlationId request offset count)
        (.goesOn (sendLoop request (offset + count)))
  | readNothing {phase phase' : Phase} {reports : Source} {w' : Worker}
      (hstage : stage phase = .receiving) (hstage' : stage phase' = .receiving)
      (hturn : w.readTurn reports = some (.ok none, w')) :
      Moves c w phase (.read reports) w' (.goesOn phase')
  | failedRead {phase phase' : Phase} {reports : Source} {w' : Worker} {e : WireError}
      (hstage : stage phase = .receiving) (hstage' : stage phase' = .failed)
      (hturn : w.readTurn reports = some (.error e, w')) :
      Moves c w phase (.read reports) w' (.goesOn phase')
  /-- A response to the request was taken. -/
  | answered {phase : Phase} {reports : Source} {w' : Worker} {response : Frame}
      {outcome : WorkerOutcome} (hstage : stage phase = .receiving)
      (hturn : w.readTurn reports = some (.ok (some response), w'))
      (hcorrelation : response.correlationId = c.correlationId)
      (hsucceeded : ∀ payload, outcome = .succeeded payload →
        response.type = workerResult ∧ response.payload = payload) :
      Moves c w phase (.read reports) { w' with answered := w'.answered ++ [c.attempt] }
        (.returned outcome)

theorem Moves.killed
    {c : Call} {w : Worker} {phase : Phase} {input : Input} {outcome : WorkerOutcome}
    (h : ∀ payload, outcome ≠ .succeeded payload) :
  Moves c w phase input w.terminate (.returned outcome)
  := by
  obtain ⟨status, hw⟩ := w.terminate_eq
  rw [hw]
  exact Moves.ended w.responseReader w.received status h

/-- A probe ends the call, or goes on with the worker as it was. -/
theorem Moves.probed
    {c : Call} {w : Worker} {phase : Phase} {input : Input} {next : Worker → Worker × Progress}
    (h : w.running = true → Moves c w phase input (next w).1 (next w).2) :
  Moves c w phase input (probed w next).1 (probed w next).2
  := by
  cases hrun : w.running with
  | true =>
      rw [Execute.probed, Worker.alive_of_running hrun]
      exact h hrun
  | false =>
      obtain ⟨status, halive⟩ := Worker.alive_of_not_running hrun
      rw [Execute.probed, halive]
      exact Moves.ended w.responseReader w.received status (by simp [crash])

theorem Moves.polled
    {c : Call} {w : Worker} {phase : Phase} {failure : Option Bytes} {what : String} {next : Phase}
    (h : Moves c w phase (.poll none) w (.goesOn next)) :
  Moves c w phase (.poll failure) (polled w failure what next).1 (polled w failure what next).2
  := by
  cases failure with
  | none => exact h
  | some reason => exact Moves.killed (by simp)

theorem Moves.finished
    {c : Call} {w w' : Worker} {phase : Phase} {reports : Source} {response : Frame}
    (hstage : stage phase = .receiving)
    (hturn : w.readTurn reports = some (.ok (some response), w')) :
  Moves c w phase (.read reports) (finishResponse c w' response).1
    (.returned (finishResponse c w' response).2)
  := by
  obtain ⟨buffer, received, hw'⟩ := Worker.readTurn_eq hturn
  have hkilled : ∀ text, Moves c w phase (.read reports) w'.terminate
      (.returned (.technicalFailure text)) := by
    intro text
    obtain ⟨status, hw⟩ := w'.terminate_eq
    rw [hw, hw']
    exact Moves.ended buffer received status (by simp)
  rw [finishResponse]
  split_ifs with hmismatch hresult hfailure
  · apply hkilled
  · apply Moves.answered hstage hturn (not_not.mp hmismatch)
    intro payload heq
    cases heq
    exact ⟨hresult, rfl⟩
  · apply Moves.answered hstage hturn (not_not.mp hmismatch)
    intro payload heq
    cases heq
  · apply hkilled

theorem read_moves
    {c : Call} {w w' : Worker} {phase : Phase} {reports : Source} {progress : Progress}
    {silent : Worker → Worker × Progress} (hstage : stage phase = .receiving)
    (hsilent : ∀ w₁, w.readTurn reports = some (.ok none, w₁) →
      Moves c w phase (.read reports) (silent w₁).1 (silent w₁).2)
    (h : read c w reports silent = some (w', progress)) :
  Moves c w phase (.read reports) w' progress
  := by
  rw [read, Option.map_eq_some_iff] at h
  obtain ⟨⟨result, w₁⟩, hturn, heq⟩ := h
  match result with
  | .ok (some response) =>
      cases heq
      exact Moves.finished hstage hturn
  | .ok none =>
      have hmoves := hsilent w₁ hturn
      rw [show silent w₁ = (w', progress) from heq] at hmoves
      exact hmoves
  | .error e =>
      cases heq
      exact Moves.failedRead hstage rfl hturn

theorem enter_moves (c : Call) (w : Worker) :
  Moves c w .entering .probe (enter c w).1 (enter c w).2
  := by
  rw [enter]
  apply Moves.probed
  intro hrun
  split
  · exact Moves.killed (by simp)
  · rename_i request hencode
    exact Moves.entered hrun hencode

theorem checkSending_moves
    (c : Call) (w : Worker) (request : Bytes) (offset : Nat) (stopping : Bool)
    (cancellation : Except Bytes Bool) (nowMs : Int64) :
  Moves c w (.sending request offset) (.answers stopping cancellation nowMs)
    (checkSending c w request offset stopping cancellation nowMs).1
    (checkSending c w request offset stopping cancellation nowMs).2
  := by
  rw [checkSending.eq_def]
  cases stopping with
  | true => exact Moves.killed (by simp)
  | false =>
      simp only [Bool.false_eq_true, if_false]
      match cancellation with
      | .error what => exact Moves.threwSending request offset what nowMs
      | .ok true => exact Moves.killed (by simp)
      | .ok false =>
          simp only
          split_ifs
          · exact Moves.killed (by simp)
          · exact Moves.kept rfl nofun

theorem check_moves
    (c : Call) (w : Worker) (stopping : Bool) (cancellation : Except Bytes Bool) (nowMs : Int64) :
  Moves c w .checking (.answers stopping cancellation nowMs)
    (check c w stopping cancellation nowMs).1 (check c w stopping cancellation nowMs).2
  := by
  rw [check.eq_def]
  cases stopping with
  | true => exact Moves.killed (by simp)
  | false =>
      simp only [Bool.false_eq_true, if_false]
      match cancellation with
      | .error what => exact Moves.threwChecking what nowMs
      | .ok true => exact Moves.kept rfl nofun
      | .ok false =>
          simp only
          split_ifs
          · exact Moves.kept rfl nofun
          · exact Moves.kept rfl nofun

theorem write_moves
    {c : Call} {w w' : Worker} {request : Bytes} {offset : Nat} {result : WriteResult}
    {progress : Progress} (h : write c w request offset result = some (w', progress)) :
  Moves c w (.writing request offset) (.write result) w' progress
  := by
  cases result with
  | wrote count =>
      rw [write] at h
      split_ifs at h with hwrote
      cases h
      exact Moves.wrote hwrote.1 hwrote.2.1 hwrote.2.2
  | blocked =>
      cases h
      exact Moves.kept rfl nofun
  | failed reason =>
      cases h
      exact Moves.failedWrite reason

/-- The last turn, when it returns no response. -/
theorem conclude_moves
    {c : Call} {w w' : Worker} {phase : Phase} {reports : Source} (verdict : Verdict)
    (hturn : w.readTurn reports = some (.ok none, w')) :
  Moves c w phase (.read reports) w'.terminate (.returned (conclude c verdict))
  := by
  obtain ⟨buffer, received, rfl⟩ := Worker.readTurn_eq hturn
  obtain ⟨status, hw⟩ := Worker.terminate_eq
    { w with responseReader := buffer, received := received }
  rw [hw]
  apply Moves.ended
  cases verdict <;> simp [conclude]

theorem step_moves
    {c : Call} {w w' : Worker} {phase : Phase} {input : Input} {progress : Progress}
    (h : step c w phase input = some (w', progress)) :
  Moves c w phase input w' progress
  := by
  have hresult : ∀ {result : Worker × Progress}, some result = some (w', progress) →
      Moves c w phase input result.1 result.2 → Moves c w phase input w' progress := by
    intro result heq hmoves
    cases heq
    exact hmoves
  rw [step.eq_def] at h
  split at h
  · apply hresult h
    apply enter_moves
  · apply hresult h
    apply checkSending_moves
  · apply hresult h
    apply Moves.probed
    exact fun _ => Moves.kept rfl nofun
  · apply write_moves h
  · apply hresult h
    apply Moves.probed
    exact fun _ => Moves.killed (by simp)
  · apply hresult h
    apply Moves.polled (Moves.resent _ _)
  · apply read_moves rfl _ h
    intro w₁ hturn
    exact Moves.readNothing rfl rfl hturn
  · apply hresult h
    apply Moves.probed
    exact fun _ => Moves.killed (by simp)
  · apply hresult h
    apply check_moves
  · apply read_moves rfl _ h
    intro w₁ hturn
    apply conclude_moves _ hturn
  · apply hresult h
    apply Moves.probed
    exact fun _ => Moves.kept rfl nofun
  · apply hresult h
    apply Moves.polled
    exact Moves.kept rfl nofun
  · cases h

/-- A step leaves the worker to its engine and to its lease. -/
theorem Moves.later
    {c : Call} {w w' : Worker} {phase : Phase} {input : Input} {progress : Progress}
    (h : Moves c w phase input w' progress) :
  w.Later w' ∧ w.SameUse w'
  := by
  cases h with
  | ended buffer received status =>
      have hpiped := Worker.Later.piped w buffer w.readCount w.flushed received
      exact ⟨hpiped.trans (Worker.Later.ended _ status), rfl, rfl⟩
  | entered => exact ⟨Worker.Later.refl w, rfl, rfl⟩
  | threwSending => exact ⟨Worker.Later.refl w, rfl, rfl⟩
  | threwChecking => exact ⟨Worker.Later.refl w, rfl, rfl⟩
  | kept => exact ⟨Worker.Later.refl w, rfl, rfl⟩
  | failedWrite => exact ⟨Worker.Later.refl w, rfl, rfl⟩
  | resent => exact ⟨Worker.Later.refl w, rfl, rfl⟩
  | wrote => apply Worker.writeRequest_later
  | readNothing _ _ hturn => apply Worker.readTurn_later hturn
  | failedRead _ _ hturn => apply Worker.readTurn_later hturn
  | answered _ hturn =>
      obtain ⟨buffer, received, rfl⟩ := Worker.readTurn_eq hturn
      exact ⟨⟨rfl, rfl, id, id, List.prefix_refl _, List.prefix_refl _⟩, rfl, rfl⟩

/-- After a read or a write that failed, the call ends without a child. -/
theorem Moves.of_failed
    {c : Call} {w w' : Worker} {phase : Phase} {input : Input} {progress : Progress}
    (h : Moves c w phase input w' progress) (hfailed : stage phase = .failed) :
  w'.child = none ∧ ∃ outcome, progress = .returned outcome
  := by
  cases h with
  | ended => exact ⟨rfl, _, rfl⟩
  | kept _ hnot => exact absurd hfailed hnot
  | readNothing hstage => cases hstage.symm.trans hfailed
  | failedRead hstage => cases hstage.symm.trans hfailed
  | answered hstage => cases hstage.symm.trans hfailed
  | entered => cases hfailed
  | threwSending => cases hfailed
  | threwChecking => cases hfailed
  | failedWrite => cases hfailed
  | resent => cases hfailed
  | wrote => cases hfailed

end Execute

end Kernel
