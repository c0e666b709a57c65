import MadreKernel.Lib.Machine
import MadreKernel.Pool.Execute

/-!
# A call on an arbitrary worker

One call of `execute`, on a worker of which nothing is known: a read on its output may report
anything, a write may take any part of what is left of the request while the descriptor is open,
the process may exit at any time, and other threads may probe it.

A call that returns while it holds the child has written the octets of its request and has taken
one response to it.  After every other return the child is gone and the pipes are closed.
-/

namespace Kernel

open Wire

/-! ### The fields of the object -/

/-- The fields `pid`, `input_fd` and `output_fd` of a `WorkerProcess`; -1 when there is none. -/
structure Fields where
  pid : Int
  inputFd : Int
  outputFd : Int
  deriving DecidableEq

def closeFd (fd : Int) : Int := if fd < 0 then fd else -1

namespace Fields

/-- `alive`, with the state in which `waitpid` finds the child. -/
def alive (f : Fields) (found : ChildState) : Bool × Fields :=
  if f.pid < 0 then (false, f)
  else
    match found with
    | .running => (true, f)
    | .exited _ => (false, ⟨-1, closeFd f.inputFd, closeFd f.outputFd⟩)
    | .lost => (false, ⟨-1, closeFd f.inputFd, closeFd f.outputFd⟩)

def terminate (f : Fields) : Fields :=
  ⟨if f.pid ≥ 0 then -1 else f.pid, closeFd f.inputFd, closeFd f.outputFd⟩

end Fields

namespace Worker

def fields (w : Worker) : Fields :=
  match w.child with
  | none => ⟨-1, -1, -1⟩
  | some child => ⟨child.pid, child.inputFd, child.outputFd⟩

theorem closeFd_natCast (fd : Nat) :
  closeFd fd = -1
  := by
  rw [closeFd, if_neg (by omega)]

/-- A probe that finds the child gone clears the three fields. -/
theorem fields_alive (w : Worker) :
  (w.alive.1, w.alive.2.fields)
    = w.fields.alive ((w.child.map (·.state)).getD .lost)
  := by
  cases hchild : w.child with
  | none => simp [alive, fields, Fields.alive, hchild]
  | some child =>
      have hpid : ¬(child.pid : Int) < 0 := by omega
      cases hstate : child.state <;>
        simp [alive, fields, Fields.alive, hchild, hstate, hpid, closeFd_natCast]

/-- `terminate` clears the three fields. -/
theorem fields_terminate (w : Worker) :
  w.terminate.fields = w.fields.terminate
  := by
  cases hchild : w.child with
  | none => simp [terminate, fields, Fields.terminate, closeFd, hchild]
  | some child => simp [terminate, fields, Fields.terminate, hchild, closeFd_natCast]

/-- The fields are set as long as there is a child. -/
theorem fields_pid_eq_iff (w : Worker) :
  w.fields.pid = -1 ↔ w.child = none
  := by
  cases hchild : w.child with
  | none => simp [fields, hchild]
  | some child =>
      simp only [fields, hchild, reduceCtorEq]

end Worker

/-! ### The call -/

structure Supervision where
  worker : Worker
  progress : Progress
  /-- the octets that the reads of the call have taken from the pipe -/
  taken : Bytes
  /-- the last reading of the clock -/
  clock : Option Int64

namespace Supervision

inductive Event where
  /-- the process exits -/
  | exits (state : ChildState)
  /-- another thread calls `alive` -/
  | probed
  | execute (input : Input)

/-- What a turn of `read_available` reads from: a closed descriptor cannot be read. -/
def reportsOf (w : Worker) (reports : Source) : Source :=
  if w.child = none then [.failed (Bytes.ofString "Bad file descriptor")] else reports

/-- A turn of the response loop; `silent` is what follows a turn without a response. -/
def read (c : Call) (s : Supervision) (reports : Source)
    (silent : Worker → Worker × Progress) : Supervision :=
  let turn := readAvailable s.worker.responseReader reports
  let w := { s.worker with responseReader := turn.buffer }
  let taken := s.taken
    ++ reports.content.take (reports.content.length - turn.rest.content.length)
  match turn.result with
  | .ok (some response) =>
      ⟨(Execute.finishResponse c w response).1, .returned (Execute.finishResponse c w response).2,
        taken, s.clock⟩
  | .ok none => ⟨(silent w).1, (silent w).2, taken, s.clock⟩
  | .error e => ⟨w, .goesOn (.readFailed e.what), taken, s.clock⟩

/-- A step of `execute`.  The reads and the writes are not bound to what the process does. -/
def execute (c : Call) (s : Supervision) (phase : Phase) : Input → Option Supervision
  | .read reports =>
      match phase with
      | .reading =>
          some (s.read c (reportsOf s.worker reports) fun w => (w, .goesOn .checking))
      | .lastReading verdict =>
          some (s.read c (reportsOf s.worker reports) fun w =>
            (w.terminate, .returned (Execute.conclude c verdict)))
      | _ => none
  | .write (.wrote count) =>
      match phase with
      | .writing request offset =>
          if s.worker.child ≠ none ∧ 0 < count ∧ offset + count ≤ request.length then
            some { s with
              worker := s.worker.writeRequest c.attempt c.correlationId request offset count
              progress := .goesOn (Execute.sendLoop request (offset + count)) }
          else none
      | _ => none
  | .answers stopping cancellation nowMs =>
      (Execute.step c s.worker phase (.answers stopping cancellation nowMs)).map
        fun (w, progress) => { s with worker := w, progress := progress, clock := some nowMs }
  | input =>
      (Execute.step c s.worker phase input).map fun (w, progress) =>
        { s with worker := w, progress := progress }

def step (c : Call) (s : Supervision) : Event → Option Supervision
  | .exits state =>
      if s.worker.running then some { s with worker := s.worker.exitAs state } else none
  | .probed => some { s with worker := s.worker.alive.2 }
  | .execute input =>
      match s.progress with
      | .goesOn phase => execute c s phase input
      | _ => none

/-- A call of `execute` begins on any worker. -/
def start (w : Worker) : Supervision := ⟨w, .goesOn .entering, [], none⟩

def machine (c : Call) : Machine Supervision Event where
  init s := ∃ w, s = start w
  step := step c

/-! ### What is written and what is taken -/

/-- The octets of the request have been written to the worker, and one response to it has been
taken from what was read: the octets that were in the reader, and those that the call has read,
are the octets of the response and what is left in the reader. -/
def InSync (c : Call) (w₀ : Worker) (s : Supervision) : Prop :=
  ∃ request response octets,
    encodeFrame (c.requestFrame w₀.engineId) = .ok request
    ∧ s.worker.stdin = w₀.stdin ++ request
    ∧ w₀.responseReader ++ s.taken = octets ++ s.worker.responseReader
    ∧ parseFrame.run octets = .done response []
    ∧ response.correlationId = c.correlationId
    ∧ (response.type = workerResult ∨ response.type = workerFailure)

/-- What has been written and taken at a stage of a call that began on `w₀`. -/
def SoundAt (c : Call) (w₀ : Worker) (s : Supervision) : Execute.Stage → Prop
  | .entering =>
      s.worker.stdin = w₀.stdin ∧ s.worker.responseReader = w₀.responseReader ∧ s.taken = []
  | .sending request offset =>
      encodeFrame (c.requestFrame w₀.engineId) = .ok request ∧ offset ≤ request.length
        ∧ s.worker.stdin = w₀.stdin ++ request.take offset
        ∧ s.worker.responseReader = w₀.responseReader ∧ s.taken = []
  | .receiving =>
      (∃ request, encodeFrame (c.requestFrame w₀.engineId) = .ok request
        ∧ s.worker.stdin = w₀.stdin ++ request)
      ∧ s.worker.responseReader = w₀.responseReader ++ s.taken
  | .failed => True

/-- The invariant of a call that began on `w₀`. -/
structure Sound (c : Call) (w₀ : Worker) (s : Supervision) : Prop where
  engineId : s.worker.engineId = w₀.engineId
  goesOn : ∀ phase, s.progress = .goesOn phase → SoundAt c w₀ s (Execute.stage phase)
  returned : ∀ outcome, s.progress = .returned outcome → s.worker.child ≠ none → InSync c w₀ s

theorem sound_start (c : Call) (w : Worker) :
  Sound c w (start w)
  where
  engineId := rfl
  goesOn := by
    rintro phase ⟨⟩
    exact ⟨rfl, rfl, rfl⟩
  returned := by
    rintro outcome ⟨⟩

/-- What has been written and taken depends on the standard input of the worker, on the reader
and on what was read. -/
theorem SoundAt.congr
    {c : Call} {w₀ : Worker} {s s' : Supervision} {stage : Execute.Stage}
    (h : SoundAt c w₀ s stage) (hstdin : s'.worker.stdin = s.worker.stdin)
    (hreader : s'.worker.responseReader = s.worker.responseReader) (htaken : s'.taken = s.taken) :
  SoundAt c w₀ s' stage
  := by
  cases stage with
  | entering => simpa only [SoundAt, hstdin, hreader, htaken] using h
  | sending request offset => simpa only [SoundAt, hstdin, hreader, htaken] using h
  | receiving => simpa only [SoundAt, hstdin, hreader, htaken] using h
  | failed => trivial

/-- What a probe or an exit leaves. -/
theorem Sound.of_worker
    {c : Call} {w₀ w : Worker} {s : Supervision} (h : Sound c w₀ s)
    (hengine : w.engineId = s.worker.engineId) (hstdin : w.stdin = s.worker.stdin)
    (hreader : w.responseReader = s.worker.responseReader)
    (hchild : w.child ≠ none → s.worker.child ≠ none) :
  Sound c w₀ { s with worker := w }
  where
  engineId := hengine.trans h.engineId
  goesOn phase hphase := (h.goesOn phase hphase).congr hstdin hreader rfl
  returned outcome houtcome hheld := by
    obtain ⟨request, response, octets, hencode, hwritten, hread, hrest⟩ :=
      h.returned outcome houtcome (hchild hheld)
    refine ⟨request, response, octets, hencode, hstdin.trans hwritten, ?_, hrest⟩
    rw [hread, hreader]

/-- The request loop, when what was written of the request is a part of it. -/
theorem soundAt_sendLoop
    {c : Call} {w₀ : Worker} {s : Supervision} {request : Bytes} {offset : Nat}
    (h : SoundAt c w₀ s (.sending request offset)) :
  SoundAt c w₀ s (Execute.stage (Execute.sendLoop request offset))
  := by
  obtain ⟨hencode, hle, hwritten, hread, htaken⟩ := h
  rw [Execute.sendLoop]
  split_ifs with hless
  · exact ⟨hencode, hle, hwritten, hread, htaken⟩
  · have hall : request.take offset = request := List.take_of_length_le (by omega)
    rw [hall] at hwritten
    refine ⟨⟨request, hencode, hwritten⟩, ?_⟩
    rw [hread, htaken, List.append_nil]

section

variable {c : Call} {w₀ w : Worker} {taken : Bytes} {clock : Option Int64}

/-- A call that goes on. -/
theorem sound_goesOn {phase : Phase} (hengine : w.engineId = w₀.engineId)
    (h : SoundAt c w₀ ⟨w, .goesOn phase, taken, clock⟩ (Execute.stage phase)) :
  Sound c w₀ ⟨w, .goesOn phase, taken, clock⟩
  where
  engineId := hengine
  goesOn := by
    rintro phase' ⟨⟩
    exact h
  returned := by
    rintro outcome ⟨⟩

/-- A call that returns without a child, or in sync. -/
theorem sound_returned {outcome : WorkerOutcome} (hengine : w.engineId = w₀.engineId)
    (h : w.child = none ∨ InSync c w₀ ⟨w, .returned outcome, taken, clock⟩) :
  Sound c w₀ ⟨w, .returned outcome, taken, clock⟩
  where
  engineId := hengine
  goesOn := by
    rintro phase ⟨⟩
  returned _ _ hheld := h.resolve_left hheld

theorem sound_threw {what : Bytes} (hengine : w.engineId = w₀.engineId) :
  Sound c w₀ ⟨w, .threw what, taken, clock⟩
  where
  engineId := hengine
  goesOn := by
    rintro phase ⟨⟩
  returned := by
    rintro outcome ⟨⟩

end

/-! ### Steps -/

/-- A step that neither reads nor writes. -/
theorem Sound.of_moves
    {c : Call} {w₀ w : Worker} {s : Supervision} {phase : Phase} {input : Input}
    {progress : Progress} {clock : Option Int64} (h : Sound c w₀ s)
    (hphase : s.progress = .goesOn phase) (hread : ∀ reports, input ≠ .read reports)
    (hwrite : ∀ count, input ≠ .write (.wrote count))
    (hmoves : Execute.Moves c s.worker phase input w progress) :
  Sound c w₀ ⟨w, progress, s.taken, clock⟩
  := by
  have hat := h.goesOn phase hphase
  cases hmoves with
  | ended buffer received status =>
      exact sound_returned h.engineId (Or.inl rfl)
  | entered hrun hencode =>
      rw [h.engineId] at hencode
      apply sound_goesOn h.engineId
      apply soundAt_sendLoop
      refine ⟨hencode, Nat.zero_le _, ?_, hat.2⟩
      rw [List.take_zero, List.append_nil]
      exact hat.1
  | threwSending => exact sound_threw h.engineId
  | threwChecking => exact sound_threw h.engineId
  | kept hstage =>
      apply sound_goesOn h.engineId
      rw [hstage]
      exact hat.congr rfl rfl rfl
  | failedWrite reason => exact sound_goesOn h.engineId trivial
  | resent request offset =>
      apply sound_goesOn h.engineId
      apply soundAt_sendLoop
      exact hat.congr rfl rfl rfl
  | wrote => exact absurd rfl (hwrite _)
  | readNothing => exact absurd rfl (hread _)
  | failedRead => exact absurd rfl (hread _)
  | answered => exact absurd rfl (hread _)

/-- A write of the next octets of the request. -/
theorem Sound.wrote
    {c : Call} {w₀ : Worker} {s : Supervision} {request : Bytes} {offset count : Nat}
    (h : Sound c w₀ s) (hphase : s.progress = .goesOn (.writing request offset))
    (hle : offset + count ≤ request.length) :
  Sound c w₀ { s with
    worker := s.worker.writeRequest c.attempt c.correlationId request offset count
    progress := .goesOn (Execute.sendLoop request (offset + count)) }
  := by
  obtain ⟨hencode, -, hwritten, hread, htaken⟩ := h.goesOn _ hphase
  have hstdin : (s.worker.writeRequest c.attempt c.correlationId request offset count).stdin
      = w₀.stdin ++ request.take (offset + count) := by
    rw [Worker.writeRequest, hwritten, List.append_assoc, ← List.take_add]
  apply sound_goesOn
  · exact h.engineId
  · apply soundAt_sendLoop
    exact ⟨hencode, hle, hstdin, hread, htaken⟩

/-- A turn that does not throw: what it takes from the pipe goes to the reader, and a frame is
taken from the reader when it is complete. -/
theorem readAvailable_ok
    {buffer : Bytes} {reports : Source} {response : Option Frame}
    (h : (readAvailable buffer reports).result = .ok response) :
  takeFrame (buffer ++ reports.content.take
      (reports.content.length - (readAvailable buffer reports).rest.content.length))
    = (.ok response, (readAvailable buffer reports).buffer)
  := by
  rw [readAvailable] at h ⊢
  rcases hfill : fill buffer reports 0 with ⟨_ | ⟨⟩, buffer', rest⟩
  · rw [hfill] at h
    cases h
  · obtain ⟨moved, hbuffer, hcontent⟩ := fill_moves hfill
    rw [hfill] at h
    simp only at h ⊢
    have hmoved : reports.content.take (reports.content.length - rest.content.length)
        = moved := by
      rw [← hcontent, List.length_append, Nat.add_sub_cancel, List.take_left]
    rw [hmoved, ← hbuffer, ← h]

/-- A turn that returns a response. -/
theorem Sound.finished
    {c : Call} {w₀ : Worker} {s : Supervision} {phase : Phase} {response : Frame}
    {buffer taken : Bytes} (h : Sound c w₀ s) (hphase : s.progress = .goesOn phase)
    (hstage : Execute.stage phase = .receiving)
    (htake : takeFrame (s.worker.responseReader ++ taken) = (.ok (some response), buffer)) :
  Sound c w₀
    ⟨(Execute.finishResponse c { s.worker with responseReader := buffer } response).1,
      .returned (Execute.finishResponse c { s.worker with responseReader := buffer } response).2,
      s.taken ++ taken, s.clock⟩
  := by
  have hat := h.goesOn phase hphase
  rw [hstage] at hat
  obtain ⟨⟨request, hencode, hwritten⟩, hreader⟩ := hat
  obtain ⟨octets, hoctets, hparse⟩ :=
    parseFrame_streaming.consumed (parseFrame_of_takeFrame htake)
  rw [hreader, List.append_assoc] at hoctets
  have hkilled : ∀ outcome, Sound c w₀
      ⟨{ s.worker with responseReader := buffer }.terminate, .returned outcome,
        s.taken ++ taken, s.clock⟩ := by
    intro outcome
    have hengine : { s.worker with responseReader := buffer }.terminate.engineId
        = s.worker.engineId := by
      obtain ⟨status, hw⟩ := Worker.terminate_eq { s.worker with responseReader := buffer }
      rw [hw]
    apply sound_returned (hengine.trans h.engineId)
    left
    apply Worker.terminate_child
  rw [Execute.finishResponse]
  split_ifs with hmismatch hresult hfailure
  · apply hkilled
  · apply sound_returned
    · exact h.engineId
    · right
      exact ⟨request, response, octets, hencode, hwritten, hoctets, hparse, not_not.mp hmismatch,
        Or.inl hresult⟩
  · apply sound_returned
    · exact h.engineId
    · right
      exact ⟨request, response, octets, hencode, hwritten, hoctets, hparse, not_not.mp hmismatch,
        Or.inr hfailure⟩
  · apply hkilled

/-- A turn of the response loop, when what follows a turn without a response is sound. -/
theorem Sound.read
    {c : Call} {w₀ : Worker} {s : Supervision} {phase : Phase} {reports : Source}
    {silent : Worker → Worker × Progress} (h : Sound c w₀ s)
    (hphase : s.progress = .goesOn phase) (hstage : Execute.stage phase = .receiving)
    (hsilent : ∀ buffer taken, s.worker.responseReader ++ taken = buffer →
      Sound c w₀ ⟨(silent { s.worker with responseReader := buffer }).1,
        (silent { s.worker with responseReader := buffer }).2, s.taken ++ taken, s.clock⟩) :
  Sound c w₀ (s.read c reports silent)
  := by
  rw [Supervision.read]
  cases hresult : (readAvailable s.worker.responseReader reports).result with
  | ok response =>
      have htake := readAvailable_ok hresult
      cases response with
      | some response =>
          exact h.finished hphase hstage htake
      | none =>
          apply hsilent
          exact (waiting_of_takeFrame htake).2.symm
  | error e =>
      apply sound_goesOn
      · exact h.engineId
      · trivial

theorem Sound.execute
    {c : Call} {w₀ : Worker} {s s' : Supervision} {phase : Phase} {input : Input}
    (h : Sound c w₀ s) (hphase : s.progress = .goesOn phase)
    (hstep : execute c s phase input = some s') :
  Sound c w₀ s'
  := by
  have hmap : (∀ reports, input ≠ .read reports) → (∀ count, input ≠ .write (.wrote count)) →
      ∀ clock, (Execute.step c s.worker phase input).map (fun (w, progress) =>
        (⟨w, progress, s.taken, clock⟩ : Supervision)) = some s' → Sound c w₀ s' := by
    intro hread hwrite clock hsome
    obtain ⟨⟨w, progress⟩, hexecute, rfl⟩ := Option.map_eq_some_iff.mp hsome
    exact h.of_moves hphase hread hwrite (Execute.step_moves hexecute)
  cases input with
  | read reports =>
      rw [Supervision.execute.eq_def] at hstep
      cases phase with
      | reading =>
          cases hstep
          apply h.read hphase rfl
          intro buffer taken hbuffer
          obtain ⟨hwritten, hreader⟩ := h.goesOn _ hphase
          apply sound_goesOn
          · exact h.engineId
          · refine ⟨hwritten, ?_⟩
            rw [← List.append_assoc, ← hreader]
            exact hbuffer.symm
      | lastReading verdict =>
          cases hstep
          apply h.read hphase rfl
          intro buffer taken hbuffer
          obtain ⟨status, hw⟩ := Worker.terminate_eq { s.worker with responseReader := buffer }
          apply sound_returned
          · rw [hw]
            exact h.engineId
          · left
            apply Worker.terminate_child
      | _ => cases hstep
  | write result =>
      cases result with
      | wrote count =>
          rw [Supervision.execute.eq_def] at hstep
          cases phase with
          | writing request offset =>
              simp only at hstep
              split_ifs at hstep with hwrote
              cases hstep
              exact h.wrote hphase hwrote.2.2
          | _ => cases hstep
      | blocked => exact hmap (by simp) (by simp) _ hstep
      | failed reason => exact hmap (by simp) (by simp) _ hstep
  | answers stopping cancellation nowMs => exact hmap (by simp) (by simp) _ hstep
  | probe => exact hmap (by simp) (by simp) _ hstep
  | poll failure => exact hmap (by simp) (by simp) _ hstep

theorem Sound.step
    {c : Call} {w₀ : Worker} {s s' : Supervision} {e : Event} (h : Sound c w₀ s)
    (hstep : step c s e = some s') :
  Sound c w₀ s'
  := by
  cases e with
  | exits state =>
      rw [Supervision.step] at hstep
      split_ifs at hstep
      cases hstep
      have hheld : (s.worker.exitAs state).child ≠ none → s.worker.child ≠ none := by
        intro hheld hnone
        apply hheld
        rw [Worker.exitAs, hnone]
        rfl
      exact h.of_worker rfl rfl rfl hheld
  | probed =>
      cases hstep
      cases hrun : s.worker.running with
      | true =>
          rw [Worker.alive_of_running hrun]
          exact h
      | false =>
          obtain ⟨status, halive⟩ := Worker.alive_of_not_running hrun
          rw [halive]
          exact h.of_worker rfl rfl rfl (absurd rfl)
  | execute input =>
      rw [Supervision.step] at hstep
      cases hprogress : s.progress with
      | goesOn phase =>
          rw [hprogress] at hstep
          exact h.execute hprogress hstep
      | returned outcome =>
          rw [hprogress] at hstep
          cases hstep
      | threw what =>
          rw [hprogress] at hstep
          cases hstep

/-- A call of `execute` that returns while it holds the child has written exactly the octets of
its request to the worker and has taken exactly one response to it; after every other return the
process is gone and both pipes are closed. -/
theorem held_worker_in_sync
    (c : Call) (w : Worker) (es : List Event) (s : Supervision) (outcome : WorkerOutcome)
    (hrun : (machine c).run (start w) es = some s) (hreturned : s.progress = .returned outcome) :
  (s.worker.fields.pid ≠ -1 → InSync c w s)
    ∧ (s.worker.fields.pid = -1 → s.worker.fields = ⟨-1, -1, -1⟩)
  := by
  have hsound : Sound c w s := by
    apply Machine.run_preserves _ (sound_start c w) hrun
    intro t e t' h hstep
    exact h.step hstep
  simp only [ne_eq, Worker.fields_pid_eq_iff]
  constructor
  · exact hsound.returned outcome hreturned
  · intro hnone
    simp only [Worker.fields, hnone]

namespace Sample

def call : Call := ⟨0, [1], 1, 0, none, false⟩

def worker : Worker := .spawn ⟨[], []⟩ [101] 7 3 4 0

/-- The request is written in two parts, with a full pipe between them. -/
def sentEvents : List Event :=
  [.execute .probe, .execute (.answers false (.ok false) 0), .execute .probe,
    .execute (.write (.wrote 5)), .execute (.answers false (.ok false) 0), .execute .probe,
    .execute (.write .blocked), .execute (.poll none),
    .execute (.answers false (.ok false) 0), .execute .probe, .execute (.write (.wrote 60))]

def octets : Bytes := encodeHeader workerResult 1 0 1 ++ [5]

/-- The call holds its child and is about to read. -/
def aboutToRead (s : Supervision) : Bool :=
  (match s.progress with
    | .goesOn phase => phase = .reading
    | _ => false)
  && s.worker.child = some ⟨7, 3, 4, .running⟩ && s.worker.responseReader = []

theorem progress_of_aboutToRead {s : Supervision} (h : aboutToRead s = true) :
  s.progress = .goesOn .reading ∧ s.worker.child = some ⟨7, 3, 4, .running⟩
    ∧ s.worker.responseReader = []
  := by
  simp only [aboutToRead, Bool.and_eq_true, decide_eq_true_eq] at h
  obtain ⟨⟨hphase, hchild⟩, hreader⟩ := h
  refine ⟨?_, hchild, hreader⟩
  split at hphase
  · rename_i phase hprogress
    rw [hprogress, of_decide_eq_true hphase]
  · cases hphase

end Sample

theorem held_worker_in_sync_parts :
  ∃ es s, (machine Sample.call).run (start Sample.worker) es = some s
    ∧ s.progress = .returned (.succeeded [5]) ∧ s.worker.fields = ⟨7, 3, 4⟩
    ∧ InSync Sample.call Sample.worker s
  := by
  have hcheck : ((machine Sample.call).run (start Sample.worker) Sample.sentEvents).any
      Sample.aboutToRead = true := by
    decide +kernel
  obtain ⟨s, hrun, hs⟩ := (Option.any_eq_true _ _).mp hcheck
  obtain ⟨hprogress, hchild, hreader⟩ := Sample.progress_of_aboutToRead hs
  have hframe : takeFrame Sample.octets = (.ok (some ⟨workerResult, 1, ∅, [5]⟩), []) := by
    have hspec := takeFrame_eq Sample.octets
    have hparse : parseFrame.run Sample.octets = .done ⟨workerResult, 1, ∅, [5]⟩ [] := by
      decide +kernel
    rw [hparse] at hspec
    exact hspec
  have hread := @readAvailable_all [] _ (Source.open_ofBytes Sample.octets)
    (by rw [Source.content_ofBytes]; decide) (by rw [Source.content_ofBytes]; decide)
  rw [Source.content_ofBytes, List.nil_append, hframe] at hread
  obtain ⟨s', hstep, hreturned, hheld⟩ : ∃ s', (machine Sample.call).step s
      (.execute (.read (Source.ofBytes Sample.octets ++ [.wouldBlock]))) = some s'
        ∧ s'.progress = .returned (.succeeded [5]) ∧ s'.worker.child = s.worker.child := by
    have hopen : reportsOf s.worker (Source.ofBytes Sample.octets ++ [.wouldBlock])
        = Source.ofBytes Sample.octets ++ [.wouldBlock] := by
      rw [reportsOf, if_neg (by simp [hchild])]
    simp only [machine, step, hprogress, execute, hopen, Supervision.read, hreader, hread]
    exact ⟨_, rfl, rfl, rfl⟩
  have hlast : (machine Sample.call).run s
      [.execute (.read (Source.ofBytes Sample.octets ++ [.wouldBlock]))] = some s' := by
    rw [Machine.run, hstep]
    rfl
  have hall := (Machine.run_append hrun _).trans hlast
  have hfields : s'.worker.fields = ⟨7, 3, 4⟩ := by
    simp only [Worker.fields, hheld, hchild]
    rfl
  refine ⟨_, s', hall, hreturned, hfields, ?_⟩
  apply (held_worker_in_sync _ _ _ _ _ hall hreturned).1
  rw [hfields]
  decide

end Supervision

end Kernel
