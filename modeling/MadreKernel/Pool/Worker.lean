import MadreKernel.Wire.Incremental

/-!
# Worker processes

A `Worker` is a `WorkerProcess` object of the pool, with the process that its constructor
started and the two pipes to and from that process.  What has passed through the pipes is
kept: the requests that were written to the process, and what the process has sent.

The process is arbitrary: it sends any octets at any time.
-/

namespace Kernel

open Wire

structure WorkerLaunchSpec where
  executable : Bytes
  arguments : List Bytes
  deriving DecidableEq

/-- What `waitpid` finds. -/
inductive ChildState where
  | running
  | exited (status : UInt32)
  /-- the child has been waited for by someone else -/
  | lost
  deriving DecidableEq

/-- The process id of a child that has not been waited for, with the descriptors of its pipes. -/
structure Child where
  pid : Nat
  inputFd : Nat
  outputFd : Nat
  state : ChildState
  deriving DecidableEq

/-- A request that has been written to a worker to its last octet. -/
structure Request where
  attempt : Nat
  correlationId : UInt64
  octets : Bytes
  /-- the length of what had been written to the worker when its last octet was -/
  endsAt : Nat
  deriving DecidableEq

/-- What a worker sends at a time. -/
structure Emission where
  octets : Bytes
  /-- the length of what the worker had read before -/
  readBefore : Nat
  deriving DecidableEq

structure Worker where
  engineId : Bytes
  launch : WorkerLaunchSpec
  responseReader : Bytes
  /-- `pid`, `input_fd` and `output_fd`, which are set and cleared together -/
  child : Option Child
  lastWaitStatus : Option UInt32
  busy : Bool
  lastUsedMs : Int64
  /-- what has been written to the standard input of the process -/
  stdin : Bytes
  requests : List Request
  /-- how much of its standard input the process has read -/
  readCount : Nat
  emitted : List Emission
  /-- how much of its output the process has put into the pipe -/
  flushed : Nat
  /-- how much of its output has been read from the pipe -/
  received : Nat
  /-- the attempts that a response to their request was taken for -/
  answered : List Nat
  deriving DecidableEq

namespace Worker

/-! ### The object -/

/-- The worker that the constructor makes, when the process has started. -/
def spawn (launch : WorkerLaunchSpec) (engineId : Bytes) (pid inputFd outputFd : Nat)
    (nowMs : Int64) : Worker where
  engineId := engineId
  launch := launch
  responseReader := []
  child := some ⟨pid, inputFd, outputFd, .running⟩
  lastWaitStatus := none
  busy := false
  lastUsedMs := nowMs
  stdin := []
  requests := []
  readCount := 0
  emitted := []
  flushed := 0
  received := 0
  answered := []

def pid (w : Worker) : Option Nat := w.child.map (·.pid)

def inputFd (w : Worker) : Option Nat := w.child.map (·.inputFd)

def outputFd (w : Worker) : Option Nat := w.child.map (·.outputFd)

/-- The process has been started, and it runs. -/
def running (w : Worker) : Bool := w.child.any (·.state = .running)

/-- `alive`: whether the child runs; a child that is found to have exited is gone for good,
and the pipes are closed. -/
def alive (w : Worker) : Bool × Worker :=
  match w.child with
  | none => (false, w)
  | some child =>
      match child.state with
      | .running => (true, w)
      | .exited status => (false, { w with child := none, lastWaitStatus := some status })
      | .lost => (false, { w with child := none })

/-- The wait status of a child that is killed and waited for. -/
def killedStatus : ChildState → UInt32
  | .running => 9
  | .exited status => status
  | .lost => 0

def terminate (w : Worker) : Worker :=
  match w.child with
  | none => w
  | some child =>
      { w with child := none, lastWaitStatus := some (killedStatus child.state) }

end Worker

def waitStatusDescription (status : UInt32) : Bytes :=
  if status &&& 0x7f = 0 then
    Bytes.ofString "exit code " ++ Bytes.ofString (toString ((status >>> 8) &&& 0xff))
  else if status &&& 0x7f ≠ 0x7f then
    Bytes.ofString "signal " ++ Bytes.ofString (toString (status &&& 0x7f))
  else Bytes.ofString "unknown process termination"

namespace Worker

def exitDescription (w : Worker) : Bytes :=
  match w.lastWaitStatus with
  | some status => waitStatusDescription status
  | none => Bytes.ofString "worker process exited"

/-! ### The process and the pipes -/

/-- What the process has sent. -/
def output (w : Worker) : Bytes := (w.emitted.map (·.octets)).flatten

/-- What can be read from the pipe. -/
def available (w : Worker) : Bytes := (w.output.take w.flushed).drop w.received

/-- What the process does. -/
inductive Act where
  | exit (status : UInt32)
  /-- it exits, and its exit status is lost -/
  | vanish
  | read (count : Nat)
  | send (octets : Bytes)
  | flush (count : Nat)

/-- The process exits. -/
def exitAs (w : Worker) (state : ChildState) : Worker :=
  { w with child := w.child.map fun child => { child with state := state } }

/-- What an act of the process leaves; a process that does not run does nothing. -/
def act (w : Worker) (a : Act) : Option Worker :=
  if w.running then
    match a with
    | .exit status => some (w.exitAs (.exited status))
    | .vanish => some (w.exitAs .lost)
    | .read count =>
        if w.readCount + count ≤ w.stdin.length then
          some { w with readCount := w.readCount + count }
        else none
    | .send octets => some { w with emitted := w.emitted ++ [⟨octets, w.readCount⟩] }
    | .flush count =>
        if w.flushed + count ≤ w.output.length then
          some { w with flushed := w.flushed + count }
        else none
  else none

/-- What the last `read` of a call of `read_available` reports, when it reads all that is in
the pipe. -/
def lastReport (w : Worker) : ReadEvent := if w.running then .wouldBlock else .closed

/-- A call of `read_available` on the output of the process: the reports deliver what is in the
pipe, in any chunks.  A read on a closed descriptor fails. -/
def readTurn (w : Worker) (reports : Source) :
    Option (Except WireError (Option Frame) × Worker) :=
  if w.child = none then
    some ((readAvailable w.responseReader
      [.failed (Bytes.ofString "Bad file descriptor")]).result, w)
  else if reports.Open ∧ reports.content = w.available then
    let turn := readAvailable w.responseReader (reports ++ [w.lastReport])
    some (turn.result,
      { w with
        responseReader := turn.buffer
        received := w.received + (w.available.length - turn.rest.content.length) })
  else none

/-- The next `count` octets of the request of an attempt are written to the process. -/
def writeRequest (w : Worker) (attempt : Nat) (correlationId : UInt64) (request : Bytes)
    (offset count : Nat) : Worker :=
  let stdin := w.stdin ++ (request.drop offset).take count
  { w with
    stdin := stdin
    requests :=
      if offset + count < request.length then w.requests
      else w.requests ++ [⟨attempt, correlationId, request, stdin.length⟩] }

/-! ### Probing and killing -/

theorem alive_of_running {w : Worker} (h : w.running = true) :
  w.alive = (true, w)
  := by
  rw [running, Option.any_eq_true] at h
  obtain ⟨child, hchild, hstate⟩ := h
  simp only [alive, hchild, of_decide_eq_true hstate]

/-- A probe that does not find the child running leaves no child. -/
theorem alive_of_not_running {w : Worker} (h : w.running = false) :
  ∃ status, w.alive = (false, { w with child := none, lastWaitStatus := status })
  := by
  cases hchild : w.child with
  | none =>
      use w.lastWaitStatus
      simp only [alive, hchild]
      rw [← hchild]
  | some child =>
      cases hstate : child.state with
      | running => simp [running, hchild, hstate] at h
      | exited status =>
          use some status
          simp only [alive, hchild, hstate]
      | lost =>
          use w.lastWaitStatus
          simp only [alive, hchild, hstate]

theorem alive_fst (w : Worker) :
  w.alive.1 = w.running
  := by
  cases h : w.running with
  | true => rw [alive_of_running h]
  | false =>
      obtain ⟨status, halive⟩ := alive_of_not_running h
      rw [halive]

theorem terminate_eq (w : Worker) :
  ∃ status, w.terminate = { w with child := none, lastWaitStatus := status }
  := by
  cases hchild : w.child with
  | none =>
      use w.lastWaitStatus
      simp only [terminate, hchild]
      rw [← hchild]
  | some child =>
      use some (killedStatus child.state)
      simp only [terminate, hchild]

@[simp]
theorem terminate_child (w : Worker) :
  w.terminate.child = none
  := by
  obtain ⟨status, h⟩ := w.terminate_eq
  rw [h]

theorem running_of_child_none {w : Worker} (h : w.child = none) :
  w.running = false
  := by
  rw [running, h]
  rfl

/-! ### What time does to a worker -/

/-- What neither the process nor a call of `execute` does to a worker: it stays a worker of its
engine, a child that is gone or has exited does not run again, and the history grows. -/
structure Later (w w' : Worker) : Prop where
  engineId : w'.engineId = w.engineId
  launch : w'.launch = w.launch
  gone : w.child = none → w'.child = none
  running : w'.running = true → w.running = true
  requests : w.requests <+: w'.requests
  emitted : w.emitted <+: w'.emitted

/-- The fields that only the pool changes. -/
def SameUse (w w' : Worker) : Prop := w'.busy = w.busy ∧ w'.lastUsedMs = w.lastUsedMs

theorem Later.refl (w : Worker) :
  w.Later w
  := ⟨rfl, rfl, id, id, List.prefix_refl _, List.prefix_refl _⟩

theorem Later.trans {w w' w'' : Worker} (h : w.Later w') (h' : w'.Later w'') :
  w.Later w''
  where
  engineId := h'.engineId.trans h.engineId
  launch := h'.launch.trans h.launch
  gone hnone := h'.gone (h.gone hnone)
  running hrun := h.running (h'.running hrun)
  requests := h.requests.trans h'.requests
  emitted := h.emitted.trans h'.emitted

/-- A worker whose pipes were read from. -/
theorem Later.piped (w : Worker) (buffer : Bytes) (readCount flushed received : Nat) :
  w.Later { w with
    responseReader := buffer, readCount := readCount, flushed := flushed, received := received }
  := ⟨rfl, rfl, id, id, List.prefix_refl _, List.prefix_refl _⟩

/-- A worker that has lost its child. -/
theorem Later.ended (w : Worker) (status : Option UInt32) :
  w.Later { w with child := none, lastWaitStatus := status }
  where
  engineId := rfl
  launch := rfl
  gone _ := rfl
  running h := by cases h
  requests := List.prefix_refl _
  emitted := List.prefix_refl _

/-- What an operation of the pool does to a worker: it may mark it, and it may find or make its
child dead. -/
def Handled (w w' : Worker) : Prop :=
  ∃ busy lastUsedMs child status, (child = w.child ∨ child = none)
    ∧ w' = { w with
        busy := busy, lastUsedMs := lastUsedMs, child := child, lastWaitStatus := status }

theorem Handled.refl (w : Worker) :
  w.Handled w
  := ⟨w.busy, w.lastUsedMs, w.child, w.lastWaitStatus, Or.inl rfl, rfl⟩

theorem Handled.ended (w : Worker) (status : Option UInt32) :
  w.Handled { w with child := none, lastWaitStatus := status }
  := ⟨w.busy, w.lastUsedMs, none, status, Or.inr rfl, rfl⟩

theorem Handled.marked (w : Worker) (busy : Bool) (lastUsedMs : Int64) :
  w.Handled { w with busy := busy, lastUsedMs := lastUsedMs }
  := ⟨busy, lastUsedMs, w.child, w.lastWaitStatus, Or.inl rfl, rfl⟩

theorem Handled.trans {w w' w'' : Worker} (h : w.Handled w') (h' : w'.Handled w'') :
  w.Handled w''
  := by
  obtain ⟨busy, lastUsedMs, child, status, hchild, rfl⟩ := h
  obtain ⟨busy', lastUsedMs', child', status', hchild', rfl⟩ := h'
  use busy', lastUsedMs', child', status'
  refine ⟨?_, rfl⟩
  rcases hchild' with rfl | rfl
  · exact hchild
  · exact Or.inr rfl

theorem Handled.later {w w' : Worker} (h : w.Handled w') :
  w.Later w'
  := by
  obtain ⟨busy, lastUsedMs, child, status, rfl | rfl, rfl⟩ := h
  · exact ⟨rfl, rfl, id, id, List.prefix_refl _, List.prefix_refl _⟩
  · exact ⟨rfl, rfl, fun _ => rfl, nofun, List.prefix_refl _, List.prefix_refl _⟩

theorem terminate_handled (w : Worker) :
  w.Handled w.terminate
  := by
  obtain ⟨status, h⟩ := w.terminate_eq
  rw [h]
  exact Handled.ended w status

theorem terminate_later (w : Worker) :
  w.Later w.terminate ∧ w.SameUse w.terminate
  := by
  obtain ⟨status, h⟩ := w.terminate_eq
  rw [h]
  exact ⟨Later.ended w status, rfl, rfl⟩

/-- An act of the process is one of a process that runs. -/
theorem act_running {w w' : Worker} {a : Act} (h : w.act a = some w') :
  w.running = true
  := by
  rw [act.eq_def] at h
  split_ifs at h with hrun
  exact hrun

theorem act_later {w w' : Worker} {a : Act} (h : w.act a = some w') :
  w.Later w' ∧ w.SameUse w'
  := by
  have hrun := act_running h
  have hchild : w.child ≠ none := by
    intro hnone
    rw [running_of_child_none hnone] at hrun
    cases hrun
  rw [act.eq_def, if_pos hrun] at h
  cases a with
  | exit status =>
      cases h
      exact ⟨⟨rfl, rfl, fun hnone => absurd hnone hchild, fun _ => hrun, List.prefix_refl _,
        List.prefix_refl _⟩, rfl, rfl⟩
  | vanish =>
      cases h
      exact ⟨⟨rfl, rfl, fun hnone => absurd hnone hchild, fun _ => hrun, List.prefix_refl _,
        List.prefix_refl _⟩, rfl, rfl⟩
  | read count =>
      simp only at h
      split_ifs at h
      cases h
      exact ⟨Later.piped .., rfl, rfl⟩
  | send octets =>
      cases h
      exact ⟨⟨rfl, rfl, id, id, List.prefix_refl _, List.prefix_append _ _⟩, rfl, rfl⟩
  | flush count =>
      simp only at h
      split_ifs at h
      cases h
      exact ⟨Later.piped .., rfl, rfl⟩

/-- The process does not write to itself. -/
theorem act_requests {w w' : Worker} {a : Act} (h : w.act a = some w') :
  w'.requests = w.requests ∧ w'.stdin = w.stdin ∧ w'.answered = w.answered
  := by
  rw [act.eq_def, if_pos (act_running h)] at h
  cases a with
  | exit status =>
      cases h
      exact ⟨rfl, rfl, rfl⟩
  | vanish =>
      cases h
      exact ⟨rfl, rfl, rfl⟩
  | read count =>
      simp only at h
      split_ifs at h
      cases h
      exact ⟨rfl, rfl, rfl⟩
  | send octets =>
      cases h
      exact ⟨rfl, rfl, rfl⟩
  | flush count =>
      simp only at h
      split_ifs at h
      cases h
      exact ⟨rfl, rfl, rfl⟩

theorem writeRequest_later
    (w : Worker) (attempt : Nat) (correlationId : UInt64) (request : Bytes) (offset count : Nat) :
  w.Later (w.writeRequest attempt correlationId request offset count)
    ∧ w.SameUse (w.writeRequest attempt correlationId request offset count)
  := by
  refine ⟨⟨rfl, rfl, id, id, ?_, List.prefix_refl _⟩, rfl, rfl⟩
  rw [writeRequest]
  simp only
  split_ifs
  · apply List.prefix_refl
  · apply List.prefix_append

/-- A turn changes the reader and the count of what has been read from the pipe. -/
theorem readTurn_eq
    {w w' : Worker} {reports : Source} {result : Except WireError (Option Frame)}
    (h : w.readTurn reports = some (result, w')) :
  ∃ buffer received, w' = { w with responseReader := buffer, received := received }
  := by
  rw [readTurn] at h
  split_ifs at h
  · cases h
    use w.responseReader, w.received
  · cases h
    exact ⟨_, _, rfl⟩

theorem readTurn_later
    {w w' : Worker} {reports : Source} {result : Except WireError (Option Frame)}
    (h : w.readTurn reports = some (result, w')) :
  w.Later w' ∧ w.SameUse w'
  := by
  obtain ⟨buffer, received, rfl⟩ := readTurn_eq h
  exact ⟨Later.piped .., rfl, rfl⟩

end Worker

end Kernel
