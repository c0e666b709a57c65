import MadreKernel.Kernel.Requests
import MadreKernel.Kernel.Selection
import MadreKernel.Lib.Machine
import MadreKernel.Store.Operations

/-!
# The Kernel over its data directory

The composed system: the database and the files, which survive a crash, and at most one
Kernel process with its three kinds of threads.  The scheduler runs `scheduler_loop`, each
attempt task runs `execute_worker`, and one handler thread serves one request at a time.  A
thread is where it stands between two calls that other threads can observe: a call of the
store, which the store's mutex makes one step, or an operation on a file.  Threads take turns
in any order; the process may crash between any two steps, and a file may be left partly
written.

An event says which thread moves and what it meets there: the reading of the clock, the
statements that fail, what the worker answers, a file operation that throws.  The history
records the accepted `SUBMIT` frames, the payloads of the accepted worker results and the
replies; no step reads it.
-/

namespace Kernel

open WorkStore

structure Config where
  dataDir : Bytes
  inventory : List EngineDescriptorFacts
  capacity : ResourceCapacity
  dataDir_nulFree : 0 ∉ dataDir

/-! ### Attempt tasks -/

/-- What `worker.execute` returns. -/
inductive WorkerOutcome where
  | succeeded (payload : Bytes)
  | technicalFailure (text : Bytes)
  | crashed (text : Bytes)
  | cancelled
  | timedOut (text : Bytes)
  | stopped

/-- How an attempt without a result is recorded. -/
inductive Settlement where
  | cancelled
  | failure (attemptState : AttemptState) (text : Bytes)

/-- Where an attempt task stands. -/
inductive TaskPhase where
  /-- before it reads the input -/
  | starting
  /-- in `worker.execute` -/
  | executing (input : Bytes)
  /-- before it records an attempt without a result -/
  | settling (settlement : Settlement)
  /-- with a result, before it asks whether the Work is cancelled -/
  | checking (payload : Bytes)
  /-- before it has written the temporary result file -/
  | writing (payload : Bytes)
  /-- before it renames the temporary result file -/
  | moving (payload : Bytes)
  /-- before it calls `finish_success` -/
  | committing (payload : Bytes)
  /-- in the exception handler -/
  | handling (text : Bytes)

structure Task where
  work : WorkRecord
  attemptNumber : Int32
  startedAtMs : Int64
  reservation : ResourceRequirement
  phase : TaskPhase

/-- What an attempt task meets at its step. -/
inductive TaskInput where
  /-- it goes on: the clock and the faults of its store call -/
  | proceed (nowMs : Int64) (faults : List (Option Bytes))
  /-- `worker.execute` returns -/
  | outcome (outcome : WorkerOutcome)
  /-- some octets of the temporary file are written -/
  | write (count : Nat)
  /-- the call throws -/
  | throw (text : Bytes)

/-- What the step of a task changes. -/
structure TaskStep where
  store : Store
  files : Files
  /-- the task goes on in this phase, or has ended -/
  next : Option TaskPhase

/-- The phase after a store call of the `try` block: the exception handler, when it throws. -/
def afterCall {α : Type} (result : Except Bytes α) (next : α → Option TaskPhase) :
    Option TaskPhase :=
  match result with
  | .ok a => next a
  | .error e => some (.handling e)

/-- The store call that records an attempt without a result. -/
def settle (t : Task) (nowMs : Int64) : Settlement → StoreProgram Unit
  | .cancelled => finishCancelled t.work.id t.attemptNumber nowMs
  | .failure attemptState text =>
      finishRetryableFailure t.work.id t.attemptNumber attemptState text nowMs

/-- The call of the store in the exception handler of `execute_worker`. -/
def handleFailure (t : Task) (text : Bytes) (nowMs : Int64) : StoreProgram Unit :=
  finishRetryableFailure t.work.id t.attemptNumber .failed
    (Bytes.ofString "WORKER_EXECUTION_FAILURE: " ++ text) nowMs

/-- The phase after the outcome of the worker. -/
def afterOutcome : WorkerOutcome → Option TaskPhase
  | .succeeded payload => some (.checking payload)
  | .technicalFailure text => some (.settling (.failure .failed text))
  | .crashed text => some (.settling (.failure .failed text))
  | .cancelled => some (.settling .cancelled)
  | .timedOut text => some (.settling (.failure .timedOut text))
  | .stopped => none

/-- A step of `execute_worker`; the step that a task's phase does not have is refused. -/
def taskStep (stop : Bool) (store : Store) (files : Files) (t : Task) :
    TaskInput → Option TaskStep
  | .proceed nowMs faults =>
      match t.phase with
      | .starting =>
          if stop then some ⟨store, files, none⟩
          else
            some ⟨store, files,
              afterCall (readBinaryBounded files t.work.inputPath) fun input =>
                some (.executing input)⟩
      | .executing _ => none
      | .settling settlement =>
          let done := (settle t nowMs settlement).exec faults store
          some ⟨done.2, files, afterCall done.1 fun _ => none⟩
      | .checking payload =>
          let asked := (cancelRequested t.work.id).exec faults store
          some ⟨asked.2, files, afterCall asked.1 fun cancelled =>
            some (if cancelled then .settling .cancelled else .writing payload)⟩
      | .writing payload =>
          if payload.length > Wire.kMaxC1TextGenerationOpaquePayloadBytes then
            some ⟨store, files, some (.handling tooLarge)⟩
          else
            some ⟨store, files.write (temporary t.work.resultPath) payload,
              some (.moving payload)⟩
      | .moving payload =>
          (files.rename (temporary t.work.resultPath) t.work.resultPath).map fun files' =>
            ⟨store, files', some (.committing payload)⟩
      | .committing _ =>
          let done := (finishSuccess t.work.id t.attemptNumber nowMs).exec faults store
          some ⟨done.2, files, afterCall done.1 fun _ => none⟩
      | .handling text =>
          if stop then some ⟨store, files, none⟩
          else
            -- What this call throws is kept in the future of the task, which nobody reads.
            let done := (handleFailure t text nowMs).exec faults store
            some ⟨done.2, files, none⟩
  | .outcome outcome =>
      match t.phase with
      | .executing _ => some ⟨store, files, afterOutcome outcome⟩
      | _ => none
  | .write count =>
      match t.phase with
      | .writing payload =>
          if payload.length > Wire.kMaxC1TextGenerationOpaquePayloadBytes then none
          else
            some ⟨store, files.write (temporary t.work.resultPath) (payload.take count),
              some t.phase⟩
      | _ => none
  | .throw text =>
      match t.phase with
      | .executing _ | .writing _ | .moving _ => some ⟨store, files, some (.handling text)⟩
      | _ => none

/-! ### The scheduler -/

/-- Where the scheduler stands. -/
inductive SchedulerPhase where
  /-- at the head of the loop, before `expire_queued_deadlines` -/
  | sweeping
  /-- before `next_eligible` -/
  | picking (schedulerNow : Int64)
  /-- with a Work to dispatch -/
  | dispatching (schedulerNow : Int64) (work : WorkRecord)
  /-- with a selection and its reservation, before `begin_attempt` -/
  | reserved (work : WorkRecord) (selection : Selection)
  /-- with an attempt that has begun, before it has a worker -/
  | launching (work : WorkRecord) (selection : Selection) (attemptNumber : Int32)
      (startedAtMs : Int64)
  /-- after the loop -/
  | left

/-- What the scheduler meets at its step: the clock, the faults of its store call, and whether
the worker pool throws. -/
structure SchedulerInput where
  nowMs : Int64
  faults : List (Option Bytes)
  launch : Except Bytes Unit

/-- A request that follows an accepted `HELLO` on its connection. -/
structure Connection where
  hello : Frame
  request : Frame
  deriving DecidableEq

/-- Where the handler stands. -/
inductive HandlerPhase where
  | idle
  /-- before the input file of a `SUBMIT` is written -/
  | submitWriting (c : Connection) (work : WorkRecord)
  | submitRenaming (c : Connection) (work : WorkRecord)
  | submitStoring (c : Connection) (work : WorkRecord)
  /-- `RESULT` has found the Work -/
  | resultFound (c : Connection) (work : WorkRecord)
  /-- `ACKNOWLEDGE` has found the Work -/
  | acknowledgeFound (c : Connection) (work : WorkRecord)
  | removingInput (c : Connection) (work : WorkRecord)
  | removingResult (c : Connection) (work : WorkRecord)
  deriving DecidableEq

/-- A Kernel process. -/
structure Process where
  stop : Bool
  scheduler : SchedulerPhase
  handler : HandlerPhase
  tasks : List Task
  resources : ResourceManager

/-- What happened in a run. -/
structure History where
  /-- the accepted `SUBMIT` frames, with the id of the Work -/
  submitted : List (CString × Frame)
  /-- the payloads of the worker results that attempts accepted -/
  accepted : List (CString × Int32 × Bytes)
  /-- the requests and their replies -/
  replies : List (Frame × Frame)

/-- The data directory, and the process over it. -/
structure System where
  store : Store
  files : Files
  process : Option Process
  history : History

def deadlineText : Bytes :=
  Bytes.ofString "DEADLINE_EXPIRED: Work deadline expired before dispatch"

def capacityText : Bytes :=
  Bytes.ofString
    "INSUFFICIENT_CAPACITY: selected engine requirements exceed configured Kernel capacity"

/-- Whether a deadline has passed. -/
def deadlinePassed (work : WorkRecord) (nowMs : Int64) : Bool :=
  match work.deadlineMs with
  | none => false
  | some deadline => nowMs ≥ deadline

namespace System

/-- The system with another store and process. -/
def update (s : System) (store : Store) (process : Option Process) : System :=
  { s with store, process }

/-- A store call of the scheduler: an exception leaves the thread and ends the process. -/
def schedulerCall {α : Type} (s : System) (program : StoreProgram α) (faults : List (Option Bytes))
    (next : α → Process) : System :=
  match program.exec faults s.store with
  | (.ok a, store) => s.update store (some (next a))
  | (.error _, store) => s.update store none

/-- A step of `scheduler_loop`. -/
def schedulerStep (cfg : Config) (s : System) (p : Process) (input : SchedulerInput) :
    Option System :=
  match p.scheduler with
  | .sweeping =>
      if p.stop then some { s with process := some { p with scheduler := .left } }
      else
        some (s.schedulerCall (expireQueuedDeadlines input.nowMs) input.faults fun _ =>
          { p with scheduler := .picking input.nowMs })
  | .picking schedulerNow =>
      some (s.schedulerCall (nextEligible schedulerNow) input.faults fun found =>
        match found with
        | none => { p with scheduler := .sweeping }
        | some work => { p with scheduler := .dispatching schedulerNow work })
  | .dispatching schedulerNow work =>
      let fail (text : Bytes) : System :=
        s.schedulerCall (failQueued work.id text) input.faults fun _ =>
          { p with scheduler := .sweeping }
      if deadlinePassed work schedulerNow then some (fail deadlineText)
      else
        match selectEngine work cfg.inventory with
        | .error failure => some (fail failure)
        | .ok selection =>
            match p.resources.canEverReserve selection.engine.resources with
            | .error _ => some { s with process := none }
            | .ok false => some (fail capacityText)
            | .ok true =>
                match p.resources.tryReserve selection.engine.resources with
                | .error _ => some { s with process := none }
                | .ok (false, resources) =>
                    some { s with process := some { p with scheduler := .sweeping, resources } }
                | .ok (true, resources) =>
                    some { s with
                      process := some { p with scheduler := .reserved work selection, resources } }
  | .reserved work selection =>
      let dropped := { p with
        scheduler := .sweeping
        resources := p.resources.release selection.engine.resources }
      if deadlinePassed work input.nowMs then
        some (s.schedulerCall (failQueued work.id deadlineText) input.faults fun _ => dropped)
      else
        some (s.schedulerCall
          (beginAttempt work.id selection.engine.id selection.modelId input.nowMs) input.faults
          fun attemptNumber =>
            if attemptNumber = 0 then dropped
            else { p with scheduler := .launching work selection attemptNumber input.nowMs })
  | .launching work selection attemptNumber startedAtMs =>
      match input.launch with
      | .error text =>
          some (s.schedulerCall
            (finishRetryableFailure work.id attemptNumber .failed
              (Bytes.ofString "WORKER_LAUNCH_FAILURE: " ++ text) input.nowMs) input.faults
            fun _ => { p with
              scheduler := .sweeping
              resources := p.resources.release selection.engine.resources })
      | .ok () =>
          some { s with
            process := some { p with
              scheduler := .sweeping
              tasks := p.tasks
                ++ [⟨work, attemptNumber, startedAtMs, selection.engine.resources, .starting⟩] } }
  | .left => none

/-! ### Tasks and requests -/

/-- The payload that a task accepts at its step. -/
def acceptedPayload (t : Task) : TaskInput → List (CString × Int32 × Bytes)
  | .outcome (.succeeded payload) => [(bindText t.work.id, t.attemptNumber, payload)]
  | _ => []

/-- The tasks after the step of one of them, and the accounting of the reservations. -/
def nextTasks (p : Process) (i : Nat) (t : Task) : Option TaskPhase → Process
  | some phase => { p with tasks := p.tasks.set i { t with phase } }
  | none => { p with
      tasks := p.tasks.eraseIdx i
      resources := p.resources.release t.reservation }

/-- A step of the attempt task at a place of the list of tasks. -/
def attemptStep (s : System) (p : Process) (i : Nat) (input : TaskInput) : Option System :=
  match p.tasks[i]? with
  | none => none
  | some t =>
      (taskStep p.stop s.store s.files t input).map fun step =>
        { store := step.store
          files := step.files
          process := some (nextTasks p i t step.next)
          history := { s.history with
            accepted := s.history.accepted ++ acceptedPayload t input } }

/-- What the handler meets at its step. -/
inductive HandlerInput where
  /-- a request arrives: the clock, the draws of the id generator and the faults of its call -/
  | request (c : Connection) (nowMs : Int64) (draws : UInt64 × UInt64)
      (faults : List (Option Bytes))
  /-- some octets of the temporary file are written -/
  | write (count : Nat)
  /-- it goes on -/
  | proceed (faults : List (Option Bytes))
  /-- the file operation throws -/
  | throw (text : Bytes)

/-- The handler sends a reply and is idle. -/
def reply (s : System) (p : Process) (store : Store) (files : Files) (c : Connection)
    (frame : Frame) : System :=
  { store
    files
    process := some { p with handler := .idle }
    history := { s.history with replies := s.history.replies ++ [(c.request, frame)] } }

/-- The reply to a handler that throws. -/
def replyThrow (s : System) (p : Process) (files : Files) (c : Connection) (text : Bytes) :
    System :=
  s.reply p s.store files c (throwResponse c.hello text)

/-- The handler goes on in a phase. -/
def await (s : System) (p : Process) (handler : HandlerPhase) : System :=
  { s with process := some { p with handler } }

/-- A request about one Work that begins with `find`. -/
def findFirst (s : System) (p : Process) (c : Connection) (faults : List (Option Bytes))
    (found : WorkRecord → System) : System :=
  match metadataValue c.request "work_id" with
  | .error e => s.replyThrow p s.files c e
  | .ok id =>
      match (find id).exec faults s.store with
      | (.error e, _) => s.replyThrow p s.files c e
      | (.ok none, _) => s.reply p s.store s.files c (workNotFound c.request)
      | (.ok (some work), _) => found work

/-- The first step of a request. -/
def handle (cfg : Config) (s : System) (p : Process) (c : Connection) (nowMs : Int64)
    (draws : UInt64 × UInt64) (faults : List (Option Bytes)) : Option System :=
  if c.request.type = MessageType.submit.code then
    if c.request.payload.length > Wire.kMaxC1TextGenerationOpaquePayloadBytes then
      some (s.reply p s.store s.files c (errorResponse c.request "PAYLOAD_TOO_LARGE"
        "C1 text-generation/v1 input exceeds the 1 MiB bounded payload limit; streaming/spooling is deferred"))
    else
      match submitRecord cfg.dataDir c.request nowMs draws with
      | .error e => some (s.replyThrow p s.files c e)
      | .ok work => some (s.await p (.submitWriting c work))
  else if c.request.type = MessageType.status.code then
    some (s.findFirst p c faults fun work =>
      s.reply p s.store s.files c (statusReply c.request work))
  else if c.request.type = MessageType.result.code then
    some (s.findFirst p c faults fun work => s.await p (.resultFound c work))
  else if c.request.type = MessageType.acknowledge.code then
    some (s.findFirst p c faults fun work => s.await p (.acknowledgeFound c work))
  else if c.request.type = MessageType.cancel.code then
    match metadataValue c.request "work_id" with
    | .error e => some (s.replyThrow p s.files c e)
    | .ok id =>
        match (cancel id).exec faults s.store with
        | (.error e, store) => some (s.reply p store s.files c (throwResponse c.hello e))
        | (.ok none, store) => some (s.reply p store s.files c (workNotFound c.request))
        | (.ok (some state), store) =>
            some (s.reply p store s.files c
              (withField (response .cancelResponse c.request) "state" (stateText state)))
  else if c.request.type = MessageType.listEngines.code
      || c.request.type = MessageType.engineStatus.code then
    -- The two queries about engines read neither the store nor the files.
    none
  else
    some (s.reply p s.store s.files c
      (errorResponse c.request "UNKNOWN_MESSAGE" "unsupported Kernel command"))

/-- The reply to an accepted `SUBMIT`. -/
def submitReply (request : Frame) (work : WorkRecord) : Frame :=
  withField (response .submitResponse request) "work_id" work.id

/-- The reply to an accepted `ACKNOWLEDGE`. -/
def acknowledgeReply (request : Frame) : Frame :=
  withField (response .acknowledgeResponse request) "acknowledged" (Bytes.ofString "true")

/-- A step of the handler after the first one of a request. -/
def proceed (s : System) (p : Process) (faults : List (Option Bytes)) : Option System :=
  match p.handler with
  | .idle => none
  | .submitWriting c work =>
      some (({ s with files := s.files.write (temporary work.inputPath) c.request.payload }).await
        p (.submitRenaming c work))
  | .submitRenaming c work =>
      (s.files.rename (temporary work.inputPath) work.inputPath).map fun files =>
        ({ s with files }).await p (.submitStoring c work)
  | .submitStoring c work =>
      match (submit work).exec faults s.store with
      | (.error e, store) => some (s.reply p store s.files c (throwResponse c.hello e))
      | (.ok (), store) =>
          let replied := s.reply p store s.files c (submitReply c.request work)
          some { replied with
            history := { replied.history with
              submitted := s.history.submitted ++ [(bindText work.id, c.request)] } }
  | .resultFound c work =>
      match resultReply s.files c.request work with
      | .error e => some (s.replyThrow p s.files c e)
      | .ok frame => some (s.reply p s.store s.files c frame)
  | .acknowledgeFound c work =>
      match metadataValue c.request "work_id" with
      | .error e => some (s.replyThrow p s.files c e)
      | .ok id =>
          match (acknowledge id).exec faults s.store with
          | (.error e, store) => some (s.reply p store s.files c (throwResponse c.hello e))
          | (.ok false, store) =>
              some (s.reply p store s.files c (errorResponse c.request
                "RESULT_NOT_ACKNOWLEDGEABLE" "result is not available for acknowledgement"))
          | (.ok true, store) => some (({ s with store }).await p (.removingInput c work))
  | .removingInput c work =>
      some (({ s with files := s.files.remove work.inputPath }).await p (.removingResult c work))
  | .removingResult c work =>
      some (s.reply p s.store (s.files.remove work.resultPath) c (acknowledgeReply c.request))

/-- A step of the handler. -/
def handlerStep (cfg : Config) (s : System) (p : Process) : HandlerInput → Option System
  | .request c nowMs draws faults =>
      match p.handler with
      | .idle => if p.stop then none else s.handle cfg p c nowMs draws faults
      | _ => none
  | .write count =>
      match p.handler with
      | .submitWriting c work =>
          some { s with
            files := s.files.write (temporary work.inputPath) (c.request.payload.take count) }
      | _ => none
  | .proceed faults => s.proceed p faults
  | .throw text =>
      match p.handler with
      | .submitWriting c _ => some (s.replyThrow p s.files c text)
      | .submitRenaming c _ => some (s.replyThrow p s.files c text)
      -- What the removal of a file throws is dropped, and the file stays.
      | .removingInput c work => some (s.await p (.removingResult c work))
      | .removingResult c _ => some (s.reply p s.store s.files c (acknowledgeReply c.request))
      | _ => none

/-! ### The machine -/

/-- What moves the system. -/
inductive Event where
  /-- a Kernel process starts: the clock and the faults of `recover_interrupted` -/
  | start (nowMs : Int64) (faults : List (Option Bytes))
  /-- the process is gone, at whatever point its threads stand -/
  | crash
  /-- the process is asked to stop -/
  | stop
  | scheduler (input : SchedulerInput)
  | task (i : Nat) (input : TaskInput)
  | handler (input : HandlerInput)

/-- The process after its constructor. -/
def freshProcess (cfg : Config) : Process :=
  ⟨false, .sweeping, .idle, [], ResourceManager.ofCapacity cfg.capacity⟩

/-- The constructor of the Kernel: `recover_interrupted`, and the process when it returns. -/
def startStep (cfg : Config) (s : System) (nowMs : Int64) (faults : List (Option Bytes)) :
    System :=
  match (recoverInterrupted nowMs).exec faults s.store with
  | (.ok (), store) => s.update store (some (freshProcess cfg))
  | (.error _, store) => s.update store none

def step (cfg : Config) (s : System) (e : Event) : Option System :=
  match s.process, e with
  | none, .start nowMs faults => some (s.startStep cfg nowMs faults)
  | some _, .crash => some { s with process := none }
  | some p, .stop => some { s with process := some { p with stop := true } }
  | some p, .scheduler input => s.schedulerStep cfg p input
  | some p, .task i input => s.attemptStep p i input
  | some p, .handler input => s.handlerStep cfg p input
  | _, _ => none

/-- Before the first start: an empty database, whatever files there are. -/
def Initial (s : System) : Prop :=
  s.store = Store.empty ∧ s.process = none ∧ s.history = ⟨[], [], []⟩

end System

/-- The system as a state machine. -/
def machine (cfg : Config) : Machine System System.Event := ⟨System.Initial, System.step cfg⟩

end Kernel
