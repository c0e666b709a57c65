import MadreKernel.Lib.Session
import MadreKernel.Store.Schema

/-!
# The operations of `WorkStore`

Each operation is a program of SQL statements over the database, as `store.cpp` has them: the
rows a statement touches are the rows its `WHERE` clause selects.  The operations that write
both tables run in a transaction.  Every operation is atomic: when a statement fails, the
operation raises and the database is as it was.  No operation moves a row, and `submit` alone adds
one.
-/

/-- A program over the Work database; its exceptions carry their text. -/
abbrev StoreProgram (α : Type) := Session Store Bytes α

/-- A text that stands in an SQL statement. -/
def sqlText (s : String) : CString := bindText (Bytes.ofString s)

namespace WorkStore

/-- The attempt row of a Work with a number, while it is running. -/
def runningAttempt (id : Bytes) (attemptNumber : Int32) (a : Attempt) : Bool :=
  a.workId = bindText id && a.attemptNumber = attemptNumber && a.state = .running

/-- The row of a Work, while it is in a state. -/
def workIn (id : Bytes) (state : WorkState) (w : Row) : Bool :=
  w.id = bindText id && w.state = state

/-- `UPDATE attempts SET state=?,ended_at_ms=?,technical_failure=?`. -/
def endAttempt (state : AttemptState) (endedAtMs : Int64) (technicalFailure : CString) :
    AttemptEdit where
  apply a := { a with state, endedAtMs := some endedAtMs, technicalFailure }
  keeps _ := rfl

/-- `UPDATE work SET state=?,technical_failure=?`. -/
def setState (state : WorkState) (technicalFailure : CString) : RowEdit where
  apply w := { w with state, technicalFailure }
  keeps _ := ⟨rfl, Iff.rfl⟩

/-- `UPDATE work SET state='QUEUED',next_attempt_at_ms=?,technical_failure=?,
selected_engine_id='',selected_model_id=''`. -/
def requeue (nextAttemptAtMs : Int64) (technicalFailure : CString) : RowEdit where
  apply w :=
    { w with
      state := .queued
      nextAttemptAtMs
      technicalFailure
      selectedEngineId := sqlText ""
      selectedModelId := sqlText "" }
  keeps _ := ⟨rfl, Iff.rfl⟩

def retryPermitted (work : WorkRecord) (nowMs : Int64) : Bool :=
  if work.attemptCount ≥ work.maxAttempts then false
  else
    match work.deadlineMs with
    | none => true
    | some deadline => nowMs + work.retryDelayMs < deadline

/-- The row that `submit` inserts. -/
def submittedRow (work : WorkRecord) : Row :=
  { work.map bindText with
    attemptCount := 0
    acknowledged := false
    cancelRequested := false
    selectedEngineId := sqlText ""
    selectedModelId := sqlText ""
    technicalFailure := sqlText "" }

def submit (work : WorkRecord) : StoreProgram Unit :=
  Session.insert fun s => s.insertWork (submittedRow work)

def find (id : Bytes) : StoreProgram (Option WorkRecord) :=
  Session.query fun s => (s.row? (bindText id)).map readWork

/-- The place of an urgency in the order of `next_eligible`. -/
def urgencyRank : Urgency → Nat
  | .interactive => 0
  | .normal => 1
  | .background => 2

/-- The order of `next_eligible`, apart from the row ids. -/
def comesBefore (v w : Row) : Bool :=
  urgencyRank v.urgency < urgencyRank w.urgency
    || (urgencyRank v.urgency = urgencyRank w.urgency && v.createdAtMs < w.createdAtMs)

/-- The first row in the order of `next_eligible`: of rows that are level, the one with the
smallest row id. -/
def earliest : List Row → Option Row
  | [] => none
  | w :: rest =>
      match earliest rest with
      | none => some w
      | some v => if comesBefore v w then some v else some w

/-- The rows that `next_eligible` chooses from. -/
def eligible (nowMs : Int64) (w : Row) : Bool :=
  w.state = .queued && !w.cancelRequested && w.eligibleAtMs ≤ nowMs && w.nextAttemptAtMs ≤ nowMs

def nextEligible (nowMs : Int64) : StoreProgram (Option WorkRecord) :=
  Session.query fun s => (earliest (s.works.filter (eligible nowMs))).map readWork

/-- The rows whose deadline `expire_queued_deadlines` finds expired. -/
def expired (nowMs : Int64) (w : Row) : Bool :=
  w.state = .queued && (match w.deadlineMs with
    | none => false
    | some deadline => deadline ≤ nowMs)

def expireQueuedDeadlines (nowMs : Int64) : StoreProgram Unit :=
  Session.update fun s =>
    ((), s.updateWorks (expired nowMs)
      (setState .failed (sqlText "DEADLINE_EXPIRED: Work deadline expired before dispatch")))

def failQueued (id technicalFailure : Bytes) : StoreProgram Unit :=
  Session.update fun s =>
    ((), s.updateWorks (workIn id .queued) (setState .failed (bindText technicalFailure)))

/-- The row that `begin_attempt` may start: the Work is queued and not cancelled. -/
def startable (id : Bytes) (w : Row) : Bool := workIn id .queued w && !w.cancelRequested

/-- `UPDATE work SET state='RUNNING',attempt_count=?,…`. -/
def markRunning (attemptNumber : Int32) (engineId modelId : Bytes) : RowEdit where
  apply w :=
    { w with
      state := .running
      attemptCount := attemptNumber
      selectedEngineId := bindText engineId
      selectedModelId := bindText modelId
      technicalFailure := sqlText "" }
  keeps _ := ⟨rfl, Iff.rfl⟩

/-- The row that `begin_attempt` inserts. -/
def newAttempt (id : Bytes) (attemptNumber : Int32) (engineId modelId : Bytes)
    (startedAtMs : Int64) : Attempt where
  workId := bindText id
  attemptNumber
  engineId := bindText engineId
  modelId := bindText modelId
  startedAtMs
  endedAtMs := none
  state := .running
  technicalFailure := sqlText ""

def beginAttempt (id engineId modelId : Bytes) (startedAtMs : Int64) : StoreProgram Int32 :=
  Session.transaction do
    match ← Session.query fun s => s.works.find? (startable id) with
    | none => return .rollback 0
    | some work =>
        let attemptNumber := work.attemptCount + 1
        let changes ← Session.update fun s =>
          (s.works.countP (startable id),
            s.updateWorks (startable id) (markRunning attemptNumber engineId modelId))
        if changes ≠ 1 then return .rollback 0
        Session.insert fun s =>
          s.insertAttempt (newAttempt id attemptNumber engineId modelId startedAtMs)
        return .commit attemptNumber

/-- The end of an attempt that is not retried: both tables get the same verdict. -/
def finish (attemptState : AttemptState) (workState : WorkState) (technicalFailure : CString)
    (id : Bytes) (attemptNumber : Int32) (endedAtMs : Int64) : StoreProgram Unit :=
  Session.transaction do
    Session.update fun s =>
      ((), s.updateAttempts (runningAttempt id attemptNumber)
        (endAttempt attemptState endedAtMs technicalFailure))
    Session.update fun s =>
      ((), s.updateWorks (workIn id .running) (setState workState technicalFailure))
    return .commit ()

def finishSuccess : (id : Bytes) → (attemptNumber : Int32) → (endedAtMs : Int64) →
    StoreProgram Unit :=
  finish .succeeded .succeeded (sqlText "")

def finishCancelled : (id : Bytes) → (attemptNumber : Int32) → (endedAtMs : Int64) →
    StoreProgram Unit :=
  finish .cancelled .cancelled (sqlText "cancelled")

/-- The verdict on a running Work whose attempt has failed: it is cancelled when that was
requested, queued again when a retry is permitted, and failed otherwise. -/
def failureVerdict (work : WorkRecord) (nowMs : Int64) (cancelText failureText : CString) :
    RowEdit :=
  if work.cancelRequested then setState .cancelled cancelText
  else if retryPermitted work nowMs then requeue (nowMs + work.retryDelayMs) failureText
  else setState .failed failureText

/-- The states that `finish_retryable_failure` accepts for the attempt. -/
def retryableState (attemptState : AttemptState) : Bool :=
  attemptState = .failed || attemptState = .timedOut

def finishRetryableFailure (id : Bytes) (attemptNumber : Int32) (attemptState : AttemptState)
    (technicalFailure : Bytes) (endedAtMs : Int64) : StoreProgram Unit :=
  if !retryableState attemptState then
    Session.raise (Bytes.ofString "retryable attempt state must be FAILED or TIMED_OUT")
  else
    Session.transaction do
      match ← Session.query fun s => s.works.find? (workIn id .running) with
      | none => return .rollback ()
      | some row =>
          Session.update fun s =>
            ((), s.updateAttempts (runningAttempt id attemptNumber)
              (endAttempt attemptState endedAtMs (bindText technicalFailure)))
          Session.update fun s =>
            ((), s.updateWorks (workIn id .running)
              (failureVerdict (readWork row) endedAtMs (sqlText "cancelled")
                (bindText technicalFailure)))
          return .commit ()

/-- The text of an attempt that a restart interrupted. -/
def restartText : CString := sqlText "Kernel restarted during active attempt"

/-- The loop of `recover_interrupted` over the Works that were running. -/
def recoverEach (nowMs : Int64) : List Row → StoreProgram Unit
  | [] => pure ()
  | row :: rest => do
      let work := readWork row
      Session.update fun s =>
        ((), s.updateAttempts (runningAttempt work.id work.attemptCount)
          (endAttempt .interrupted nowMs restartText))
      Session.update fun s =>
        ((), s.updateWorks (workIn work.id .running)
          (failureVerdict work nowMs (sqlText "cancelled before restart recovery") restartText))
      recoverEach nowMs rest

def recoverInterrupted (nowMs : Int64) : StoreProgram Unit :=
  Session.transaction do
    let running ← Session.query fun s => s.works.filter (·.state = .running)
    recoverEach nowMs running
    return .commit ()

/-- `UPDATE work SET state='CANCELLED',cancel_requested=1,technical_failure='cancelled'`. -/
def cancelQueued : RowEdit where
  apply w :=
    { w with state := .cancelled, cancelRequested := true, technicalFailure := sqlText "cancelled" }
  keeps _ := ⟨rfl, Iff.rfl⟩

/-- `UPDATE work SET cancel_requested=1`. -/
def requestCancel : RowEdit where
  apply w := { w with cancelRequested := true }
  keeps _ := ⟨rfl, Iff.rfl⟩

/-- `cancel` returns the state it leaves the Work in, or nothing when there is no such Work. -/
def cancel (id : Bytes) : StoreProgram (Option WorkState) := do
  match ← Session.query fun s => s.row? (bindText id) with
  | none => return none
  | some row =>
      match row.state with
      | .queued =>
          Session.update fun s =>
            (some WorkState.cancelled, s.updateWorks (workIn id .queued) cancelQueued)
      | .running =>
          Session.update fun s =>
            (some WorkState.running, s.updateWorks (workIn id .running) requestCancel)
      | state => return some state

def cancelRequested (id : Bytes) : StoreProgram Bool :=
  Session.query fun s => (s.row? (bindText id)).any (·.cancelRequested)

/-- The row that `acknowledge` may change. -/
def acknowledgeable (id : Bytes) (w : Row) : Bool := workIn id .succeeded w && !w.acknowledged

/-- `UPDATE work SET acknowledged=1`. -/
def markAcknowledged : RowEdit where
  apply w := { w with acknowledged := true }
  keeps _ := ⟨rfl, Iff.rfl⟩

def acknowledge (id : Bytes) : StoreProgram Bool :=
  Session.update fun s =>
    (s.works.countP (acknowledgeable id) = 1,
      s.updateWorks (acknowledgeable id) markAcknowledged)

/-! ### Atomicity -/

theorem submit_atomic (work : WorkRecord) :
  (submit work).Atomic
  := Session.Atomic.insert _

theorem find_atomic (id : Bytes) :
  (find id).Atomic
  := Session.Atomic.query _

theorem nextEligible_atomic (nowMs : Int64) :
  (nextEligible nowMs).Atomic
  := Session.Atomic.query _

theorem expireQueuedDeadlines_atomic (nowMs : Int64) :
  (expireQueuedDeadlines nowMs).Atomic
  := Session.Atomic.update _

theorem failQueued_atomic (id technicalFailure : Bytes) :
  (failQueued id technicalFailure).Atomic
  := Session.Atomic.update _

theorem beginAttempt_atomic (id engineId modelId : Bytes) (startedAtMs : Int64) :
  (beginAttempt id engineId modelId startedAtMs).Atomic
  := Session.Atomic.transaction _

theorem finish_atomic (attemptState : AttemptState) (workState : WorkState)
    (technicalFailure : CString) (id : Bytes) (attemptNumber : Int32) (endedAtMs : Int64) :
  (finish attemptState workState technicalFailure id attemptNumber endedAtMs).Atomic
  := Session.Atomic.transaction _

theorem finishRetryableFailure_atomic (id : Bytes) (attemptNumber : Int32)
    (attemptState : AttemptState) (technicalFailure : Bytes) (endedAtMs : Int64) :
  (finishRetryableFailure id attemptNumber attemptState technicalFailure endedAtMs).Atomic
  := by
  rw [finishRetryableFailure]
  split_ifs
  · apply Session.Atomic.raise
  · apply Session.Atomic.transaction

theorem recoverInterrupted_atomic (nowMs : Int64) :
  (recoverInterrupted nowMs).Atomic
  := Session.Atomic.transaction _

theorem cancel_atomic (id : Bytes) :
  (cancel id).Atomic
  := by
  apply Session.Atomic.query_bind
  rintro (_ | row)
  · apply Session.Atomic.pure
  · simp only
    cases row.state with
    | queued => apply Session.Atomic.update
    | running => apply Session.Atomic.update
    | succeeded => apply Session.Atomic.pure
    | failed => apply Session.Atomic.pure
    | cancelled => apply Session.Atomic.pure

theorem cancelRequested_atomic (id : Bytes) :
  (cancelRequested id).Atomic
  := Session.Atomic.query _

theorem acknowledge_atomic (id : Bytes) :
  (acknowledge id).Atomic
  := Session.Atomic.update _

/-! ### The order of the rows -/

theorem ids_updateWorks (s : Store) (where? : Row → Bool) (e : RowEdit) :
  (s.updateWorks where? e).ids = s.ids
  := by
  rw [Store.ids, Store.updateWorks, List.map_map]
  apply List.map_congr_left
  intro w _
  exact e.at_id where? w

theorem ids_insertAttempt (s s' : Store) (a : Attempt) (h : s.insertAttempt a = .ok s') :
  s'.ids = s.ids
  := by
  rw [Store.ids, (Store.insertAttempt_ok h).2.1]
  rfl

theorem expireQueuedDeadlines_keeps (nowMs : Int64) :
  (expireQueuedDeadlines nowMs).Keeps Store.ids
  := .update fun s => ids_updateWorks s _ _

theorem failQueued_keeps (id technicalFailure : Bytes) :
  (failQueued id technicalFailure).Keeps Store.ids
  := .update fun s => ids_updateWorks s _ _

theorem beginAttempt_keeps (id engineId modelId : Bytes) (startedAtMs : Int64) :
  (beginAttempt id engineId modelId startedAtMs).Keeps Store.ids
  := by
  apply Session.Keeps.transaction
  apply Session.Keeps.bind (.query _)
  rintro (_ | work)
  · apply Session.Keeps.pure
  · apply Session.Keeps.bind (.update fun s => ids_updateWorks s _ _)
    intro changes
    split_ifs
    · apply Session.Keeps.pure
    · apply Session.Keeps.bind (.insert fun s s' => ids_insertAttempt s s' _)
      intro _
      apply Session.Keeps.pure

theorem finish_keeps (attemptState : AttemptState) (workState : WorkState)
    (technicalFailure : CString) (id : Bytes) (attemptNumber : Int32) (endedAtMs : Int64) :
  (finish attemptState workState technicalFailure id attemptNumber endedAtMs).Keeps Store.ids
  := by
  apply Session.Keeps.transaction
  apply Session.Keeps.bind (.update fun _ => rfl)
  intro _
  apply Session.Keeps.bind (.update fun s => ids_updateWorks s _ _)
  intro _
  apply Session.Keeps.pure

theorem finishRetryableFailure_keeps (id : Bytes) (attemptNumber : Int32)
    (attemptState : AttemptState) (technicalFailure : Bytes) (endedAtMs : Int64) :
  (finishRetryableFailure id attemptNumber attemptState technicalFailure endedAtMs).Keeps Store.ids
  := by
  rw [finishRetryableFailure]
  split_ifs
  · apply Session.Keeps.raise
  · apply Session.Keeps.transaction
    apply Session.Keeps.bind (.query _)
    rintro (_ | row)
    · apply Session.Keeps.pure
    · apply Session.Keeps.bind (.update fun _ => rfl)
      intro _
      apply Session.Keeps.bind (.update fun s => ids_updateWorks s _ _)
      intro _
      apply Session.Keeps.pure

theorem recoverEach_keeps (nowMs : Int64) (l : List Row) :
  (recoverEach nowMs l).Keeps Store.ids
  := by
  induction l with
  | nil => apply Session.Keeps.pure
  | cons row rest ih =>
      rw [recoverEach]
      apply Session.Keeps.bind (.update fun _ => rfl)
      intro _
      apply Session.Keeps.bind (.update fun s => ids_updateWorks s _ _)
      intro _
      exact ih

theorem recoverInterrupted_keeps (nowMs : Int64) :
  (recoverInterrupted nowMs).Keeps Store.ids
  := by
  apply Session.Keeps.transaction
  apply Session.Keeps.bind (.query _)
  intro running
  apply Session.Keeps.bind (recoverEach_keeps nowMs running)
  intro _
  apply Session.Keeps.pure

theorem cancel_keeps (id : Bytes) :
  (cancel id).Keeps Store.ids
  := by
  apply Session.Keeps.bind (.query _)
  rintro (_ | row)
  · apply Session.Keeps.pure
  · simp only
    cases row.state with
    | queued => exact .update fun s => ids_updateWorks s _ _
    | running => exact .update fun s => ids_updateWorks s _ _
    | succeeded => apply Session.Keeps.pure
    | failed => apply Session.Keeps.pure
    | cancelled => apply Session.Keeps.pure

theorem acknowledge_keeps (id : Bytes) :
  (acknowledge id).Keeps Store.ids
  := .update fun s => ids_updateWorks s _ _

end WorkStore
