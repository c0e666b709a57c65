import MadreKernel.Store.Operations

/-!
# Properties of the rows

A property that the edits of an operation of `WorkStore` keep is kept by every run of the
operation, in every row of the table `work`.  The exceptions of the operations that end an attempt
are the faults of their statements.
-/

namespace Store

/-- Every row of the table `work` has a property. -/
def EveryRow (R : Row → Prop) (s : Store) : Prop := ∀ w ∈ s.works, R w

variable {R : Row → Prop} {s s' : Store}

theorem EveryRow.updateWorks (hs : s.EveryRow R) (where? : Row → Bool) {e : RowEdit}
    (h : ∀ w, R w → R (e.apply w)) :
  (s.updateWorks where? e).EveryRow R
  := by
  intro w hw
  obtain ⟨v, hv, rfl⟩ := List.mem_map.mp hw
  rw [RowEdit.at]
  split_ifs
  · exact h v (hs v hv)
  · exact hs v hv

theorem EveryRow.insertWork {w : Row} (hs : s.EveryRow R) (hw : R w)
    (h : s.insertWork w = .ok s') :
  s'.EveryRow R
  := by
  intro v hv
  rw [(insertWork_ok h).2.2.1] at hv
  rcases List.mem_append.mp hv with hv | hv
  · exact hs v hv
  · rw [List.mem_singleton.mp hv]
    exact hw

theorem EveryRow.insertAttempt {a : Attempt} (hs : s.EveryRow R)
    (h : s.insertAttempt a = .ok s') :
  s'.EveryRow R
  := by
  intro w hw
  rw [(insertAttempt_ok h).2.1] at hw
  exact hs w hw

end Store

namespace WorkStore

variable {R : Row → Prop}

/-! ### The operations -/

theorem submit_preserves {work : WorkRecord} (h : R (submittedRow work)) :
  (submit work).Preserves (Store.EveryRow R)
  := .insert fun _ _ hinsert hs => hs.insertWork h hinsert

theorem expireQueuedDeadlines_preserves (nowMs : Int64)
    (h : ∀ w, R w → R ((setState .failed
      (sqlText "DEADLINE_EXPIRED: Work deadline expired before dispatch")).apply w)) :
  (expireQueuedDeadlines nowMs).Preserves (Store.EveryRow R)
  := .update fun _ hs => hs.updateWorks _ h

theorem failQueued_preserves (id : Bytes) {technicalFailure : Bytes}
    (h : ∀ w, R w → R ((setState .failed (bindText technicalFailure)).apply w)) :
  (failQueued id technicalFailure).Preserves (Store.EveryRow R)
  := .update fun _ hs => hs.updateWorks _ h

theorem beginAttempt_preserves (id engineId modelId : Bytes) (startedAtMs : Int64)
    (h : ∀ number w, R w → R ((markRunning number engineId modelId).apply w)) :
  (beginAttempt id engineId modelId startedAtMs).Preserves (Store.EveryRow R)
  := by
  apply Session.Preserves.transaction
  refine Session.Preserves.bind (.query _) ?_
  rintro (_ | work)
  · apply Session.Preserves.pure
  · refine Session.Preserves.bind (.update fun s hs => hs.updateWorks _ (h _)) ?_
    intro changes
    split_ifs
    · apply Session.Preserves.pure
    · refine Session.Preserves.bind (.insert fun s s' hinsert hs => hs.insertAttempt hinsert) ?_
      intro _
      apply Session.Preserves.pure

theorem finish_preserves (attemptState : AttemptState) {workState : WorkState}
    {technicalFailure : CString} (id : Bytes) (attemptNumber : Int32) (endedAtMs : Int64)
    (h : ∀ w, R w → R ((setState workState technicalFailure).apply w)) :
  (finish attemptState workState technicalFailure id attemptNumber endedAtMs).Preserves
    (Store.EveryRow R)
  := by
  apply Session.Preserves.transaction
  refine Session.Preserves.bind (.update fun _ hs => hs) ?_
  intro _
  refine Session.Preserves.bind (.update fun s hs => hs.updateWorks _ h) ?_
  intro _
  apply Session.Preserves.pure

theorem finishRetryableFailure_preserves (id : Bytes) (attemptNumber : Int32)
    (attemptState : AttemptState) {technicalFailure : Bytes} (endedAtMs : Int64)
    (h : ∀ work w, R w → R ((failureVerdict work endedAtMs (sqlText "cancelled")
      (bindText technicalFailure)).apply w)) :
  (finishRetryableFailure id attemptNumber attemptState technicalFailure endedAtMs).Preserves
    (Store.EveryRow R)
  := by
  rw [finishRetryableFailure]
  split_ifs
  · apply Session.Preserves.raise
  · apply Session.Preserves.transaction
    refine Session.Preserves.bind (.query _) ?_
    rintro (_ | row)
    · apply Session.Preserves.pure
    · refine Session.Preserves.bind (.update fun _ hs => hs) ?_
      intro _
      refine Session.Preserves.bind (.update fun s hs => hs.updateWorks _ (h _)) ?_
      intro _
      apply Session.Preserves.pure

theorem recoverEach_preserves {nowMs : Int64}
    (h : ∀ work w, R w → R ((failureVerdict work nowMs (sqlText "cancelled before restart recovery")
      restartText).apply w))
    (l : List Row) :
  (recoverEach nowMs l).Preserves (Store.EveryRow R)
  := by
  induction l with
  | nil => apply Session.Preserves.pure
  | cons row rest ih =>
      rw [recoverEach]
      refine Session.Preserves.bind (.update fun _ hs => hs) ?_
      intro _
      refine Session.Preserves.bind (.update fun s hs => hs.updateWorks _ (h _)) ?_
      intro _
      exact ih

theorem recoverInterrupted_preserves {nowMs : Int64}
    (h : ∀ work w, R w → R ((failureVerdict work nowMs (sqlText "cancelled before restart recovery")
      restartText).apply w)) :
  (recoverInterrupted nowMs).Preserves (Store.EveryRow R)
  := by
  apply Session.Preserves.transaction
  refine Session.Preserves.bind (.query _) ?_
  intro running
  refine Session.Preserves.bind (recoverEach_preserves h running) ?_
  intro _
  apply Session.Preserves.pure

theorem cancel_preserves (id : Bytes) (hqueued : ∀ w, R w → R (cancelQueued.apply w))
    (hrunning : ∀ w, R w → R (requestCancel.apply w)) :
  (cancel id).Preserves (Store.EveryRow R)
  := by
  refine Session.Preserves.bind (.query _) ?_
  rintro (_ | row)
  · apply Session.Preserves.pure
  · simp only
    cases row.state with
    | queued => exact .update fun s hs => hs.updateWorks _ hqueued
    | running => exact .update fun s hs => hs.updateWorks _ hrunning
    | succeeded => apply Session.Preserves.pure
    | failed => apply Session.Preserves.pure
    | cancelled => apply Session.Preserves.pure

theorem acknowledge_preserves (id : Bytes) (h : ∀ w, R w → R (markAcknowledged.apply w)) :
  (acknowledge id).Preserves (Store.EveryRow R)
  := .update fun _ hs => hs.updateWorks _ h

/-! ### Exceptions -/

theorem finish_raisesOnly {T : Bytes → Prop} (attemptState : AttemptState) (workState : WorkState)
    (technicalFailure : CString) (id : Bytes) (attemptNumber : Int32) (endedAtMs : Int64) :
  (finish attemptState workState technicalFailure id attemptNumber endedAtMs).RaisesOnly T
  := by
  apply Session.RaisesOnly.transaction
  refine Session.RaisesOnly.bind (.update _) ?_
  intro _
  refine Session.RaisesOnly.bind (.update _) ?_
  intro _
  apply Session.RaisesOnly.pure

theorem finishRetryableFailure_raisesOnly {T : Bytes → Prop} (id : Bytes) (attemptNumber : Int32)
    (attemptState : AttemptState) (technicalFailure : Bytes) (endedAtMs : Int64)
    (h : T (Bytes.ofString "retryable attempt state must be FAILED or TIMED_OUT")) :
  (finishRetryableFailure id attemptNumber attemptState technicalFailure endedAtMs).RaisesOnly T
  := by
  rw [finishRetryableFailure]
  split_ifs
  · exact .raise h
  · apply Session.RaisesOnly.transaction
    refine Session.RaisesOnly.bind (.query _) ?_
    rintro (_ | row)
    · apply Session.RaisesOnly.pure
    · refine Session.RaisesOnly.bind (.update _) ?_
      intro _
      refine Session.RaisesOnly.bind (.update _) ?_
      intro _
      apply Session.RaisesOnly.pure

end WorkStore
