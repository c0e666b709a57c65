import MadreKernel.Store.Lifecycle

/-!
# Lifecycle safety

Whatever the database holds and whatever operation of `WorkStore` runs on it, with whatever
arguments and whichever statements fail, the row of a Work changes only along the lifecycle:
its state takes one of the seven transitions, and the row of a finished Work keeps all its
columns, but for one acknowledgement of a succeeded Work.
-/

/-- The transitions of the state of a Work. -/
def WorkState.transitions : List (WorkState × WorkState) :=
  [(.queued, .running), (.queued, .failed), (.queued, .cancelled), (.running, .succeeded),
    (.running, .failed), (.running, .cancelled), (.running, .queued)]

/-- The acknowledgement of a result: a succeeded Work that was not acknowledged. -/
def Row.Acknowledges (w w' : Row) : Prop :=
  w.state = .succeeded ∧ w.acknowledged = false ∧ w' = { w with acknowledged := true }

/-- The change of a row along the lifecycle. -/
structure Row.Follows (w w' : Row) : Prop where
  state : w'.state = w.state ∨ (w.state, w'.state) ∈ WorkState.transitions
  finished : w.state.terminal = true → w' = w ∨ Row.Acknowledges w w'
  acknowledged : w'.acknowledged = w.acknowledged ∨ Row.Acknowledges w w'

namespace Row.Follows

theorem refl (w : Row) :
  Row.Follows w w
  := ⟨Or.inl rfl, fun _ => Or.inl rfl, Or.inl rfl⟩

/-- A transition of a Work that is not finished keeps to the lifecycle. -/
theorem of_transition {w w' : Row} (hstate : (w.state, w'.state) ∈ WorkState.transitions)
    (hacknowledged : w'.acknowledged = w.acknowledged) :
  Row.Follows w w'
  := by
  refine ⟨Or.inr hstate, ?_, Or.inl hacknowledged⟩
  intro hterminal
  exfalso
  revert hstate hterminal
  cases w.state <;> simp [WorkState.transitions, WorkState.terminal]

end Row.Follows

namespace WorkAction

open WorkStore

/-- The actions of the operations: an attempt that ends without a failure leaves the Work
succeeded or cancelled. -/
def Lawful : WorkAction → Prop
  | .finish _ workState _ _ _ => workState = .succeeded ∨ workState = .cancelled
  | _ => True

theorem failureVerdict_follows {w : Row} (hrunning : w.state = .running) (work : WorkRecord)
    (nowMs : Int64) (cancelText failureText : CString) :
  Row.Follows w ((failureVerdict work nowMs cancelText failureText).apply w)
  := by
  rw [failureVerdict]
  split_ifs
  all_goals
    apply Row.Follows.of_transition
    · simp [setState, requeue, hrunning, WorkState.transitions]
    · rfl

theorem endRunning_follows {v : WorkView} {w : Row} (hrow : v.row? = some w)
    (attemptState : AttemptState) (cancelText failureText : CString) (number : Row → Int32)
    (nowMs : Int64) :
  ∃ w', (endRunning attemptState cancelText failureText number nowMs v).row? = some w'
    ∧ Row.Follows w w'
  := by
  simp only [endRunning, hrow]
  split_ifs with hrunning
  · exact ⟨_, rfl, failureVerdict_follows hrunning _ _ _ _⟩
  · exact ⟨w, hrow, Row.Follows.refl w⟩

/-- An action takes the row of a Work along the lifecycle. -/
theorem apply_follows {a : WorkAction} (ha : a.Lawful) {v : WorkView} {w : Row}
    (hrow : v.row? = some w) :
  ∃ w', (a.apply v).row? = some w' ∧ Row.Follows w w'
  := by
  cases a with
  | expire nowMs =>
      simp only [apply, hrow, Option.map_some]
      refine ⟨_, rfl, ?_⟩
      split_ifs with hexpired
      · apply Row.Follows.of_transition
        · simp only [expired, Bool.and_eq_true, decide_eq_true_eq] at hexpired
          simp [hexpired.1, WorkState.transitions]
        · rfl
      · exact Row.Follows.refl w
  | fail technicalFailure =>
      simp only [apply, WorkView.editIn, hrow, Option.map_some]
      refine ⟨_, rfl, ?_⟩
      split_ifs with hqueued
      · apply Row.Follows.of_transition
        · simp [setState, hqueued, WorkState.transitions]
        · rfl
      · exact Row.Follows.refl w
  | start engineId modelId startedAtMs =>
      simp only [apply, hrow]
      split_ifs with hstart
      · refine ⟨_, rfl, ?_⟩
        apply Row.Follows.of_transition
        · simp only [startable, Bool.and_eq_true, decide_eq_true_eq] at hstart
          simp [startRow, hstart.1, WorkState.transitions]
        · rfl
      · exact ⟨w, hrow, Row.Follows.refl w⟩
  | finish attemptState workState technicalFailure attemptNumber endedAtMs =>
      simp only [apply, WorkView.editIn, WorkView.endAttempt, hrow, Option.map_some]
      refine ⟨_, rfl, ?_⟩
      split_ifs with hrunning
      · apply Row.Follows.of_transition
        · rcases ha with rfl | rfl <;> simp [setState, hrunning, WorkState.transitions]
        · rfl
      · exact Row.Follows.refl w
  | failAttempt attemptState technicalFailure attemptNumber endedAtMs =>
      exact endRunning_follows hrow _ _ _ _ _
  | recover nowMs => exact endRunning_follows hrow _ _ _ _ _
  | cancel =>
      simp only [apply, WorkView.editIn, hrow, Option.map_some]
      refine ⟨_, rfl, ?_⟩
      cases hstate : w.state with
      | queued =>
          simp only [reduceCtorEq, if_false, hstate, if_true]
          apply Row.Follows.of_transition
          · simp [cancelQueued, hstate, WorkState.transitions]
          · rfl
      | running =>
          simp only [if_true, requestCancel, hstate, reduceCtorEq, if_false]
          refine ⟨Or.inl hstate.symm, ?_, Or.inl rfl⟩
          intro hterminal
          simp [hstate, WorkState.terminal] at hterminal
      | _ =>
          simp only [hstate, reduceCtorEq, if_false]
          exact Row.Follows.refl w
  | acknowledge =>
      simp only [apply, hrow, Option.map_some]
      refine ⟨_, rfl, ?_⟩
      split_ifs with hack
      · exact ⟨Or.inl rfl, fun _ => Or.inr ⟨hack.1, hack.2, rfl⟩, Or.inr ⟨hack.1, hack.2, rfl⟩⟩
      · exact Row.Follows.refl w

/-- Only an acknowledgement changes whether a Work is acknowledged. -/
theorem apply_acknowledged {a : WorkAction} (ha : a ≠ .acknowledge) {v : WorkView} {w w' : Row}
    (hrow : v.row? = some w) (hrow' : (a.apply v).row? = some w') :
  w'.acknowledged = w.acknowledged
  := by
  have hverdict : ∀ work nowMs cancelText failureText,
      ((failureVerdict work nowMs cancelText failureText).apply w).acknowledged
        = w.acknowledged := by
    intro work nowMs cancelText failureText
    rw [failureVerdict]
    split_ifs <;> rfl
  cases a with
  | acknowledge => exact absurd rfl ha
  | failAttempt attemptState technicalFailure attemptNumber endedAtMs =>
      simp only [apply, endRunning, hrow] at hrow'
      split_ifs at hrow'
      · cases hrow'
        apply hverdict
      · rw [hrow] at hrow'
        cases hrow'
        rfl
  | recover nowMs =>
      simp only [apply, endRunning, hrow] at hrow'
      split_ifs at hrow'
      · cases hrow'
        apply hverdict
      · rw [hrow] at hrow'
        cases hrow'
        rfl
  | start engineId modelId startedAtMs =>
      simp only [apply, hrow] at hrow'
      split_ifs at hrow'
      · cases hrow'
        rfl
      · rw [hrow] at hrow'
        cases hrow'
        rfl
  | cancel =>
      simp only [apply, WorkView.editIn, hrow, Option.map_some, Option.some.injEq] at hrow'
      subst hrow'
      split_ifs <;> rfl
  | _ =>
      simp only [apply, WorkView.editIn, WorkView.endAttempt, hrow, Option.map_some,
        Option.some.injEq] at hrow'
      subst hrow'
      split_ifs <;> rfl

end WorkAction

/-! ### Operations and runs -/

/-- An operation of `WorkStore` with its arguments. -/
inductive Operation where
  | submit (work : WorkRecord)
  | find (id : Bytes)
  | nextEligible (nowMs : Int64)
  | expireQueuedDeadlines (nowMs : Int64)
  | failQueued (id technicalFailure : Bytes)
  | beginAttempt (id engineId modelId : Bytes) (startedAtMs : Int64)
  | finishSuccess (id : Bytes) (attemptNumber : Int32) (endedAtMs : Int64)
  | finishCancelled (id : Bytes) (attemptNumber : Int32) (endedAtMs : Int64)
  | finishRetryableFailure (id : Bytes) (attemptNumber : Int32) (attemptState : AttemptState)
      (technicalFailure : Bytes) (endedAtMs : Int64)
  | recoverInterrupted (nowMs : Int64)
  | cancel (id : Bytes)
  | cancelRequested (id : Bytes)
  | acknowledge (id : Bytes)

/-- What an operation returns. -/
inductive Returned where
  | nothing
  | work (found : Option WorkRecord)
  | number (attemptNumber : Int32)
  | state (state : Option WorkState)
  | flag (value : Bool)
  deriving DecidableEq

namespace Operation

/-- An operation as a program that returns a `Returned`. -/
def returning {α : Type} (p : StoreProgram α) (returned : α → Returned)
    (faults : List (Option Bytes)) (s : Store) : Except Bytes Returned × Store :=
  ((p.exec faults s).1.map returned, (p.exec faults s).2)

/-- What an operation returns or raises, and the database it leaves. -/
def exec : Operation → List (Option Bytes) → Store → Except Bytes Returned × Store
  | .submit work => returning (WorkStore.submit work) fun _ => .nothing
  | .find id => returning (WorkStore.find id) .work
  | .nextEligible nowMs => returning (WorkStore.nextEligible nowMs) .work
  | .expireQueuedDeadlines nowMs =>
      returning (WorkStore.expireQueuedDeadlines nowMs) fun _ => .nothing
  | .failQueued id technicalFailure =>
      returning (WorkStore.failQueued id technicalFailure) fun _ => .nothing
  | .beginAttempt id engineId modelId startedAtMs =>
      returning (WorkStore.beginAttempt id engineId modelId startedAtMs) .number
  | .finishSuccess id attemptNumber endedAtMs =>
      returning (WorkStore.finishSuccess id attemptNumber endedAtMs) fun _ => .nothing
  | .finishCancelled id attemptNumber endedAtMs =>
      returning (WorkStore.finishCancelled id attemptNumber endedAtMs) fun _ => .nothing
  | .finishRetryableFailure id attemptNumber attemptState technicalFailure endedAtMs =>
      returning (WorkStore.finishRetryableFailure id attemptNumber attemptState technicalFailure
        endedAtMs) fun _ => .nothing
  | .recoverInterrupted nowMs => returning (WorkStore.recoverInterrupted nowMs) fun _ => .nothing
  | .cancel id => returning (WorkStore.cancel id) .state
  | .cancelRequested id => returning (WorkStore.cancelRequested id) .flag
  | .acknowledge id => returning (WorkStore.acknowledge id) .flag

/-- The actions that an operation may take. -/
def Permits : Operation → WorkAction → Prop
  | .acknowledge _, a => a = .acknowledge
  | _, a => a.Lawful ∧ a ≠ .acknowledge

/-- The changes of a database by an operation. -/
inductive Changes (op : Operation) (s : Store) : Store → Prop where
  | none : Changes op s s
  | one {a : WorkAction} {id : CString} {s' : Store} (h : a.ActsAt id s s') (ha : op.Permits a) :
      Changes op s s'
  | every {a : WorkAction} {s' : Store} (h : a.ActsEverywhere s s') (ha : op.Permits a) :
      Changes op s s'
  | submit (row : Row) {s' : Store} (hnew : s.row? row.id = none)
      (h : ∀ j, j ≠ row.id → s'.view j = s.view j) : Changes op s s'

/-- A program that is atomic changes the database as its run without faults does. -/
theorem changes_of_eval {α : Type} {op : Operation} {p : StoreProgram α} (hp : p.Atomic)
    {s : Store} (h : ∀ a s', p.eval s = (.ok a, s') → Changes op s s')
    (returned : α → Returned) (faults : List (Option Bytes)) :
  Changes op s (returning p returned faults s).2
  := by
  rw [returning]
  rcases hp.exec_cases faults s with ⟨e, hexec⟩ | ⟨a, s', hexec, heval⟩
  · rw [hexec]
    exact Changes.none
  · rw [hexec]
    exact h a s' heval

theorem snd_of_eval {α : Type} {p : StoreProgram α} {s s' : Store} {a : α}
    (h : p.eval s = (.ok a, s')) :
  (p.eval s).2 = s'
  := by
  rw [h]

/-- Every operation keeps to the actions that it permits. -/
theorem exec_changes (op : Operation) (faults : List (Option Bytes)) (s : Store) :
  Changes op s (op.exec faults s).2
  := by
  cases op with
  | submit work =>
      apply changes_of_eval (WorkStore.submit_atomic work)
      intro a s' heval
      obtain ⟨hnew, -, hviews⟩ := WorkStore.submit_acts heval
      apply Changes.submit (WorkStore.submittedRow work) hnew
      intro j hj
      exact (hviews j).trans (if_neg hj)
  | find id =>
      apply changes_of_eval (WorkStore.find_atomic id)
      rintro a s' ⟨⟩
      exact Changes.none
  | nextEligible nowMs =>
      apply changes_of_eval (WorkStore.nextEligible_atomic nowMs)
      rintro a s' ⟨⟩
      exact Changes.none
  | expireQueuedDeadlines nowMs =>
      apply changes_of_eval (WorkStore.expireQueuedDeadlines_atomic nowMs)
      intro a s' heval
      rw [← snd_of_eval heval]
      exact Changes.every (WorkStore.expireQueuedDeadlines_acts nowMs s) ⟨trivial, by simp⟩
  | failQueued id technicalFailure =>
      apply changes_of_eval (WorkStore.failQueued_atomic id technicalFailure)
      intro a s' heval
      rw [← snd_of_eval heval]
      exact Changes.one (WorkStore.failQueued_acts id technicalFailure s) ⟨trivial, by simp⟩
  | beginAttempt id engineId modelId startedAtMs =>
      apply changes_of_eval (WorkStore.beginAttempt_atomic id engineId modelId startedAtMs)
      intro a s' heval
      rcases WorkStore.beginAttempt_acts heval with ⟨-, rfl⟩ | ⟨w, -, -, -, hacts⟩
      · exact Changes.none
      · exact Changes.one hacts ⟨trivial, by simp⟩
  | finishSuccess id attemptNumber endedAtMs =>
      apply changes_of_eval (WorkStore.finish_atomic _ _ _ _ _ _)
      intro a s' heval
      rw [← snd_of_eval heval]
      exact Changes.one (WorkStore.finish_acts _ _ _ _ _ _ _) ⟨Or.inl rfl, by simp⟩
  | finishCancelled id attemptNumber endedAtMs =>
      apply changes_of_eval (WorkStore.finish_atomic _ _ _ _ _ _)
      intro a s' heval
      rw [← snd_of_eval heval]
      exact Changes.one (WorkStore.finish_acts _ _ _ _ _ _ _) ⟨Or.inr rfl, by simp⟩
  | finishRetryableFailure id attemptNumber attemptState technicalFailure endedAtMs =>
      apply changes_of_eval (WorkStore.finishRetryableFailure_atomic _ _ _ _ _)
      intro a s' heval
      by_cases hstate : WorkStore.retryableState attemptState = true
      · rw [← snd_of_eval heval]
        exact Changes.one (WorkStore.finishRetryableFailure_acts hstate _ _ _ _ _) ⟨trivial, by simp⟩
      · simp [WorkStore.finishRetryableFailure, hstate] at heval
  | recoverInterrupted nowMs =>
      apply changes_of_eval (WorkStore.recoverInterrupted_atomic nowMs)
      intro a s' heval
      rw [← snd_of_eval heval]
      exact Changes.every (WorkStore.recoverInterrupted_acts nowMs s) ⟨trivial, by simp⟩
  | cancel id =>
      apply changes_of_eval (WorkStore.cancel_atomic id)
      intro a s' heval
      rw [← snd_of_eval heval]
      exact Changes.one (WorkStore.cancel_acts id s) ⟨trivial, by simp⟩
  | cancelRequested id =>
      apply changes_of_eval (WorkStore.cancelRequested_atomic id)
      rintro a s' ⟨⟩
      exact Changes.none
  | acknowledge id =>
      apply changes_of_eval (WorkStore.acknowledge_atomic id)
      intro a s' heval
      rw [← snd_of_eval heval]
      exact Changes.one (WorkStore.acknowledge_acts id s) rfl

theorem Permits.lawful {op : Operation} {a : WorkAction} (h : op.Permits a) :
  a.Lawful
  := by
  cases op with
  | acknowledge id =>
      cases h
      trivial
  | _ => exact h.1

/-- The row of a Work stays in the table, and follows the lifecycle. -/
theorem Changes.row_follows {op : Operation} {s s' : Store} (h : Changes op s s') {id : CString}
    {w : Row} (hrow : s.row? id = some w) :
  ∃ w', s'.row? id = some w' ∧ Row.Follows w w'
  := by
  cases h with
  | none => exact ⟨w, hrow, Row.Follows.refl w⟩
  | @one a id' s' h ha =>
      have hview := congrArg WorkView.row? (h id)
      by_cases hid : id = id'
      · rw [if_pos hid] at hview
        obtain ⟨w', hw', hfollows⟩ := WorkAction.apply_follows ha.lawful (v := s.view id) hrow
        exact ⟨w', hview.trans hw', hfollows⟩
      · rw [if_neg hid] at hview
        exact ⟨w, hview.trans hrow, Row.Follows.refl w⟩
  | every h ha =>
      have hview := congrArg WorkView.row? (h id)
      obtain ⟨w', hw', hfollows⟩ := WorkAction.apply_follows ha.lawful (v := s.view id) hrow
      exact ⟨w', hview.trans hw', hfollows⟩
  | submit row hnew h =>
      have hne : id ≠ row.id := by
        rintro rfl
        rw [hnew] at hrow
        cases hrow
      have hview := congrArg WorkView.row? (h id hne)
      exact ⟨w, hview.trans hrow, Row.Follows.refl w⟩

theorem Permits.ne_acknowledge {op : Operation} {a : WorkAction} (h : op.Permits a)
    (hop : ∀ bytes, op ≠ .acknowledge bytes) :
  a ≠ .acknowledge
  := by
  cases op with
  | acknowledge id => exact absurd rfl (hop id)
  | _ => exact h.2

/-- An operation other than `acknowledge` acknowledges nothing. -/
theorem Changes.acknowledged {op : Operation} {s s' : Store} (h : Changes op s s')
    (hop : ∀ bytes, op ≠ .acknowledge bytes) {id : CString} {w w' : Row}
    (hrow : s.row? id = some w) (hrow' : s'.row? id = some w') :
  w'.acknowledged = w.acknowledged
  := by
  have hsame : s'.view id = s.view id → w'.acknowledged = w.acknowledged := by
    intro hview
    have heq := congrArg WorkView.row? hview
    simp only [Store.view, hrow, hrow', Option.some.injEq] at heq
    rw [heq]
  cases h with
  | none => exact hsame rfl
  | @one a id' s' h ha =>
      by_cases hid : id = id'
      · have hview := congrArg WorkView.row? (h id)
        rw [if_pos hid] at hview
        exact WorkAction.apply_acknowledged (ha.ne_acknowledge hop) hrow (hview.symm.trans hrow')
      · exact hsame ((h id).trans (if_neg hid))
  | every h ha =>
      have hview := congrArg WorkView.row? (h id)
      exact WorkAction.apply_acknowledged (ha.ne_acknowledge hop) hrow (hview.symm.trans hrow')
  | submit row hnew h =>
      apply hsame
      apply h
      rintro rfl
      rw [hnew] at hrow
      cases hrow

/-- Whether an operation returned true. -/
def returnedTrue : Except Bytes Returned → Bool
  | .ok (.flag value) => value
  | _ => false

/-- Whether an operation is an `acknowledge` of a Work that returns true. -/
def acknowledges (id : CString) (op : Operation) (faults : List (Option Bytes)) (s : Store) :
    Bool :=
  match op with
  | .acknowledge bytes => bindText bytes = id && returnedTrue (op.exec faults s).1
  | _ => false

/-- `acknowledge` returns true exactly when it acknowledges the Work. -/
theorem acknowledges_iff {op : Operation} {faults : List (Option Bytes)} {s : Store} {id : CString}
    {w w' : Row} (hrow : s.row? id = some w) (hrow' : (op.exec faults s).2.row? id = some w') :
  op.acknowledges id faults s = true ↔ Row.Acknowledges w w'
  := by
  have hother : (∀ bytes, op ≠ .acknowledge bytes) → ¬Row.Acknowledges w w' := by
    rintro hop ⟨-, hfalse, rfl⟩
    have hsame := (op.exec_changes faults s).acknowledged hop hrow hrow'
    rw [hfalse] at hsame
    cases hsame
  cases op with
  | acknowledge bytes =>
      simp only [acknowledges, exec, returning, Bool.and_eq_true, decide_eq_true_eq] at hrow' ⊢
      rcases (WorkStore.acknowledge_atomic bytes).exec_cases faults s with
        ⟨e, hexec⟩ | ⟨a, s', hexec, heval⟩
      · rw [hexec] at hrow' ⊢
        rw [hrow] at hrow'
        cases hrow'
        constructor
        · rintro ⟨-, ⟨⟩⟩
        · rintro ⟨-, hfalse, heq⟩
          rw [heq] at hfalse
          cases hfalse
      · have hresult := WorkStore.acknowledge_result bytes s
        have hview := congrArg WorkView.row? (WorkStore.acknowledge_acts bytes s id)
        rw [heval] at hresult hview
        rw [hexec] at hrow' ⊢
        simp only [Except.ok.injEq] at hresult
        simp only [Except.map, returnedTrue, hresult]
        by_cases hid : bindText bytes = id
        · subst hid
          simp only [if_true, WorkAction.apply, Store.view, hrow, hrow', Option.map_some,
            Option.some.injEq] at hview
          simp only [hrow, Option.any_some, Bool.and_eq_true, decide_eq_true_eq,
            Bool.not_eq_true', true_and, Row.Acknowledges]
          constructor
          · intro hack
            rw [if_pos hack] at hview
            exact ⟨hack.1, hack.2, hview⟩
          · rintro ⟨hstate, hfalse, -⟩
            exact ⟨hstate, hfalse⟩
        · have hid' : ¬id = bindText bytes := fun h => hid h.symm
          simp only [hid', if_false, Store.view, hrow, hrow', Option.some.injEq] at hview
          subst hview
          constructor
          · rintro ⟨h, -⟩
            exact absurd h hid
          · rintro ⟨-, hfalse, heq⟩
            rw [heq] at hfalse
            cases hfalse
  | _ =>
      simp only [acknowledges, Bool.false_eq_true, false_iff]
      apply hother
      intro bytes
      simp

/-- The database after a sequence of operations, each with the faults it meets. -/
def runs (s : Store) : List (Operation × List (Option Bytes)) → Store
  | [] => s
  | (op, faults) :: rest => runs (op.exec faults s).2 rest

/-- How often `acknowledge` of a Work returns true in a sequence of operations. -/
def acknowledgements (id : CString) (s : Store) : List (Operation × List (Option Bytes)) → Nat
  | [] => 0
  | (op, faults) :: rest =>
      (if op.acknowledges id faults s then 1 else 0) + acknowledgements id (op.exec faults s).2 rest

theorem runs_follow (ops : List (Operation × List (Option Bytes))) {s : Store} {id : CString}
    {w : Row} (hrow : s.row? id = some w) :
  ∃ w', (runs s ops).row? id = some w'
    ∧ (w.state.terminal = true → w' = w ∨ Row.Acknowledges w w')
    ∧ acknowledgements id s ops ≤ if w.acknowledged then 0 else 1
  := by
  induction ops generalizing s w with
  | nil => exact ⟨w, hrow, fun _ => Or.inl rfl, by simp [acknowledgements]⟩
  | cons step rest ih =>
      obtain ⟨op, faults⟩ := step
      obtain ⟨w₁, hrow₁, hfollows⟩ := (op.exec_changes faults s).row_follows hrow
      obtain ⟨w', hrow', hfinished, hcount⟩ := ih hrow₁
      use w', hrow'
      have hiff := acknowledges_iff hrow hrow₁
      by_cases hack : Row.Acknowledges w w₁
      · obtain ⟨hstate, hfalse, rfl⟩ := hack
        constructor
        · intro hterminal
          right
          rcases hfinished hterminal with rfl | ⟨-, htrue, -⟩
          · exact ⟨hstate, hfalse, rfl⟩
          · cases htrue
        · simp only [if_true] at hcount
          simp only [acknowledgements, hiff.mpr ⟨hstate, hfalse, rfl⟩, if_true, hfalse,
            Bool.false_eq_true, if_false]
          omega
      · have hsame := hfollows.acknowledged.resolve_right hack
        have hno : op.acknowledges id faults s = false := by
          rw [← Bool.not_eq_true, hiff]
          exact hack
        constructor
        · intro hterminal
          rcases hfollows.finished hterminal with rfl | hack'
          · exact hfinished hterminal
          · exact absurd hack' hack
        · simp only [acknowledgements, hno, Bool.false_eq_true, if_false, Nat.zero_add]
          rw [hsame] at hcount
          exact hcount

end Operation

/-- Lifecycle safety.  Whatever the database holds, every operation keeps the row of a Work
and takes it along the lifecycle; `acknowledge` returns true exactly when it acknowledges the
Work; and along every sequence of operations a finished Work keeps its row but for one
acknowledgement, which happens at most once. -/
theorem work_lifecycle (s : Store) (id : CString) (w : Row) (hrow : s.row? id = some w) :
  (∀ (op : Operation) (faults : List (Option Bytes)),
    ∃ w', (op.exec faults s).2.row? id = some w'
      ∧ (w'.state = w.state ∨ (w.state, w'.state) ∈ WorkState.transitions)
      ∧ (w.state.terminal = true → w' = w ∨ Row.Acknowledges w w')
      ∧ (w'.acknowledged = w.acknowledged ∨ Row.Acknowledges w w')
      ∧ (op.acknowledges id faults s = true ↔ Row.Acknowledges w w'))
  ∧ ∀ ops : List (Operation × List (Option Bytes)),
    ∃ w', (Operation.runs s ops).row? id = some w'
      ∧ (w.state.terminal = true → w' = w ∨ Row.Acknowledges w w')
      ∧ Operation.acknowledgements id s ops ≤ 1
  := by
  constructor
  · intro op faults
    obtain ⟨w', hrow', hfollows⟩ := (op.exec_changes faults s).row_follows hrow
    exact ⟨w', hrow', hfollows.state, hfollows.finished, hfollows.acknowledged,
      Operation.acknowledges_iff hrow hrow'⟩
  · intro ops
    obtain ⟨w', hrow', hfinished, hcount⟩ := Operation.runs_follow ops hrow
    refine ⟨w', hrow', hfinished, le_trans hcount ?_⟩
    split_ifs <;> omega

/-- A Work that has succeeded at its first attempt. -/
def succeededRow : Row where
  id := sqlText "a1"
  workType := sqlText "text-generation/v1"
  state := .succeeded
  effort := .standard
  urgency := .normal
  requiredCapabilities := sqlText ""
  eligibleEngineIds := sqlText ""
  exactEngineId := sqlText ""
  exactModelId := sqlText ""
  createdAtMs := 5
  eligibleAtMs := 5
  nextAttemptAtMs := 5
  deadlineMs := none
  timeoutMs := none
  maxAttempts := 1
  retryDelayMs := 0
  attemptCount := 1
  inputPath := sqlText "/d/work/a1/input.bin"
  resultPath := sqlText "/d/work/a1/result.bin"
  acknowledged := false
  cancelRequested := false
  selectedEngineId := sqlText "fake-standard"
  selectedModelId := sqlText "standard-v1"
  technicalFailure := sqlText ""

/-- A database with this Work alone. -/
def succeededStore : Store :=
  { Store.empty with
    works := [succeededRow]
    works_key := List.nodup_singleton _
    works_checked := by
      intro w hw
      rw [List.mem_singleton.mp hw]
      decide }

/-- The first of two acknowledgements of this Work returns true. -/
theorem work_lifecycle_succeeded :
  Operation.acknowledgements (sqlText "a1") succeededStore
      [(.acknowledge (Bytes.ofString "a1"), []), (.acknowledge (Bytes.ofString "a1"), [])] = 1
    ∧ ∃ w', (Operation.runs succeededStore
          [(.acknowledge (Bytes.ofString "a1"), []), (.cancel (Bytes.ofString "a1"), [])]).row?
        (sqlText "a1") = some w' ∧ (w' = succeededRow ∨ Row.Acknowledges succeededRow w')
  := by
  constructor
  · decide +kernel
  · obtain ⟨w', hrow, hfinished, -⟩ :=
      (work_lifecycle succeededStore (sqlText "a1") succeededRow (by decide +kernel)).2
        [(.acknowledge (Bytes.ofString "a1"), []), (.cancel (Bytes.ofString "a1"), [])]
    exact ⟨w', hrow, hfinished rfl⟩
