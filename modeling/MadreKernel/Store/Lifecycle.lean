import MadreKernel.Store.Operations

/-!
# The lifecycle of a Work

A `WorkView` is what the database holds of one Work: its row and its attempt rows.  An
`WorkAction` is what can happen to one Work, and acts on its view alone.  The operations of
`WorkStore` refine the actions: an operation about one Work acts by one action on the view of
that Work and leaves the view of every other Work as it was, and the two operations about all
Works act by one action on every view.
-/

/-- What the database holds of one Work. -/
structure WorkView where
  row? : Option Row
  attempts : List Attempt

/-- The view of a Work. -/
def Store.view (s : Store) (id : CString) : WorkView := ⟨s.row? id, s.attemptsOf id⟩

namespace WorkView

/-- Edit the row while it is in a state. -/
def editIn (state : WorkState) (e : RowEdit) (v : WorkView) : WorkView :=
  { v with row? := v.row?.map fun w => if w.state = state then e.apply w else w }

/-- End the running attempt with a number. -/
def endAttempt (number : Int32) (e : AttemptEdit) (v : WorkView) : WorkView :=
  { v with
    attempts := v.attempts.map fun a =>
      if a.attemptNumber = number ∧ a.state = .running then e.apply a else a }

end WorkView

/-- What can happen to a Work. -/
inductive WorkAction where
  | expire (nowMs : Int64)
  | fail (technicalFailure : CString)
  | start (engineId modelId : CString) (startedAtMs : Int64)
  | finish (attemptState : AttemptState) (workState : WorkState) (technicalFailure : CString)
      (attemptNumber : Int32) (endedAtMs : Int64)
  | failAttempt (attemptState : AttemptState) (technicalFailure : CString) (attemptNumber : Int32)
      (endedAtMs : Int64)
  | recover (nowMs : Int64)
  | cancel
  | acknowledge

namespace WorkAction

open WorkStore

/-- The row that is started. -/
def startRow (engineId modelId : CString) (w : Row) : Row :=
  { w with
    state := .running
    attemptCount := w.attemptCount + 1
    selectedEngineId := engineId
    selectedModelId := modelId
    technicalFailure := sqlText "" }

/-- The attempt that is started. -/
def startAttempt (engineId modelId : CString) (startedAtMs : Int64) (w : Row) : Attempt where
  workId := w.id
  attemptNumber := w.attemptCount + 1
  engineId
  modelId
  startedAtMs
  endedAtMs := none
  state := .running
  technicalFailure := sqlText ""

/-- Whether a Work can be started. -/
def startable (w : Row) : Bool := w.state = .queued && !w.cancelRequested

theorem state_of_startable {w : Row} (h : startable w = true) :
  w.state = .queued
  := by
  simp only [startable, Bool.and_eq_true, decide_eq_true_eq] at h
  exact h.1

/-- The end of an attempt that was not successful, on a Work that is running. -/
def endRunning (attemptState : AttemptState) (cancelText failureText : CString)
    (number : Row → Int32) (nowMs : Int64) (v : WorkView) : WorkView :=
  match v.row? with
  | none => v
  | some w =>
      if w.state = .running then
        { v.endAttempt (number w) (WorkStore.endAttempt attemptState nowMs failureText) with
          row? := some ((failureVerdict (readWork w) nowMs cancelText failureText).apply w) }
      else v

/-- What an action does to the view of a Work. -/
def apply : WorkAction → WorkView → WorkView
  | .expire nowMs, v =>
      { v with
        row? := v.row?.map fun w =>
          if expired nowMs w then
            { w with
              state := .failed
              technicalFailure :=
                sqlText "DEADLINE_EXPIRED: Work deadline expired before dispatch" }
          else w }
  | .fail technicalFailure, v => v.editIn .queued (setState .failed technicalFailure)
  | .start engineId modelId startedAtMs, v =>
      match v.row? with
      | none => v
      | some w =>
          if startable w then
            ⟨some (startRow engineId modelId w),
              v.attempts ++ [startAttempt engineId modelId startedAtMs w]⟩
          else v
  | .finish attemptState workState technicalFailure attemptNumber endedAtMs, v =>
      (v.endAttempt attemptNumber (WorkStore.endAttempt attemptState endedAtMs technicalFailure)).editIn
        .running (setState workState technicalFailure)
  | .failAttempt attemptState technicalFailure attemptNumber endedAtMs, v =>
      endRunning attemptState (sqlText "cancelled") technicalFailure (fun _ => attemptNumber)
        endedAtMs v
  | .recover nowMs, v =>
      endRunning .interrupted (sqlText "cancelled before restart recovery") restartText
        (·.attemptCount) nowMs v
  | .cancel, v => (v.editIn .running requestCancel).editIn .queued cancelQueued
  | .acknowledge, v =>
      { v with
        row? := v.row?.map fun w =>
          if w.state = .succeeded ∧ w.acknowledged = false then { w with acknowledged := true }
          else w }

/-- The change of a database by an action on one Work. -/
def ActsAt (a : WorkAction) (id : CString) (s s' : Store) : Prop :=
  ∀ j, s'.view j = if j = id then a.apply (s.view j) else s.view j

/-- The change of a database by an action on every Work. -/
def ActsEverywhere (a : WorkAction) (s s' : Store) : Prop :=
  ∀ j, s'.view j = a.apply (s.view j)

/-- No action makes a row. -/
theorem apply_row?_eq_none (a : WorkAction) {v : WorkView} (h : v.row? = none) :
  (a.apply v).row? = none
  := by
  cases a with
  | start => simp only [apply, h]
  | failAttempt => simp only [apply, endRunning, h]
  | recover => simp only [apply, endRunning, h]
  | _ => simp only [apply, WorkView.editIn, WorkView.endAttempt, h, Option.map_none]

theorem ActsAt.row?_eq_none {a : WorkAction} {j : CString} {s s' : Store} (h : a.ActsAt j s s')
    (id : CString) (hrow : s.row? id = none) :
  s'.row? id = none
  := by
  have hview := congrArg WorkView.row? (h id)
  split_ifs at hview
  · exact hview.trans (a.apply_row?_eq_none hrow)
  · exact hview.trans hrow

theorem ActsEverywhere.row?_eq_none {a : WorkAction} {s s' : Store} (h : a.ActsEverywhere s s')
    (id : CString) (hrow : s.row? id = none) :
  s'.row? id = none
  := (congrArg WorkView.row? (h id)).trans (a.apply_row?_eq_none hrow)

end WorkAction

namespace Store

open WorkStore

/-- An update of the row of one Work, while it is in a state. -/
theorem view_updateWorks_workIn (s : Store) (id : Bytes) (state : WorkState) (e : RowEdit)
    (j : CString) :
  (s.updateWorks (workIn id state) e).view j
    = if j = bindText id then (s.view j).editIn state e else s.view j
  := by
  simp only [view, row?_updateWorks, attemptsOf_updateWorks, WorkView.editIn]
  cases hrow : s.row? j with
  | none => simp
  | some w =>
      have hid := id_of_row? hrow
      by_cases hj : j = bindText id
      · subst hj
        simp [RowEdit.at, workIn, hid]
      · have hne : ¬w.id = bindText id := fun h => hj (hid.symm.trans h)
        simp [RowEdit.at, workIn, hne, hj]

/-- An update of the running attempt of one Work. -/
theorem view_updateAttempts_runningAttempt (s : Store) (id : Bytes) (number : Int32)
    (e : AttemptEdit) (j : CString) :
  (s.updateAttempts (runningAttempt id number) e).view j
    = if j = bindText id then (s.view j).endAttempt number e else s.view j
  := by
  simp only [view, row?_updateAttempts, attemptsOf_updateAttempts, WorkView.endAttempt]
  by_cases hj : j = bindText id
  · rw [if_pos hj]
    congr 1
    apply List.map_congr_left
    intro a ha
    have hid := workId_of_mem_attemptsOf ha
    simp [AttemptEdit.at, runningAttempt, hid, hj]
  · rw [if_neg hj]
    congr 1
    apply Eq.trans (List.map_congr_left _) (List.map_id _)
    intro a ha
    have hid := workId_of_mem_attemptsOf ha
    have hne : ¬a.workId = bindText id := fun h => hj (hid.symm.trans h)
    simp [AttemptEdit.at, runningAttempt, hne]

end Store

namespace WorkStore

theorem failQueued_acts (id technicalFailure : Bytes) (s : Store) :
  WorkAction.ActsAt (.fail (bindText technicalFailure)) (bindText id) s
    ((failQueued id technicalFailure).eval s).2
  := by
  intro j
  simp only [failQueued, Session.eval_update, Store.view_updateWorks_workIn]
  rfl

theorem expireQueuedDeadlines_acts (nowMs : Int64) (s : Store) :
  WorkAction.ActsEverywhere (.expire nowMs) s ((expireQueuedDeadlines nowMs).eval s).2
  := by
  intro j
  simp only [expireQueuedDeadlines, Session.eval_update, Store.view, Store.row?_updateWorks,
    Store.attemptsOf_updateWorks]
  rfl

theorem finish_acts (attemptState : AttemptState) (workState : WorkState)
    (technicalFailure : CString) (id : Bytes) (attemptNumber : Int32) (endedAtMs : Int64)
    (s : Store) :
  WorkAction.ActsAt (.finish attemptState workState technicalFailure attemptNumber endedAtMs)
    (bindText id) s
    ((finish attemptState workState technicalFailure id attemptNumber endedAtMs).eval s).2
  := by
  intro j
  simp only [finish, Session.eval_transaction, Session.eval_bind, Session.eval_update,
    Session.eval_pure, Store.view_updateWorks_workIn, Store.view_updateAttempts_runningAttempt]
  split_ifs <;> rfl

/-- The row that a `WHERE` clause about one Work selects. -/
theorem find?_eq {s : Store} {id : CString} {where? : Row → Bool} {cond : Row → Bool}
    (h : ∀ w, where? w = (decide (w.id = id) && cond w)) :
  s.works.find? where? = (s.row? id).filter cond
  := by
  have hkey := s.works_key
  rw [Store.row?]
  generalize s.works = l at hkey
  induction l with
  | nil => rfl
  | cons v l ih =>
      rw [List.map_cons, List.nodup_cons] at hkey
      rw [List.find?_cons, List.find?_cons, h v]
      by_cases hid : v.id = id
      · have hrest : l.find? where? = none := by
          rw [List.find?_eq_none]
          intro w hw
          have hne : ¬w.id = id := by
            intro hw'
            apply hkey.1
            rw [hid, ← hw']
            exact List.mem_map_of_mem hw
          simp [h, hne]
        rw [decide_eq_true hid, Bool.true_and, hrest]
        cases hcond : cond v with
        | true => exact (if_pos hcond).symm
        | false => exact (if_neg (Bool.eq_false_iff.mp hcond)).symm
      · rw [decide_eq_false hid, Bool.false_and]
        exact ih hkey.2

theorem countP_eq {s : Store} {id : CString} {where? : Row → Bool} {cond : Row → Bool}
    (h : ∀ w, where? w = (decide (w.id = id) && cond w)) :
  s.works.countP where? = if (s.row? id).any cond then 1 else 0
  := by
  have hkey := s.works_key
  rw [Store.row?]
  generalize s.works = l at hkey
  induction l with
  | nil => rfl
  | cons v l ih =>
      rw [List.map_cons, List.nodup_cons] at hkey
      by_cases hid : v.id = id
      · have hrest : l.countP where? = 0 := by
          rw [List.countP_eq_zero]
          intro w hw
          have hne : ¬w.id = id := by
            intro hw'
            apply hkey.1
            rw [hid, ← hw']
            exact List.mem_map_of_mem hw
          simp [h, hne]
        cases hcond : cond v <;> simp [h, hid, hcond, hrest]
      · simp [h, hid, ih hkey.2]

theorem finishRetryableFailure_acts
    {attemptState : AttemptState} (hstate : retryableState attemptState = true) (id : Bytes)
    (attemptNumber : Int32) (technicalFailure : Bytes) (endedAtMs : Int64) (s : Store) :
  WorkAction.ActsAt
    (.failAttempt attemptState (bindText technicalFailure) attemptNumber endedAtMs) (bindText id) s
    ((finishRetryableFailure id attemptNumber attemptState technicalFailure endedAtMs).eval s).2
  := by
  intro j
  have hfind : s.works.find? (workIn id .running)
      = (s.row? (bindText id)).filter (·.state = .running) := find?_eq fun w => rfl
  simp only [finishRetryableFailure, hstate, Bool.not_true, Bool.false_eq_true, if_false,
    Session.eval_transaction, Session.eval_bind, Session.eval_query, hfind, WorkAction.apply]
  cases hrow : s.row? (bindText id) with
  | none =>
      have hview : (s.view (bindText id)).row? = none := hrow
      simp only [Option.filter_none, Session.eval_pure]
      split_ifs with hj
      · subst hj
        simp only [WorkAction.endRunning, hview]
      · rfl
  | some w =>
      have hview : (s.view (bindText id)).row? = some w := hrow
      simp only [Option.filter_some, decide_eq_true_eq]
      by_cases hrunning : w.state = .running
      · simp only [hrunning, if_true, Session.eval_bind, Session.eval_update, Session.eval_pure,
          Store.view_updateWorks_workIn, Store.view_updateAttempts_runningAttempt]
        split_ifs with hj
        · subst hj
          simp [WorkAction.endRunning, WorkView.editIn, WorkView.endAttempt, hview, hrunning]
        · rfl
      · simp only [hrunning, if_false, Session.eval_pure]
        split_ifs with hj
        · subst hj
          simp only [WorkAction.endRunning, hview, hrunning, if_false]
        · rfl

theorem cancel_acts (id : Bytes) (s : Store) :
  WorkAction.ActsAt .cancel (bindText id) s ((cancel id).eval s).2
  := by
  intro j
  simp only [cancel, Session.eval_bind, Session.eval_query, WorkAction.apply]
  cases hrow : s.row? (bindText id) with
  | none =>
      have hview : (s.view (bindText id)).row? = none := hrow
      simp only [Session.eval_pure]
      split_ifs with hj
      · subst hj
        simp only [WorkView.editIn, hview, Option.map_none]
        rw [← hview]
      · rfl
  | some w =>
      have hview : (s.view (bindText id)).row? = some w := hrow
      cases hstate : w.state with
      | queued =>
          simp only [hstate, Session.eval_update, Store.view_updateWorks_workIn]
          split_ifs with hj
          · subst hj
            simp [WorkView.editIn, hview, hstate]
          · rfl
      | running =>
          simp only [hstate, Session.eval_update, Store.view_updateWorks_workIn]
          split_ifs with hj
          · subst hj
            simp [WorkView.editIn, hview, hstate, requestCancel]
          · rfl
      | _ =>
          simp only [hstate, Session.eval_pure]
          split_ifs with hj
          · subst hj
            simp only [WorkView.editIn, hview, hstate, Option.map_some, reduceCtorEq, if_false]
            rw [← hview]
          · rfl

/-- The result of `cancel`: the state it leaves the Work in. -/
theorem cancel_result (id : Bytes) (s : Store) :
  ((cancel id).eval s).1
    = .ok ((s.row? (bindText id)).map fun w =>
        if w.state = .queued then .cancelled else w.state)
  := by
  simp only [cancel, Session.eval_bind, Session.eval_query]
  cases hrow : s.row? (bindText id) with
  | none => rfl
  | some w => cases hstate : w.state <;> simp [hstate]

theorem acknowledge_acts (id : Bytes) (s : Store) :
  WorkAction.ActsAt .acknowledge (bindText id) s ((acknowledge id).eval s).2
  := by
  intro j
  simp only [acknowledge, Session.eval_update, Store.view, Store.row?_updateWorks,
    Store.attemptsOf_updateWorks, WorkAction.apply]
  cases hrow : s.row? j with
  | none => simp
  | some w =>
      have hid := Store.id_of_row? hrow
      by_cases hj : j = bindText id
      · subst hj
        simp [RowEdit.at, acknowledgeable, workIn, hid, markAcknowledged]
      · have hne : ¬w.id = bindText id := fun h => hj (hid.symm.trans h)
        simp [RowEdit.at, acknowledgeable, workIn, hne, hj]

/-- `acknowledge` returns whether the Work was succeeded and not acknowledged. -/
theorem acknowledge_result (id : Bytes) (s : Store) :
  ((acknowledge id).eval s).1
    = .ok ((s.row? (bindText id)).any fun w => w.state = .succeeded && !w.acknowledged)
  := by
  have hcount : s.works.countP (acknowledgeable id)
      = if (s.row? (bindText id)).any (fun w => w.state = .succeeded && !w.acknowledged) then 1
        else 0 := by
    apply countP_eq
    intro w
    simp [acknowledgeable, workIn, Bool.and_assoc]
  simp only [acknowledge, Session.eval_update, hcount]
  cases s.row? (bindText id) with
  | none => rfl
  | some w => cases hcond : (decide (w.state = .succeeded) && !w.acknowledged) <;> simp [hcond]

/-- `begin_attempt` acts on a Work that is queued and not cancelled, unless the new attempt
has a number in use, and does nothing otherwise. -/
theorem beginAttempt_eval (id engineId modelId : Bytes) (startedAtMs : Int64) (s : Store) :
  (beginAttempt id engineId modelId startedAtMs).eval s
    = match (s.row? (bindText id)).filter WorkAction.startable with
      | none => (.ok 0, s)
      | some w =>
          match (s.updateWorks (startable id)
              (markRunning (w.attemptCount + 1) engineId modelId)).insertAttempt
                (newAttempt id (w.attemptCount + 1) engineId modelId startedAtMs) with
          | .ok s' => (.ok (w.attemptCount + 1), s')
          | .error e => (.error e, s)
  := by
  have hwhere : ∀ w, startable id w = (decide (w.id = bindText id) && WorkAction.startable w) := by
    intro w
    simp [startable, workIn, WorkAction.startable, Bool.and_assoc]
  simp only [beginAttempt, Session.eval_transaction, Session.eval_bind, Session.eval_query,
    find?_eq hwhere, countP_eq hwhere]
  cases hrow : (s.row? (bindText id)).filter WorkAction.startable with
  | none => rfl
  | some w =>
      have hany : (s.row? (bindText id)).any WorkAction.startable = true := by
        rw [Option.filter_eq_some_iff] at hrow
        simp [hrow.1, hrow.2]
      simp only [hany, if_true, ne_eq, not_true_eq_false, if_false, Session.eval_bind,
        Session.eval_update, Session.eval_insert]
      cases (s.updateWorks (startable id)
          (markRunning (w.attemptCount + 1) engineId modelId)).insertAttempt
            (newAttempt id (w.attemptCount + 1) engineId modelId startedAtMs) with
      | ok s' => rfl
      | error e => rfl

/-- When `begin_attempt` returns, it has done nothing, or it has started the Work. -/
theorem beginAttempt_acts {id engineId modelId : Bytes} {startedAtMs : Int64} {s s' : Store}
    {n : Int32} (h : (beginAttempt id engineId modelId startedAtMs).eval s = (.ok n, s')) :
  (n = 0 ∧ s' = s)
    ∨ ∃ w, s.row? (bindText id) = some w ∧ WorkAction.startable w = true ∧ n = w.attemptCount + 1
      ∧ WorkAction.ActsAt (.start (bindText engineId) (bindText modelId) startedAtMs) (bindText id)
          s s'
  := by
  rw [beginAttempt_eval] at h
  cases hrow : (s.row? (bindText id)).filter WorkAction.startable with
  | none =>
      left
      rw [hrow] at h
      cases h
      exact ⟨rfl, rfl⟩
  | some w =>
      right
      simp only [hrow] at h
      obtain ⟨hrow, hstart⟩ := Option.filter_eq_some_iff.mp hrow
      have hid := Store.id_of_row? hrow
      cases hinsert : (s.updateWorks (startable id)
          (markRunning (w.attemptCount + 1) engineId modelId)).insertAttempt
            (newAttempt id (w.attemptCount + 1) engineId modelId startedAtMs) with
      | error e =>
          rw [hinsert] at h
          cases h
      | ok s₁ =>
          rw [hinsert] at h
          cases h
          obtain ⟨-, hworks, hattempts⟩ := Store.insertAttempt_ok hinsert
          use w, hrow, hstart, rfl
          intro j
          have hrow' : s'.row? j = (s.row? j).map ((markRunning (w.attemptCount + 1) engineId
              modelId).at (startable id)) := by
            rw [Store.row?, hworks]
            exact Store.row?_updateWorks s _ _ j
          have hattempts' : s'.attemptsOf j = s.attemptsOf j ++ if bindText id = j then
              [newAttempt id (w.attemptCount + 1) engineId modelId startedAtMs] else [] :=
            Store.attemptsOf_append (s := s) hattempts j
          simp only [Store.view, hrow', hattempts']
          by_cases hj : j = bindText id
          · subst hj
            simp only [hrow, Option.map_some, if_true, WorkAction.apply, hstart]
            congr 1
            · simp only [RowEdit.at, startable, workIn, hid, decide_true, Bool.true_and]
              simp only [WorkAction.startable] at hstart
              rw [if_pos hstart]
              rfl
            · simp [newAttempt, WorkAction.startAttempt, hid]
          · have hj' : ¬bindText id = j := fun h => hj h.symm
            simp only [hj, hj', if_false, List.append_nil]
            congr 1
            cases hrow₂ : s.row? j with
            | none => rfl
            | some v =>
                have hne : ¬v.id = bindText id := by
                  rw [Store.id_of_row? hrow₂]
                  exact hj
                simp [RowEdit.at, startable, workIn, hne]

/-- The step of `recover_interrupted` for one Work that was running. -/
def recoverOne (nowMs : Int64) (s : Store) (row : Row) : Store :=
  (s.updateAttempts (runningAttempt (readWork row).id (readWork row).attemptCount)
      (endAttempt .interrupted nowMs restartText)).updateWorks
    (workIn (readWork row).id .running)
    (failureVerdict (readWork row) nowMs (sqlText "cancelled before restart recovery")
      restartText)

theorem recoverEach_eval (nowMs : Int64) (l : List Row) (s : Store) :
  (recoverEach nowMs l).eval s = (.ok (), l.foldl (recoverOne nowMs) s)
  := by
  induction l generalizing s with
  | nil => rfl
  | cons row rest ih =>
      simp only [recoverEach, Session.eval_bind, Session.eval_update, ih, List.foldl_cons]
      rfl

theorem recoverOne_acts {row : Row} {s : Store} (nowMs : Int64) (hrow : s.row? row.id = some row)
    (hrunning : row.state = .running) :
  WorkAction.ActsAt (.recover nowMs) row.id s (recoverOne nowMs s row)
  := by
  intro j
  have hid := bindText_readWork_id row
  have hview : (s.view row.id).row? = some row := hrow
  simp only [recoverOne, Store.view_updateWorks_workIn, Store.view_updateAttempts_runningAttempt,
    hid]
  split_ifs with hj
  · subst hj
    simp [WorkAction.apply, WorkAction.endRunning, WorkView.editIn, WorkView.endAttempt, hview,
      hrunning, readWork, Work.map]
  · rfl

/-- A loop over Works that are running, each step of which acts on the view of its Work. -/
theorem foldl_acts
    {one : Store → Row → Store} {f : WorkView → WorkView}
    (hone : ∀ {s : Store} {row : Row}, s.row? row.id = some row → row.state = .running →
      ∀ j, (one s row).view j = if j = row.id then f (s.view j) else s.view j)
    {l : List Row} {s : Store} (hnodup : (l.map (·.id)).Nodup)
    (hrows : ∀ w ∈ l, s.row? w.id = some w ∧ w.state = .running) (j : CString) :
  (l.foldl one s).view j = if j ∈ l.map (·.id) then f (s.view j) else s.view j
  := by
  induction l generalizing s with
  | nil => simp
  | cons row rest ih =>
      rw [List.map_cons, List.nodup_cons] at hnodup
      obtain ⟨hrow, hrunning⟩ := hrows row List.mem_cons_self
      have hviews := hone hrow hrunning
      have hrest : ∀ w ∈ rest, (one s row).row? w.id = some w ∧ w.state = .running := by
        intro w hw
        obtain ⟨hrow', hrunning'⟩ := hrows w (List.mem_cons_of_mem _ hw)
        have hne : ¬w.id = row.id := by
          intro heq
          apply hnodup.1
          rw [← heq]
          exact List.mem_map_of_mem (f := fun w : Row => w.id) hw
        have hview := congrArg WorkView.row? (hviews w.id)
        rw [if_neg hne] at hview
        exact ⟨hview.trans hrow', hrunning'⟩
      rw [List.foldl_cons, ih hnodup.2 hrest, hviews j]
      simp only [List.map_cons, List.mem_cons]
      by_cases hj : j = row.id
      · subst hj
        simp [hnodup.1]
      · simp [hj]

/-- The Works that are running. -/
def runningRows (s : Store) : List Row := s.works.filter (·.state = .running)

theorem runningRows_nodup (s : Store) :
  ((runningRows s).map (·.id)).Nodup
  := s.works_key.sublist (List.filter_sublist.map _)

theorem row?_of_mem_runningRows {s : Store} {w : Row} (h : w ∈ runningRows s) :
  s.row? w.id = some w ∧ w.state = .running
  := by
  rw [runningRows, List.mem_filter, decide_eq_true_eq] at h
  exact ⟨Store.row?_of_mem h.1, h.2⟩

theorem mem_runningRows_of_row? {s : Store} {j : CString} {w : Row} (hrow : s.row? j = some w)
    (hrunning : w.state = .running) :
  j ∈ (runningRows s).map (·.id)
  := by
  rw [← Store.id_of_row? hrow]
  apply List.mem_map_of_mem (f := fun w : Row => w.id)
  rw [runningRows, List.mem_filter, decide_eq_true_eq]
  exact ⟨Store.mem_works_of_row? hrow, hrunning⟩

/-- What ends the attempts of running Works leaves the other Works. -/
theorem endRunning_eq_self
    {s : Store} {j : CString} (h : j ∉ (runningRows s).map (·.id)) (attemptState : AttemptState)
    (cancelText failureText : CString) (number : Row → Int32) (nowMs : Int64) :
  WorkAction.endRunning attemptState cancelText failureText number nowMs (s.view j) = s.view j
  := by
  rw [WorkAction.endRunning]
  cases hrow : (s.view j).row? with
  | none => rfl
  | some w =>
      have hnot : ¬w.state = .running := fun hrunning => h (mem_runningRows_of_row? hrow hrunning)
      simp [hnot]

theorem recoverInterrupted_eval (nowMs : Int64) (s : Store) :
  (recoverInterrupted nowMs).eval s = (.ok (), (runningRows s).foldl (recoverOne nowMs) s)
  := by
  simp only [recoverInterrupted, Session.eval_transaction, Session.eval_bind, Session.eval_query,
    recoverEach_eval, Session.eval_pure]
  rfl

theorem recoverInterrupted_acts (nowMs : Int64) (s : Store) :
  WorkAction.ActsEverywhere (.recover nowMs) s ((recoverInterrupted nowMs).eval s).2
  := by
  intro j
  rw [recoverInterrupted_eval, foldl_acts (f := (WorkAction.recover nowMs).apply)
    (fun hrow hrunning => recoverOne_acts nowMs hrow hrunning) (runningRows_nodup s)
    (fun w hw => row?_of_mem_runningRows hw)]
  split_ifs with hmem
  · rfl
  · exact (endRunning_eq_self hmem _ _ _ _ _).symm

/-- An accepted `submit` adds the row of a new Work. -/
theorem submit_acts {work : WorkRecord} {s s' : Store} (h : (submit work).eval s = (.ok (), s')) :
  s.row? (bindText work.id) = none ∧ (submittedRow work).checked
    ∧ ∀ j, s'.view j = if j = bindText work.id then
        ⟨some (submittedRow work), s.attemptsOf j⟩ else s.view j
  := by
  rw [submit, Session.eval_insert] at h
  cases hinsert : s.insertWork (submittedRow work) with
  | error e =>
      rw [hinsert] at h
      cases h
  | ok s₁ =>
      rw [hinsert] at h
      cases h
      obtain ⟨hnew, hchecked, hworks, hattempts⟩ := Store.insertWork_ok hinsert
      use hnew, hchecked
      intro j
      simp only [Store.view]
      rw [Store.row?_append hworks hnew]
      have hattempts' : s'.attemptsOf j = s.attemptsOf j := by
        rw [Store.attemptsOf, hattempts, Store.attemptsOf]
      rw [hattempts']
      have hid : (submittedRow work).id = bindText work.id := rfl
      rw [hid]
      split_ifs <;> rfl

end WorkStore
