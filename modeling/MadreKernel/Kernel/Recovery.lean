import MadreKernel.Kernel.Refinement

/-!
# Restart recovery

`recover_interrupted` treats every Work that is running as `finish_retryable_failure` would treat
it, whatever the order of the calls: the rows of the two tables are the same, except for the
texts and for the state of the attempts that have ended.  It leaves no Work and no attempt
running, does not touch the other Works, and changes nothing when it is run again.
-/

/-- A Work without the text of its failure. -/
def Work.sansFailure (w : Row) : Row := { w with technicalFailure := sqlText "" }

/-- An attempt that was interrupted, and the same attempt as a failed one with a text. -/
def Attempt.FailedFor (text : CString) (a a' : Attempt) : Prop :=
  a' = a ∨ (a.state = .interrupted ∧ a' = { a with state := .failed, technicalFailure := text })

namespace Store

/-- Databases with the same keys in the same order. -/
structure SameKeys (s s' : Store) : Prop where
  works : s'.works.map (·.id) = s.works.map (·.id)
  attempts : s'.attempts.map Attempt.key = s.attempts.map Attempt.key

theorem SameKeys.refl (s : Store) :
  s.SameKeys s
  := ⟨rfl, rfl⟩

theorem SameKeys.trans {s s' s'' : Store} (h : s.SameKeys s') (h' : s'.SameKeys s'') :
  s.SameKeys s''
  := ⟨h'.works.trans h.works, h'.attempts.trans h.attempts⟩

theorem sameKeys_updateWorks (s : Store) (where? : Row → Bool) (e : RowEdit) :
  s.SameKeys (s.updateWorks where? e)
  where
  works := by
    rw [updateWorks, List.map_map]
    apply List.map_congr_left
    intro w _
    exact e.at_id where? w
  attempts := rfl

theorem sameKeys_updateAttempts (s : Store) (where? : Attempt → Bool) (e : AttemptEdit) :
  s.SameKeys (s.updateAttempts where? e)
  where
  works := rfl
  attempts := by
    rw [updateAttempts, List.map_map]
    apply List.map_congr_left
    intro a _
    exact e.at_key where? a

theorem sameKeys_foldl {one : Store → Row → Store} (hone : ∀ (s : Store) row, s.SameKeys (one s row))
    (l : List Row) (s : Store) :
  s.SameKeys (l.foldl one s)
  := by
  induction l generalizing s with
  | nil => exact SameKeys.refl s
  | cons row rest ih => exact (hone s row).trans (ih (one s row))

/-- The table of Works, from the rows of the Works. -/
theorem SameKeys.works_eq {s s' : Store} (h : s.SameKeys s') {f : Row → Row}
    (hrows : ∀ id, s'.row? id = (s.row? id).map f) :
  s'.works = s.works.map f
  := by
  have hlength : s'.works.length = s.works.length := by
    simpa using congrArg List.length h.works
  apply List.ext_getElem
  · rw [List.length_map, hlength]
  · intro i hi hi'
    rw [List.length_map] at hi'
    have hid : s'.works[i].id = s.works[i].id := by
      have hkeys := List.getElem_of_eq h.works (by simpa using hi)
      simpa using hkeys
    have hrow := row?_of_mem (List.getElem_mem hi)
    rw [hid, hrows, row?_of_mem (List.getElem_mem hi'), Option.map_some] at hrow
    rw [List.getElem_map, Option.some.inj hrow]

/-- The table of attempts, from the attempts of the Works. -/
theorem SameKeys.attempts_eq {s s' : Store} (h : s.SameKeys s') {g : Attempt → Attempt}
    (hkey : ∀ a, (g a).key = a.key)
    (hattempts : ∀ id, s'.attemptsOf id = (s.attemptsOf id).map g) :
  s'.attempts = s.attempts.map g
  := by
  have hlength : s'.attempts.length = s.attempts.length := by
    simpa using congrArg List.length h.attempts
  apply List.ext_getElem
  · rw [List.length_map, hlength]
  · intro i hi hi'
    rw [List.length_map] at hi'
    have hkeys : s'.attempts[i].key = s.attempts[i].key := by
      have hall := List.getElem_of_eq h.attempts (by simpa using hi)
      simpa using hall
    have hmem : s'.attempts[i] ∈ s'.attemptsOf s'.attempts[i].workId := by
      rw [attemptsOf, List.mem_filter]
      exact ⟨List.getElem_mem hi, by simp⟩
    rw [hattempts] at hmem
    obtain ⟨a, ha, hga⟩ := List.mem_map.mp hmem
    obtain ⟨j, hj, rfl⟩ := List.getElem_of_mem (List.mem_filter.mp ha).1
    -- The attempt with this key is the one at this place.
    have hsame : s.attempts[j].key = s.attempts[i].key := by
      rw [← hkeys, ← hga, hkey]
    have hji : j = i := by
      have hj' : j < (s.attempts.map Attempt.key).length := by simpa using hj
      have hi'' : i < (s.attempts.map Attempt.key).length := by simpa using hi'
      apply (@List.Nodup.getElem_inj_iff _ _ s.attempts_key j hj' i hi'').mp
      rw [List.getElem_map, List.getElem_map]
      exact hsame
    subst hji
    rw [List.getElem_map, hga]

end Store

namespace WorkStore

/-! ### The rows that are left -/

/-- A Work after the end of its running attempt. -/
def endedRow (cancelText failureText : CString) (nowMs : Int64) (w : Row) : Row :=
  if w.state = .running then
    (failureVerdict (readWork w) nowMs cancelText failureText).apply w
  else w

/-- The attempt is the running attempt of a Work that is running. -/
def isCurrent (s : Store) (a : Attempt) : Bool :=
  a.state = .running
    && (s.row? a.workId).any fun w => w.state = .running && a.attemptNumber = w.attemptCount

/-- An attempt after the end of the running attempts. -/
def endedAttempt (s : Store) (attemptState : AttemptState) (failureText : CString)
    (nowMs : Int64) (a : Attempt) : Attempt :=
  if isCurrent s a then (endAttempt attemptState nowMs failureText).apply a else a

section

variable {s s' : Store} {attemptState : AttemptState} {cancelText failureText : CString}
  {nowMs : Int64}

theorem endedAttempt_key (a : Attempt) :
  (endedAttempt s attemptState failureText nowMs a).key = a.key
  := by
  rw [endedAttempt]
  split_ifs
  · rfl
  · rfl

/-- The two tables, when the running attempts of all Works have ended. -/
theorem tables_of_endRunning (hkeys : s.SameKeys s')
    (h : ∀ j, s'.view j
      = WorkAction.endRunning attemptState cancelText failureText (·.attemptCount) nowMs
          (s.view j)) :
  s'.works = s.works.map (endedRow cancelText failureText nowMs)
    ∧ s'.attempts = s.attempts.map (endedAttempt s attemptState failureText nowMs)
  := by
  constructor
  · apply hkeys.works_eq
    intro id
    have hview := congrArg WorkView.row? (h id)
    have hrow' : (s'.view id).row? = s'.row? id := rfl
    rw [hrow', WorkAction.endRunning] at hview
    cases hrow : s.row? id with
    | none =>
        have hnone : (s.view id).row? = none := hrow
        rw [hview, hnone]
        exact hnone
    | some w =>
        have hsome : (s.view id).row? = some w := hrow
        rw [hview, hsome]
        by_cases hrunning : w.state = .running
        · simp [hrunning, endedRow]
        · simp [hrunning, endedRow, hsome]
  · apply hkeys.attempts_eq endedAttempt_key
    intro id
    have hview := congrArg WorkView.attempts (h id)
    have hattempts' : (s'.view id).attempts = s'.attemptsOf id := rfl
    have hattempts : (s.view id).attempts = s.attemptsOf id := rfl
    rw [hattempts', WorkAction.endRunning] at hview
    have hkept : (∀ a ∈ s.attemptsOf id, isCurrent s a = false) →
        (s.attemptsOf id).map (endedAttempt s attemptState failureText nowMs)
          = s.attemptsOf id := by
      intro hcurrent
      apply Eq.trans (List.map_congr_left _) (List.map_id _)
      intro a ha
      rw [endedAttempt, if_neg (by simp [hcurrent a ha])]
      rfl
    cases hrow : s.row? id with
    | none =>
        have hnone : (s.view id).row? = none := hrow
        rw [hview, hnone]
        apply (hkept _).symm
        intro a ha
        simp [isCurrent, Store.workId_of_mem_attemptsOf ha, hrow]
    | some w =>
        have hsome : (s.view id).row? = some w := hrow
        rw [hview, hsome]
        by_cases hrunning : w.state = .running
        · simp only [hrunning, if_true, WorkView.endAttempt, hattempts]
          apply List.map_congr_left
          intro a ha
          simp [endedAttempt, isCurrent, Store.workId_of_mem_attemptsOf ha, hrow, hrunning,
            and_comm]
        · simp only [hrunning, if_false]
          apply (hkept _).symm
          intro a ha
          simp [isCurrent, Store.workId_of_mem_attemptsOf ha, hrow, hrunning]

end

/-! ### Failure handling for every running Work -/

/-- `finish_retryable_failure`, called for one Work after the other. -/
def failEach (text : Bytes) (nowMs : Int64) : List Row → StoreProgram Unit
  | [] => pure ()
  | row :: rest => do
      finishRetryableFailure (readWork row).id (readWork row).attemptCount .failed text nowMs
      failEach text nowMs rest

/-- What the call for one Work leaves. -/
def failOne (text : Bytes) (nowMs : Int64) (s : Store) (row : Row) : Store :=
  ((finishRetryableFailure (readWork row).id (readWork row).attemptCount .failed text nowMs).eval
    s).2

theorem retryableState_failed :
  retryableState .failed = true
  := rfl

/-- `finish_retryable_failure` does nothing, or it updates both tables. -/
theorem finishRetryableFailure_eval
    {attemptState : AttemptState} (hstate : retryableState attemptState = true) (id : Bytes)
    (attemptNumber : Int32) (text : Bytes) (nowMs : Int64) (s : Store) :
  ∃ s', (finishRetryableFailure id attemptNumber attemptState text nowMs).eval s = (.ok (), s')
    ∧ s.SameKeys s'
  := by
  simp only [finishRetryableFailure, hstate, Bool.not_true, Bool.false_eq_true, if_false,
    Session.eval_transaction, Session.eval_bind, Session.eval_query]
  cases s.works.find? (workIn id .running) with
  | none => exact ⟨s, rfl, Store.SameKeys.refl s⟩
  | some row =>
      simp only [Session.eval_bind, Session.eval_update, Session.eval_pure]
      exact ⟨_, rfl, (Store.sameKeys_updateAttempts _ _ _).trans
        (Store.sameKeys_updateWorks _ _ _)⟩

theorem failEach_eval (text : Bytes) (nowMs : Int64) (l : List Row) (s : Store) :
  (failEach text nowMs l).eval s = (.ok (), l.foldl (failOne text nowMs) s)
  := by
  induction l generalizing s with
  | nil => rfl
  | cons row rest ih =>
      obtain ⟨s', heval, -⟩ := finishRetryableFailure_eval retryableState_failed
        (readWork row).id (readWork row).attemptCount text nowMs s
      simp only [failEach, Session.eval_bind, heval, ih, List.foldl_cons, failOne]

theorem failOne_sameKeys (text : Bytes) (nowMs : Int64) (s : Store) (row : Row) :
  s.SameKeys (failOne text nowMs s row)
  := by
  obtain ⟨s', heval, hkeys⟩ := finishRetryableFailure_eval retryableState_failed
    (readWork row).id (readWork row).attemptCount text nowMs s
  rw [failOne, heval]
  exact hkeys

theorem recoverOne_sameKeys (nowMs : Int64) (s : Store) (row : Row) :
  s.SameKeys (recoverOne nowMs s row)
  := (Store.sameKeys_updateAttempts _ _ _).trans (Store.sameKeys_updateWorks _ _ _)

theorem failOne_acts {row : Row} {s : Store} (text : Bytes) (nowMs : Int64)
    (hrow : s.row? row.id = some row) (j : CString) :
  (failOne text nowMs s row).view j
    = if j = row.id then
        WorkAction.endRunning .failed (sqlText "cancelled") (bindText text) (·.attemptCount) nowMs
          (s.view j)
      else s.view j
  := by
  have hacts := finishRetryableFailure_acts retryableState_failed (readWork row).id
    (readWork row).attemptCount text nowMs s j
  rw [failOne, hacts, bindText_readWork_id]
  split_ifs with hj
  · subst hj
    have hview : (s.view row.id).row? = some row := hrow
    simp only [WorkAction.apply, WorkAction.endRunning, hview]
    rfl
  · rfl

/-- The tables that failure handling leaves, in any order. -/
theorem failEach_tables
    {s : Store} {order : List Row} (horder : order.Perm (runningRows s)) (text : Bytes)
    (nowMs : Int64) :
  (order.foldl (failOne text nowMs) s).works
      = s.works.map (endedRow (sqlText "cancelled") (bindText text) nowMs)
    ∧ (order.foldl (failOne text nowMs) s).attempts
      = s.attempts.map (endedAttempt s .failed (bindText text) nowMs)
  := by
  apply tables_of_endRunning (Store.sameKeys_foldl (failOne_sameKeys text nowMs) order s)
  intro j
  have hids := horder.map (fun w : Row => w.id)
  rw [foldl_acts (fun hrow _ => failOne_acts text nowMs hrow)
    (hids.nodup_iff.mpr (runningRows_nodup s))
    (fun w hw => row?_of_mem_runningRows (horder.subset hw))]
  split_ifs with hmem
  · rfl
  · exact (endRunning_eq_self (fun h => hmem (hids.symm.subset h)) _ _ _ _ _).symm

/-- The tables that recovery leaves. -/
theorem recoverInterrupted_tables (s : Store) (nowMs : Int64) :
  ((recoverInterrupted nowMs).eval s).2.works
      = s.works.map (endedRow (sqlText "cancelled before restart recovery") restartText nowMs)
    ∧ ((recoverInterrupted nowMs).eval s).2.attempts
      = s.attempts.map (endedAttempt s .interrupted restartText nowMs)
  := by
  apply tables_of_endRunning
  · rw [recoverInterrupted_eval]
    exact Store.sameKeys_foldl (recoverOne_sameKeys nowMs) _ s
  · exact recoverInterrupted_acts nowMs s

/-! ### The rows compared -/

theorem endedRow_sansFailure (cancelText failureText cancelText' failureText' : CString)
    (nowMs : Int64) (w : Row) :
  Work.sansFailure (endedRow cancelText failureText nowMs w)
    = Work.sansFailure (endedRow cancelText' failureText' nowMs w)
  := by
  simp only [endedRow, failureVerdict]
  split_ifs <;> rfl

theorem endedAttempt_failedFor (s : Store) (text : CString) (nowMs : Int64) (a : Attempt) :
  Attempt.FailedFor text (endedAttempt s .interrupted restartText nowMs a)
    (endedAttempt s .failed text nowMs a)
  := by
  rw [endedAttempt, endedAttempt]
  split_ifs
  · right
    exact ⟨rfl, rfl⟩
  · left
    rfl

theorem endedRow_state (cancelText failureText : CString) (nowMs : Int64) (w : Row) :
  (endedRow cancelText failureText nowMs w).state ≠ .running
  := by
  simp only [endedRow, failureVerdict]
  split_ifs with hrunning
  · simp [setState]
  · simp [requeue]
  · simp [setState]
  · exact hrunning

/-- In an accounted database no attempt is left running. -/
theorem endedAttempt_state
    {s : Store} (haccount : ∀ id, (s.view id).Accounted) {attemptState : AttemptState}
    (hstate : attemptState ≠ .running) (failureText : CString) (nowMs : Int64) {a : Attempt}
    (ha : a ∈ s.attempts) :
  (endedAttempt s attemptState failureText nowMs a).state ≠ .running
  := by
  rw [endedAttempt]
  split_ifs with hcurrent
  · exact hstate
  · intro hrunning
    apply hcurrent
    have hmem : a ∈ (s.view a.workId).attempts := by
      simp [Store.view, Store.attemptsOf, ha]
    cases hrow : s.row? a.workId with
    | none =>
        have hnone : (s.view a.workId).row? = none := hrow
        rw [(haccount a.workId).of_none hnone] at hmem
        cases hmem
    | some w =>
        have hsome : (s.view a.workId).row? = some w := hrow
        have hrow' := (haccount a.workId).of_some hsome
        have hnumber := hrow'.number_of_running a hmem hrunning
        have hworks : w.state = .running := by
          by_contra hnot
          exact (hrow'.ended hnot a hmem).1 hrunning
        simp [isCurrent, hrow, hrunning, hnumber, hworks]

/-- Recovery of a database in which no Work is running. -/
theorem recoverInterrupted_idle {s : Store} (h : ∀ w ∈ s.works, w.state ≠ .running)
    (nowMs : Int64) :
  (recoverInterrupted nowMs).eval s = (.ok (), s)
  := by
  have hnone : runningRows s = [] := by
    rw [runningRows, List.filter_eq_nil_iff]
    intro w hw
    simpa using h w hw
  rw [recoverInterrupted_eval, hnone]
  rfl

end WorkStore

namespace Kernel

open WorkStore

variable {cfg : Config} {s : System}

/-- Restart recovery is failure handling applied to every Work that is running.  In every
reachable state `recover_interrupted` leaves the rows that calls of `finish_retryable_failure`
leave, one for each Work that is running and in any order, up to the texts of the failures and to
the state of the attempts that have ended.  No Work and no attempt is left running, the Works that
were not running and their attempts are untouched, and a second recovery changes nothing. -/
theorem recovery_is_failure_handling
    (hreach : (machine cfg).Reachable s) (nowMs laterMs : Int64) (text : Bytes)
    (order : List Row)
    (horder : order.Perm (s.store.works.filter (·.state = .running))) :
  ∃ recovered handled,
    (recoverInterrupted nowMs).eval s.store = (.ok (), recovered)
    ∧ (failEach text nowMs order).eval s.store = (.ok (), handled)
    ∧ recovered.works.map Work.sansFailure = handled.works.map Work.sansFailure
    ∧ List.Forall₂ (Attempt.FailedFor (bindText text)) recovered.attempts handled.attempts
    ∧ (∀ w ∈ recovered.works, w.state ≠ .running)
    ∧ (∀ a ∈ recovered.attempts, a.state ≠ .running)
    ∧ (∀ id w, s.store.row? id = some w → w.state ≠ .running →
        recovered.view id = s.store.view id)
    ∧ (recoverInterrupted laterMs).eval recovered = (.ok (), recovered)
  := by
  have haccount := (reachable_valid hreach).accounted
  obtain ⟨hworks, hattempts⟩ := recoverInterrupted_tables s.store nowMs
  obtain ⟨hworks', hattempts'⟩ := failEach_tables horder text nowMs
  have hviews := recoverInterrupted_acts nowMs s.store
  have heval := recoverInterrupted_eval nowMs s.store
  generalize (runningRows s.store).foldl (recoverOne nowMs) s.store = recovered at heval
  rw [heval] at hworks hattempts hviews
  have hidle : ∀ w ∈ recovered.works, w.state ≠ .running := by
    intro w hw
    rw [hworks] at hw
    obtain ⟨v, -, rfl⟩ := List.mem_map.mp hw
    apply endedRow_state
  refine ⟨recovered, _, heval, failEach_eval text nowMs order s.store, ?_, ?_, hidle, ?_, ?_,
    recoverInterrupted_idle hidle laterMs⟩
  · rw [hworks, hworks', List.map_map, List.map_map]
    apply List.map_congr_left
    intro w _
    apply endedRow_sansFailure
  · rw [hattempts, hattempts', List.forall₂_map_left_iff, List.forall₂_map_right_iff,
      List.forall₂_same]
    intro a _
    apply endedAttempt_failedFor
  · intro a ha
    rw [hattempts] at ha
    obtain ⟨b, hb, rfl⟩ := List.mem_map.mp ha
    exact endedAttempt_state haccount (by decide) _ _ hb
  · intro id w hrow hnot
    have hview : (s.store.view id).row? = some w := hrow
    rw [hviews id, WorkAction.apply, WorkAction.endRunning, hview]
    simp [hnot]

/-- A Work that is running when the Kernel restarts. -/
theorem recovery_is_failure_handling_running :
  ∃ s w recovered handled, (machine Sample.config).Reachable s
    ∧ s.store.row? (bindText Sample.workId) = some w ∧ w.state = .running
    ∧ (recoverInterrupted 5).eval s.store = (.ok (), recovered)
    ∧ (failEach [120] 5 (s.store.works.filter (·.state = .running))).eval s.store
      = (.ok (), handled)
    ∧ recovered.works.map Work.sansFailure = handled.works.map Work.sansFailure
    ∧ List.Forall₂ (Attempt.FailedFor (bindText [120])) recovered.attempts handled.attempts
    ∧ (∀ a ∈ recovered.attempts, a.state ≠ .running)
    ∧ (recoverInterrupted 7).eval recovered = (.ok (), recovered)
  := by
  obtain ⟨s, hreach, hs⟩ := Sample.reachable Sample.dispatched
    (fun s => (s.store.row? (bindText Sample.workId)).any fun w => w.state = .running)
    (by decide +kernel)
  obtain ⟨w, hrow, hrunning⟩ := (Option.any_eq_true _ _).mp hs
  obtain ⟨recovered, handled, hrecovered, hhandled, hworks, hattempts, -, hended, -, hagain⟩ :=
    recovery_is_failure_handling hreach 5 7 [120] _ (List.Perm.refl _)
  exact ⟨s, w, recovered, handled, hreach, hrow, of_decide_eq_true hrunning, hrecovered, hhandled,
    hworks, hattempts, hended, hagain⟩

end Kernel
