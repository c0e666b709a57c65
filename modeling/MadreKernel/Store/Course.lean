import MadreKernel.Store.Ledger
import MadreKernel.Store.Safety

/-!
# The course of a Work in the ledger

What the steps of the ledger do to one Work that has a row: nothing, or an action that the step
may take.  The constants of the row, its attempt count and a request to cancel stay as they are
unless the Work is started; the row keeps to the lifecycle; and a Work that is running and is to
be cancelled succeeds only by an owner that was checked before.
-/

/-! ### What the rows keep -/

/-- The columns that are never assigned after the Work is submitted. -/
def Work.constants (w : WorkRecord) : WorkRecord :=
  { w with
    state := .queued
    nextAttemptAtMs := 0
    attemptCount := 0
    acknowledged := false
    cancelRequested := false
    selectedEngineId := []
    selectedModelId := []
    technicalFailure := [] }

/-- What happens to a row, whatever happens: its constants stay, a request to cancel stays, and
the attempt count goes on only when the Work is started. -/
structure Row.Kept (w w' : Row) : Prop where
  constants : (readWork w').constants = (readWork w).constants
  cancelRequested : w.cancelRequested = true → w'.cancelRequested = true
  attemptCount : w'.attemptCount = w.attemptCount
    ∨ WorkAction.startable w = true ∧ w'.attemptCount = w.attemptCount + 1

theorem Row.Kept.refl (w : Row) :
  Row.Kept w w
  := ⟨rfl, id, Or.inl rfl⟩

namespace WorkAction

open WorkStore

theorem failureVerdict_kept (w : Row) (nowMs : Int64) (cancelText failureText : CString) :
  Row.Kept w ((failureVerdict (readWork w) nowMs cancelText failureText).apply w)
  := by
  rw [failureVerdict]
  split_ifs <;> exact ⟨rfl, id, Or.inl rfl⟩

theorem endRunning_kept {v : WorkView} {w : Row} (h : v.row? = some w)
    (attemptState : AttemptState) (cancelText failureText : CString) (number : Row → Int32)
    (nowMs : Int64) :
  ∃ w', (endRunning attemptState cancelText failureText number nowMs v).row? = some w'
    ∧ Row.Kept w w'
  := by
  simp only [endRunning, h]
  split_ifs
  · exact ⟨_, rfl, failureVerdict_kept w nowMs cancelText failureText⟩
  · exact ⟨w, h, Row.Kept.refl w⟩

/-- An action keeps the row. -/
theorem apply_kept (a : WorkAction) {v : WorkView} {w : Row} (h : v.row? = some w) :
  ∃ w', (a.apply v).row? = some w' ∧ Row.Kept w w'
  := by
  have hedit : ∀ {f : Row → Row}, Row.Kept w (f w) →
      ∃ w', v.row?.map f = some w' ∧ Row.Kept w w' := by
    intro f hf
    rw [h]
    exact ⟨_, rfl, hf⟩
  cases a with
  | expire nowMs =>
      apply hedit
      split_ifs <;> exact ⟨rfl, id, Or.inl rfl⟩
  | fail technicalFailure =>
      apply hedit
      split_ifs <;> exact ⟨rfl, id, Or.inl rfl⟩
  | start engineId modelId startedAtMs =>
      simp only [apply, h]
      split_ifs with hstart
      · exact ⟨_, rfl, rfl, id, Or.inr ⟨hstart, rfl⟩⟩
      · exact ⟨w, h, Row.Kept.refl w⟩
  | finish attemptState workState technicalFailure number endedAtMs =>
      apply hedit
      split_ifs <;> exact ⟨rfl, id, Or.inl rfl⟩
  | failAttempt => exact endRunning_kept h _ _ _ _ _
  | recover => exact endRunning_kept h _ _ _ _ _
  | cancel =>
      simp only [apply, WorkView.editIn, Option.map_map]
      apply hedit
      simp only [Function.comp_apply]
      split_ifs <;> exact ⟨rfl, fun _ => by first | rfl | assumption, Or.inl rfl⟩
  | acknowledge =>
      apply hedit
      split_ifs <;> exact ⟨rfl, id, Or.inl rfl⟩

/-- An action edits attempts without changing their engine and model, or starts one. -/
theorem apply_attempts (a : WorkAction) (v : WorkView) {attempt : Attempt}
    (h : attempt ∈ (a.apply v).attempts) :
  (∃ old ∈ v.attempts, attempt.engineId = old.engineId ∧ attempt.modelId = old.modelId)
    ∨ ∃ startedAtMs, a = .start attempt.engineId attempt.modelId startedAtMs
  := by
  have hend : ∀ {number : Int32} {state : AttemptState} {endedAtMs : Int64} {text : CString},
      attempt ∈ (v.endAttempt number (endAttempt state endedAtMs text)).attempts →
      ∃ old ∈ v.attempts, attempt.engineId = old.engineId ∧ attempt.modelId = old.modelId := by
    intro number state endedAtMs text hmem
    obtain ⟨old, hold, rfl⟩ := List.mem_map.mp hmem
    refine ⟨old, hold, ?_⟩
    split_ifs <;> exact ⟨rfl, rfl⟩
  have hrunning : ∀ {state : AttemptState} {cancelText failureText : CString}
      {number : Row → Int32} {nowMs : Int64},
      attempt ∈ (endRunning state cancelText failureText number nowMs v).attempts →
      ∃ old ∈ v.attempts, attempt.engineId = old.engineId ∧ attempt.modelId = old.modelId := by
    intro state cancelText failureText number nowMs hmem
    rw [endRunning] at hmem
    split at hmem
    · exact ⟨attempt, hmem, rfl, rfl⟩
    · split_ifs at hmem
      · exact hend hmem
      · exact ⟨attempt, hmem, rfl, rfl⟩
  cases a with
  | start engineId modelId startedAtMs =>
      simp only [apply] at h
      split at h
      · exact Or.inl ⟨attempt, h, rfl, rfl⟩
      · split_ifs at h
        · rcases List.mem_append.mp h with h | h
          · exact Or.inl ⟨attempt, h, rfl, rfl⟩
          · rw [List.mem_singleton.mp h]
            exact Or.inr ⟨startedAtMs, rfl⟩
        · exact Or.inl ⟨attempt, h, rfl, rfl⟩
  | finish => exact Or.inl (hend h)
  | failAttempt => exact Or.inl (hrunning h)
  | recover => exact Or.inl (hrunning h)
  | _ => exact Or.inl ⟨attempt, h, rfl, rfl⟩

end WorkAction

namespace Ledger

variable {picked : CString → CString → CString → Prop} {s s' : Store} {owners owners' : List Owner}

/-- The actions that a step may take on a Work: a start with the engine and the model that are
picked, an end by an owner, and the others. -/
def Allowed (picked : CString → CString → CString → Prop) (owners : List Owner) (id : CString)
    (a : WorkAction) : Prop :=
  match a with
  | .start engineId modelId _ => picked id engineId modelId
  | .finish .. | .failAttempt .. => ∃ o ∈ owners, o.id = id ∧ o.Ends a
  | _ => True

theorem Allowed.of_quiet {a : WorkAction} (ha : a.Quiet) (id : CString) :
  Allowed picked owners id a
  := by
  cases a with
  | start => cases ha
  | finish => cases ha
  | failAttempt => cases ha
  | _ => trivial

theorem Allowed.of_ends {o : Owner} {a : WorkAction} (ho : o ∈ owners) (ha : o.Ends a) :
  Allowed picked owners o.id a
  := by
  cases a with
  | finish => exact ⟨o, ho, rfl, ha⟩
  | failAttempt => exact ⟨o, ho, rfl, ha⟩
  | _ => cases ha

/-- What a step does to a Work that has a row: nothing, or an action that it may take. -/
theorem Step.view_cases (h : Step picked s owners s' owners') {id : CString} {w : Row}
    (hrow : s.row? id = some w) :
  s'.view id = s.view id
    ∨ ∃ a : WorkAction, s'.view id = a.apply (s.view id) ∧ Allowed picked owners id a
  := by
  have hat : ∀ {a : WorkAction} {j : CString}, a.ActsAt j s s' → Allowed picked owners j a →
      s'.view id = s.view id
        ∨ ∃ a : WorkAction, s'.view id = a.apply (s.view id) ∧ Allowed picked owners id a := by
    intro a j hacts hallowed
    by_cases hid : id = j
    · subst hid
      exact Or.inr ⟨a, (hacts id).trans (if_pos rfl), hallowed⟩
    · exact Or.inl ((hacts id).trans (if_neg hid))
  cases h with
  | pass hkeys hchecked => exact Or.inl rfl
  | insert row hnew hchecked hstate hcount hcancel h =>
      left
      rw [h, if_neg]
      rintro rfl
      rw [hnew] at hrow
      cases hrow
  | act h ha => exact hat h (.of_quiet ha _)
  | actAll h ha => exact Or.inr ⟨_, h id, .of_quiet ha id⟩
  | start hrow' hstart hpicked h => exact hat h hpicked
  | finish h ha => exact hat h (.of_ends (by simp) ha)
  | recover h => exact Or.inr ⟨_, h id, trivial⟩

/-- A step keeps the rows. -/
theorem Step.kept (h : Step picked s owners s' owners') {id : CString} {w : Row}
    (hrow : s.row? id = some w) :
  ∃ w', s'.row? id = some w' ∧ Row.Kept w w'
  := by
  rcases h.view_cases hrow with hview | ⟨a, hview, -⟩
  · exact ⟨w, (congrArg WorkView.row? hview).trans hrow, Row.Kept.refl w⟩
  · obtain ⟨w', hrow', hkept⟩ := a.apply_kept (v := s.view id) hrow
    exact ⟨w', (congrArg WorkView.row? hview).trans hrow', hkept⟩

/-- The attempts of a Work that has a row keep their engine and model, or are started as
picked. -/
theorem Step.attempts (h : Step picked s owners s' owners') {id : CString} {w : Row}
    (hrow : s.row? id = some w) {attempt : Attempt} (hmem : attempt ∈ s'.attemptsOf id) :
  (∃ old ∈ s.attemptsOf id, attempt.engineId = old.engineId ∧ attempt.modelId = old.modelId)
    ∨ picked id attempt.engineId attempt.modelId
  := by
  have hattempts : ∀ {v : WorkView}, s'.view id = v → attempt ∈ v.attempts := by
    rintro v rfl
    exact hmem
  rcases h.view_cases hrow with hview | ⟨a, hview, hallowed⟩
  · exact Or.inl ⟨attempt, hattempts hview, rfl, rfl⟩
  · rcases a.apply_attempts _ (hattempts hview) with hold | ⟨startedAtMs, rfl⟩
    · exact Or.inl hold
    · exact Or.inr hallowed

end Ledger

/-! ### The end of a running Work -/

namespace WorkAction

open WorkStore

/-- What an action makes of a Work that is running: it goes on, it is finished, or its attempt has
failed. -/
theorem apply_running (a : WorkAction) {v : WorkView} {w : Row} (h : v.row? = some w)
    (hrunning : w.state = .running) :
  ∃ w', (a.apply v).row? = some w'
    ∧ (w'.state = .running
      ∨ (∃ attemptState text number endedAtMs,
          a = .finish attemptState w'.state text number endedAtMs)
      ∨ w'.state = .cancelled
      ∨ w.cancelRequested = false ∧ (w'.state = .queued ∨ w'.state = .failed))
  := by
  have hfailed : ∀ (attemptState : AttemptState) (cancelText failureText : CString)
      (number : Row → Int32) (nowMs : Int64),
      ∃ w', (endRunning attemptState cancelText failureText number nowMs v).row? = some w'
        ∧ (w'.state = .cancelled
          ∨ w.cancelRequested = false ∧ (w'.state = .queued ∨ w'.state = .failed)) := by
    intro attemptState cancelText failureText number nowMs
    simp only [endRunning, h, hrunning, if_true]
    refine ⟨_, rfl, ?_⟩
    rcases (failureVerdict_cases w nowMs cancelText failureText).2.2.2 with
      ⟨hstate, -⟩ | ⟨hstate, hcancel, -⟩ | ⟨hstate, hcancel⟩
    · exact Or.inl hstate
    · exact Or.inr ⟨hcancel, Or.inl hstate⟩
    · exact Or.inr ⟨hcancel, Or.inr hstate⟩
  cases a with
  | finish attemptState workState text number endedAtMs =>
      refine ⟨(setState workState text).apply w, ?_,
        Or.inr (Or.inl ⟨attemptState, text, number, endedAtMs, rfl⟩)⟩
      simp [apply, WorkView.editIn, WorkView.endAttempt, h, hrunning]
  | failAttempt attemptState text number endedAtMs =>
      obtain ⟨w', hrow', hverdict⟩ :=
        hfailed attemptState (sqlText "cancelled") text (fun _ => number) endedAtMs
      exact ⟨w', hrow', Or.inr (Or.inr hverdict)⟩
  | recover nowMs =>
      obtain ⟨w', hrow', hverdict⟩ :=
        hfailed .interrupted (sqlText "cancelled before restart recovery") restartText
          (·.attemptCount) nowMs
      exact ⟨w', hrow', Or.inr (Or.inr hverdict)⟩
  | expire nowMs =>
      refine ⟨w, ?_, Or.inl hrunning⟩
      simp [apply, h, expired, hrunning]
  | fail text =>
      refine ⟨w, ?_, Or.inl hrunning⟩
      simp [apply, WorkView.editIn, h, hrunning]
  | start engineId modelId startedAtMs =>
      refine ⟨w, ?_, Or.inl hrunning⟩
      simp [apply, h, startable, hrunning]
  | cancel =>
      refine ⟨{ w with cancelRequested := true }, ?_, Or.inl hrunning⟩
      simp [apply, WorkView.editIn, h, hrunning, requestCancel]
  | acknowledge =>
      refine ⟨w, ?_, Or.inl hrunning⟩
      simp [apply, h, hrunning]

end WorkAction

namespace Ledger

variable {picked : CString → CString → CString → Prop} {s s' : Store} {owners owners' : List Owner}

theorem Allowed.lawful {id : CString} {a : WorkAction} (h : Allowed picked owners id a) :
  a.Lawful
  := by
  cases a with
  | finish attemptState workState text number endedAtMs =>
      obtain ⟨o, -, -, -, ⟨-, rfl, -⟩ | ⟨-, rfl⟩⟩ := h
      · exact Or.inl rfl
      · exact Or.inr rfl
  | _ => trivial

/-- A step keeps to the lifecycle. -/
theorem Step.follows (h : Step picked s owners s' owners') {id : CString} {w : Row}
    (hrow : s.row? id = some w) :
  ∃ w', s'.row? id = some w' ∧ Row.Follows w w'
  := by
  rcases h.view_cases hrow with hview | ⟨a, hview, hallowed⟩
  · exact ⟨w, (congrArg WorkView.row? hview).trans hrow, Row.Follows.refl w⟩
  · obtain ⟨w', hrow', hfollows⟩ := WorkAction.apply_follows hallowed.lawful (v := s.view id) hrow
    exact ⟨w', (congrArg WorkView.row? hview).trans hrow', hfollows⟩

/-- What a step makes of a Work that is running.  It succeeds by a checked owner, and it is queued
again or fails only without a request to cancel. -/
theorem Step.running (h : Step picked s owners s' owners') {id : CString} {w : Row}
    (hrow : s.row? id = some w) (hrunning : w.state = .running) :
  ∃ w', s'.row? id = some w'
    ∧ (w'.state = .running
      ∨ w'.state = .succeeded ∧ (∃ o ∈ owners, o.id = id ∧ o.checked = true)
      ∨ w'.state = .cancelled
      ∨ w.cancelRequested = false ∧ (w'.state = .queued ∨ w'.state = .failed))
  := by
  rcases h.view_cases hrow with hview | ⟨a, hview, hallowed⟩
  · exact ⟨w, (congrArg WorkView.row? hview).trans hrow, Or.inl hrunning⟩
  · obtain ⟨w', hrow', hcases⟩ := a.apply_running (v := s.view id) hrow hrunning
    refine ⟨w', (congrArg WorkView.row? hview).trans hrow', ?_⟩
    rcases hcases with hstate | ⟨attemptState, text, number, endedAtMs, rfl⟩ | hrest
    · exact Or.inl hstate
    · obtain ⟨o, ho, hid, -, ⟨-, hstate, hchecked⟩ | ⟨-, hstate⟩⟩ := hallowed
      · exact Or.inr (Or.inl ⟨hstate, o, ho, hid, hchecked⟩)
      · exact Or.inr (Or.inr (Or.inl hstate))
    · exact Or.inr (Or.inr hrest)

/-- An owner becomes checked only while there is no request to cancel its Work. -/
theorem Step.checked (h : Step picked s owners s' owners') {o : Owner} (ho : o ∈ owners')
    (hchecked : o.checked = true) :
  o ∈ owners ∨ ∀ w, s.row? o.id = some w → w.cancelRequested = false
  := by
  cases h with
  | pass hkeys hpass => exact hpass o ho hchecked
  | start hrow hstart hpicked h =>
      rcases List.mem_append.mp ho with ho | ho
      · exact Or.inl ho
      · rw [List.mem_singleton.mp ho] at hchecked
        cases hchecked
  | finish h ha =>
      left
      simp only [List.mem_append, List.mem_cons] at ho ⊢
      tauto
  | _ => exact Or.inl ho

end Ledger
