import MadreKernel.Store.Course

/-!
# The times of a Work

What an action does to the times of a Work, said once in `Retimed`: most actions leave them
alone, a start adds an attempt, and the end of an attempt dates it and may queue the Work again
for a later time.  `SpacedAttempts` says that each attempt of a Work starts no earlier than the
retry delay after the end of the one before.  The actions keep the spacing as long as the time of
the next attempt fits in 64 bits.
-/

/-- The times among the constants of a row. -/
theorem times_of_constants
    {w w' : Row} (h : (readWork w').constants = (readWork w).constants) :
  w'.retryDelayMs = w.retryDelayMs ∧ w'.deadlineMs = w.deadlineMs
    ∧ w'.eligibleAtMs = w.eligibleAtMs
  := by
  have hdelay := congrArg Work.retryDelayMs h
  have hdeadline := congrArg Work.deadlineMs h
  have heligible := congrArg Work.eligibleAtMs h
  exact ⟨hdelay, hdeadline, heligible⟩

/-- The attempts after the running attempt with a number has ended. -/
def endIn (number : Int32) (e : AttemptEdit) (attempts : List Attempt) : List Attempt :=
  attempts.map fun a =>
    if a.attemptNumber = number ∧ a.state = .running then e.apply a else a

namespace WorkAction

open WorkStore

/-- What an action does to the times of a Work. -/
inductive Retimed (w : Row) (attempts : List Attempt) : WorkAction → Row → List Attempt → Prop where
  /-- The times stay as they are. -/
  | same {a : WorkAction} {w' : Row} (hnext : w'.nextAttemptAtMs = w.nextAttemptAtMs)
      (hcount : w'.attemptCount = w.attemptCount)
      (hqueued : w'.state = .queued → w.state = .queued)
      (hrunning : w'.state = .running → w.state = .running) :
      Retimed w attempts a w' attempts
  | started {engineId modelId : CString} {startedAtMs : Int64} (hstart : startable w = true) :
      Retimed w attempts (.start engineId modelId startedAtMs) (startRow engineId modelId w)
        (attempts ++ [startAttempt engineId modelId startedAtMs w])
  /-- The attempt has ended, and the Work is not queued again. -/
  | finished {attemptState : AttemptState} {workState : WorkState} {text : CString}
      {number : Int32} {endedAtMs : Int64} {w' : Row}
      (hnext : w'.nextAttemptAtMs = w.nextAttemptAtMs)
      (hcount : w'.attemptCount = w.attemptCount)
      (hstate : w' = w ∧ w.state ≠ .running ∨ w.state = .running ∧ w'.state = workState) :
      Retimed w attempts (.finish attemptState workState text number endedAtMs) w'
        (endIn number (endAttempt attemptState endedAtMs text) attempts)
  /-- The attempt has failed. -/
  | failed {a : WorkAction} {attemptState : AttemptState} {cancelText failureText : CString}
      {number : Int32} {nowMs : Int64} (hrunning : w.state = .running)
      (ha : a = .failAttempt attemptState failureText number nowMs
        ∨ a = .recover nowMs ∧ number = w.attemptCount) :
      Retimed w attempts a ((failureVerdict (readWork w) nowMs cancelText failureText).apply w)
        (endIn number (endAttempt attemptState nowMs failureText) attempts)

/-- The end of an attempt that was not successful, on a Work that may be running. -/
theorem retimed_endRunning
    {v : WorkView} {w : Row} (h : v.row? = some w) {a : WorkAction} {attemptState : AttemptState}
    {cancelText failureText : CString} {number : Row → Int32} {nowMs : Int64}
    (ha : a = .failAttempt attemptState failureText (number w) nowMs
      ∨ a = .recover nowMs ∧ number w = w.attemptCount) :
  ∃ w', (endRunning attemptState cancelText failureText number nowMs v).row? = some w'
    ∧ Retimed w v.attempts a w'
      (endRunning attemptState cancelText failureText number nowMs v).attempts
  := by
  simp only [endRunning, h]
  split_ifs with hrunning
  · exact ⟨_, rfl, .failed hrunning ha⟩
  · exact ⟨w, h, .same rfl rfl (fun hstate => hstate) fun hstate => hstate⟩

theorem apply_retimed (a : WorkAction) {v : WorkView} {w : Row} (h : v.row? = some w) :
  ∃ w', (a.apply v).row? = some w' ∧ Retimed w v.attempts a w' (a.apply v).attempts
  := by
  have hedit : ∀ {f : Row → Row}, (f w).nextAttemptAtMs = w.nextAttemptAtMs →
      (f w).attemptCount = w.attemptCount → ((f w).state = .queued → w.state = .queued) →
      ((f w).state = .running → w.state = .running) →
      ∃ w', v.row?.map f = some w' ∧ Retimed w v.attempts a w' v.attempts := by
    intro f hnext hcount hqueued hrunning
    rw [h]
    exact ⟨_, rfl, .same hnext hcount hqueued hrunning⟩
  cases a with
  | expire nowMs =>
      apply hedit
      all_goals split_ifs
      all_goals simp
  | fail technicalFailure =>
      apply hedit
      all_goals split_ifs
      all_goals simp [setState]
  | start engineId modelId startedAtMs =>
      simp only [apply, h]
      split_ifs with hstart
      · exact ⟨_, rfl, .started hstart⟩
      · exact ⟨w, h, .same rfl rfl (fun hstate => hstate) fun hstate => hstate⟩
  | finish attemptState workState technicalFailure number endedAtMs =>
      by_cases hrunning : w.state = .running
      · refine ⟨(setState workState technicalFailure).apply w, ?_, .finished rfl rfl
          (Or.inr ⟨hrunning, rfl⟩)⟩
        simp [apply, WorkView.editIn, WorkView.endAttempt, h, hrunning]
      · refine ⟨w, ?_, .finished rfl rfl (Or.inl ⟨rfl, hrunning⟩)⟩
        simp [apply, WorkView.editIn, WorkView.endAttempt, h, hrunning]
  | failAttempt attemptState text number endedAtMs => exact retimed_endRunning h (Or.inl rfl)
  | recover nowMs => exact retimed_endRunning h (Or.inr ⟨rfl, rfl⟩)
  | cancel =>
      simp only [apply, WorkView.editIn, Option.map_map]
      apply hedit
      all_goals simp only [Function.comp_apply]
      all_goals split_ifs
      all_goals simp_all [requestCancel, cancelQueued]
  | acknowledge =>
      apply hedit
      all_goals split_ifs
      all_goals simp

end WorkAction

/-! ### Spacing -/

/-- The time of the next attempt fits in 64 bits, when an attempt of the Work fails at a reading of
the clock and another attempt is left. -/
def Work.retryFits (w : Row) (nowMs : Int64) : Bool :=
  w.cancelRequested || w.maxAttempts ≤ w.attemptCount
    || nowMs.toInt + w.retryDelayMs.toInt < 2 ^ 63

/-- Each attempt starts no earlier than the retry delay after the end of the one before; and a Work
that is queued again waits for the retry delay, which ends before its deadline. -/
structure SpacedAttempts (w : Row) (attempts : List Attempt) : Prop where
  gap : ∀ a ∈ attempts, ∀ b ∈ attempts, b.attemptNumber.toInt = a.attemptNumber.toInt + 1 →
    ∃ endedAtMs, a.endedAtMs = some endedAtMs
      ∧ endedAtMs.toInt + w.retryDelayMs.toInt ≤ b.startedAtMs.toInt
  requeued : w.state = .queued → ∀ a ∈ attempts, a.attemptNumber = w.attemptCount →
    ∃ endedAtMs, a.endedAtMs = some endedAtMs
      ∧ w.nextAttemptAtMs.toInt = endedAtMs.toInt + w.retryDelayMs.toInt
      ∧ ∀ deadline, w.deadlineMs = some deadline →
        endedAtMs.toInt + w.retryDelayMs.toInt < deadline.toInt

namespace WorkAction

open WorkStore WorkView

/-- The actions that keep the spacing of a Work. -/
def Spaces (w : Row) : WorkAction → Prop
  | .start _ _ startedAtMs => w.state = .queued → w.nextAttemptAtMs.toInt ≤ startedAtMs.toInt
  | .finish _ workState _ _ _ => workState ≠ .queued
  | .failAttempt _ _ number endedAtMs => number = w.attemptCount ∧ w.retryFits endedAtMs = true
  | .recover nowMs => w.state = .running → w.retryFits nowMs = true
  | _ => True

variable {w w' : Row} {attempts attempts' : List Attempt} {a : WorkAction}

theorem number_le_count (h : RowAccounted w attempts) {b : Attempt} (hb : b ∈ attempts) :
  b.attemptNumber.toInt ≤ w.attemptCount.toInt
  := by
  have hmem := List.mem_map_of_mem (f := fun a : Attempt => a.attemptNumber.toInt) hb
  rw [h.numbers, numbersTo, List.mem_map] at hmem
  obtain ⟨i, hi, hnumber⟩ := hmem
  have hlt := List.mem_range.mp hi
  have hnonneg := h.nonneg
  omega

/-- No two attempts of a Work have the same number. -/
theorem number_injective
    (h : RowAccounted w attempts) {b c : Attempt} (hb : b ∈ attempts) (hc : c ∈ attempts)
    (hnumber : b.attemptNumber = c.attemptNumber) :
  b = c
  := by
  have hnodup : (attempts.map fun a : Attempt => a.attemptNumber.toInt).Nodup := by
    rw [h.numbers, numbersTo]
    apply List.nodup_range.map
    intro i j hij
    simp only at hij
    omega
  exact List.inj_on_of_nodup_map hnodup hb hc (congrArg Int32.toInt hnumber)

/-- An attempt after the running one has ended. -/
theorem mem_endIn
    {number : Int32} {attemptState : AttemptState} {endedAtMs : Int64} {text : CString}
    {b : Attempt} (h : b ∈ endIn number (endAttempt attemptState endedAtMs text) attempts) :
  ∃ a ∈ attempts, b.attemptNumber = a.attemptNumber ∧ b.startedAtMs = a.startedAtMs
    ∧ (b = a ∧ ¬(a.attemptNumber = number ∧ a.state = .running)
      ∨ a.state = .running ∧ b.endedAtMs = some endedAtMs)
  := by
  obtain ⟨a, ha, rfl⟩ := List.mem_map.mp h
  refine ⟨a, ha, ?_⟩
  split_ifs with hrunning
  · exact ⟨rfl, rfl, Or.inr ⟨hrunning.2, rfl⟩⟩
  · exact ⟨rfl, rfl, Or.inl ⟨rfl, hrunning⟩⟩

/-- The end of the running attempt, which is the last one, keeps the gaps. -/
theorem gap_endIn
    (haccount : RowAccounted w attempts) (h : SpacedAttempts w attempts) {number : Int32}
    {attemptState : AttemptState} {endedAtMs : Int64} {text : CString}
    (hdelay : w'.retryDelayMs = w.retryDelayMs) {b c : Attempt}
    (hb : b ∈ endIn number (endAttempt attemptState endedAtMs text) attempts)
    (hc : c ∈ endIn number (endAttempt attemptState endedAtMs text) attempts)
    (hnext : c.attemptNumber.toInt = b.attemptNumber.toInt + 1) :
  ∃ endedAtMs, b.endedAtMs = some endedAtMs
    ∧ endedAtMs.toInt + w'.retryDelayMs.toInt ≤ c.startedAtMs.toInt
  := by
  obtain ⟨b₀, hb₀, hbnumber, -, hbcases⟩ := mem_endIn hb
  obtain ⟨c₀, hc₀, hcnumber, hcstarted, -⟩ := mem_endIn hc
  rw [hbnumber, hcnumber] at hnext
  rcases hbcases with ⟨rfl, -⟩ | ⟨hrunning, -⟩
  · rw [hdelay, hcstarted]
    exact h.gap b hb₀ c₀ hc₀ hnext
  · have hlast := haccount.number_of_running b₀ hb₀ hrunning
    have hle := number_le_count haccount hc₀
    rw [hlast] at hnext
    omega

theorem spaced_started
    (haccount : RowAccounted w attempts) (h : SpacedAttempts w attempts)
    {engineId modelId : CString} {startedAtMs : Int64} (hstart : startable w = true)
    (hspaces : w.nextAttemptAtMs.toInt ≤ startedAtMs.toInt) :
  SpacedAttempts (startRow engineId modelId w)
    (attempts ++ [startAttempt engineId modelId startedAtMs w])
  := by
  obtain ⟨hnumber, -⟩ := start_number haccount hstart
  have hnew : (startAttempt engineId modelId startedAtMs w).attemptNumber.toInt
      = w.attemptCount.toInt + 1 := hnumber
  constructor
  · intro b hb c hc hnext
    rcases List.mem_append.mp hb with hb | hb
    · rcases List.mem_append.mp hc with hc | hc
      · exact h.gap b hb c hc hnext
      · rw [List.mem_singleton.mp hc] at hnext ⊢
        have hlast : b.attemptNumber = w.attemptCount := by
          apply Int32.toInt_inj.mp
          omega
        obtain ⟨endedAtMs, hended, hqueued, -⟩ :=
          h.requeued (state_of_startable hstart) b hb hlast
        refine ⟨endedAtMs, hended, ?_⟩
        rw [hqueued] at hspaces
        exact hspaces
    · rw [List.mem_singleton.mp hb] at hnext
      have hle : c.attemptNumber.toInt ≤ w.attemptCount.toInt + 1 := by
        rcases List.mem_append.mp hc with hc | hc
        · have := number_le_count haccount hc
          omega
        · rw [List.mem_singleton.mp hc, hnew]
      omega
  · intro hqueued
    cases hqueued

/-- A Work that is queued again: the time of the next attempt, in 64 bits. -/
theorem failureVerdict_requeued
    {nowMs : Int64} {cancelText failureText : CString}
    (h : ((failureVerdict (readWork w) nowMs cancelText failureText).apply w).state = .queued) :
  w.cancelRequested = false ∧ ¬w.maxAttempts ≤ w.attemptCount
    ∧ ((failureVerdict (readWork w) nowMs cancelText failureText).apply w).nextAttemptAtMs
      = nowMs + w.retryDelayMs
    ∧ ∀ deadline, w.deadlineMs = some deadline → nowMs + w.retryDelayMs < deadline
  := by
  rw [failureVerdict] at h ⊢
  split_ifs at h ⊢ with hcancel hretry
  · cases h
  · have hflag : (readWork w).cancelRequested = w.cancelRequested := rfl
    rw [hflag, Bool.not_eq_true] at hcancel
    refine ⟨hcancel, ?_⟩
    rw [retryPermitted] at hretry
    split_ifs at hretry with hbudget
    refine ⟨hbudget, rfl, ?_⟩
    intro deadline hdeadline
    have hread : (readWork w).deadlineMs = some deadline := hdeadline
    rw [hread] at hretry
    exact of_decide_eq_true hretry
  · cases h

theorem toInt_add_of_fits {x y : Int64} (hy : 0 ≤ y.toInt) (h : x.toInt + y.toInt < 2 ^ 63) :
  (x + y).toInt = x.toInt + y.toInt
  := by
  have hx := x.le_toInt
  rw [Int64.toInt_add]
  apply Int.bmod_eq_of_le
  · omega
  · omega

/-- The last attempt of a running Work ends at the time that is recorded. -/
theorem ended_endIn
    (haccount : RowAccounted w attempts) (hrunning : w.state = .running)
    {attemptState : AttemptState} {endedAtMs : Int64} {text : CString} {b : Attempt}
    (hb : b ∈ endIn w.attemptCount (endAttempt attemptState endedAtMs text) attempts)
    (hnumber : b.attemptNumber = w.attemptCount) :
  b.endedAtMs = some endedAtMs
  := by
  obtain ⟨b₀, hb₀, hbnumber, -, ⟨rfl, hnot⟩ | ⟨-, hended⟩⟩ := mem_endIn hb
  · obtain ⟨earlier, last, rfl, hlast, -⟩ := haccount.running hrunning
    have hsame : b = last := by
      apply number_injective haccount hb₀ (by simp)
      rw [hnumber, haccount.last_number]
    rw [hsame] at hnot
    exact absurd ⟨haccount.last_number, hlast⟩ hnot
  · exact hended

theorem spaced_failed
    (haccount : RowAccounted w attempts) (h : SpacedAttempts w attempts)
    (hdelay : 0 ≤ w.retryDelayMs.toInt) {attemptState : AttemptState}
    {cancelText failureText : CString} {nowMs : Int64} (hrunning : w.state = .running)
    (hfits : w.retryFits nowMs = true) :
  SpacedAttempts ((failureVerdict (readWork w) nowMs cancelText failureText).apply w)
    (endIn w.attemptCount (endAttempt attemptState nowMs failureText) attempts)
  := by
  obtain ⟨hdelay', hdeadline, -⟩ :=
    times_of_constants (failureVerdict_kept w nowMs cancelText failureText).constants
  obtain ⟨hcount, -⟩ := failureVerdict_cases w nowMs cancelText failureText
  constructor
  · intro b hb c hc hnext
    exact gap_endIn haccount h hdelay' hb hc hnext
  · intro hqueued b hb hnumber
    obtain ⟨hcancel, hbudget, hnext, hbefore⟩ := failureVerdict_requeued hqueued
    have hsum : (nowMs + w.retryDelayMs).toInt = nowMs.toInt + w.retryDelayMs.toInt := by
      apply toInt_add_of_fits hdelay
      simpa [Work.retryFits, hcancel, hbudget] using hfits
    rw [hcount] at hnumber
    refine ⟨nowMs, ended_endIn haccount hrunning hb hnumber, ?_, ?_⟩
    · rw [hnext, hsum, hdelay']
    · intro deadline hsome
      have hlt := Int64.lt_iff_toInt_lt.mp (hbefore deadline (hdeadline.symm.trans hsome))
      rw [hdelay', ← hsum]
      exact hlt

/-- The actions with the right times keep the spacing. -/
theorem Retimed.spaced
    (hretimed : Retimed w attempts a w' attempts') (haccount : RowAccounted w attempts)
    (h : SpacedAttempts w attempts) (hdelay : 0 ≤ w.retryDelayMs.toInt)
    (hconstants : (readWork w').constants = (readWork w).constants) (ha : Spaces w a) :
  SpacedAttempts w' attempts'
  := by
  obtain ⟨hdelay', hdeadline, -⟩ := times_of_constants hconstants
  cases hretimed with
  | same hnext hcount hqueued hrunning =>
      constructor
      · rw [hdelay']
        exact h.gap
      · intro hstate
        rw [hdelay', hdeadline, hnext, hcount]
        exact h.requeued (hqueued hstate)
  | started hstart => exact spaced_started haccount h hstart (ha (state_of_startable hstart))
  | finished hnext hcount hstate =>
      constructor
      · intro b hb c hc
        exact gap_endIn haccount h hdelay' hb hc
      · intro hqueued b hb hnumber
        rcases hstate with ⟨rfl, hnot⟩ | ⟨-, hstate⟩
        · obtain ⟨b₀, hb₀, -, -, ⟨rfl, -⟩ | ⟨hrunning, -⟩⟩ := mem_endIn hb
          · exact h.requeued hqueued b hb₀ hnumber
          · exact absurd hrunning (haccount.ended hnot b₀ hb₀).1
        · exact absurd (hstate.symm.trans hqueued) ha
  | failed hrunning ha' =>
      rcases ha' with rfl | ⟨rfl, rfl⟩
      · obtain ⟨rfl, hfits⟩ := ha
        exact spaced_failed haccount h hdelay hrunning hfits
      · exact spaced_failed haccount h hdelay hrunning (ha hrunning)

/-- A Work that is not running, and is not started: while it is queued, the time of its next attempt
stays. -/
theorem Retimed.waits
    (hretimed : Retimed w attempts a w' attempts') (hstate : w.state ≠ .running)
    (ha : ∀ engineId modelId startedAtMs, a ≠ .start engineId modelId startedAtMs) :
  w'.state ≠ .running ∧ (w'.state = .queued → w.state = .queued
    ∧ w'.nextAttemptAtMs = w.nextAttemptAtMs)
  := by
  cases hretimed with
  | same hnext hcount hqueued hrunning =>
      exact ⟨fun h => hstate (hrunning h), fun h => ⟨hqueued h, hnext⟩⟩
  | started hstart => exact absurd rfl (ha _ _ _)
  | finished hnext hcount hcases =>
      rcases hcases with ⟨rfl, -⟩ | ⟨hrunning, -⟩
      · exact ⟨hstate, fun h => ⟨h, rfl⟩⟩
      · exact absurd hrunning hstate
  | failed hrunning _ => exact absurd hrunning hstate

end WorkAction
