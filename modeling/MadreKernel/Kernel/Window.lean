import MadreKernel.Kernel.Clock

/-!
# The dispatch window

An attempt starts when the Work is eligible, when the time of its next attempt has come, and before
its deadline.  After a reading of the scheduler at or past the deadline of a queued Work, that Work
is not started any more.
-/

namespace Kernel

open WorkStore

variable {cfg : Config} {t t' : Timed} {e : System.Event}

/-- A time is in the dispatch window of a Work. -/
def InWindow (w : Row) (startedAtMs : Int64) : Prop :=
  w.eligibleAtMs.toInt ≤ startedAtMs.toInt
    ∧ ∀ deadline, w.deadlineMs = some deadline → startedAtMs.toInt < deadline.toInt

/-- An attempt after a step was there before the step, or is started by it in the window. -/
theorem timed_attempts
    (hreach : (timed cfg).Reachable t) (hstep : t.step cfg e = some t') {id : CString} {w : Row}
    (hrow : t.system.store.row? id = some w) {a : Attempt}
    (ha : a ∈ t'.system.store.attemptsOf id) :
  (∃ b ∈ t.system.store.attemptsOf id, b.attemptNumber = a.attemptNumber
      ∧ b.startedAtMs = a.startedAtMs)
    ∨ InWindow w a.startedAtMs ∧ w.nextAttemptAtMs.toInt ≤ a.startedAtMs.toInt
      ∧ a.startedAtMs = t'.clock
      ∧ ∀ b ∈ t.system.store.attemptsOf id, b.attemptNumber ≠ a.attemptNumber
  := by
  have hsystem := (Timed.step_eq_some hstep).1
  rcases System.step_timely hsystem hrow with hview | ⟨action, hview, htimely⟩
  · left
    have hattempts : t'.system.store.attemptsOf id = t.system.store.attemptsOf id :=
      congrArg WorkView.attempts hview
    rw [hattempts] at ha
    exact ⟨a, ha, rfl, rfl⟩
  · obtain ⟨w', -, hretimed⟩ := action.apply_retimed (v := t.system.store.view id) hrow
    have hattempts : t'.system.store.attemptsOf id = (action.apply (t.system.store.view id)).attempts :=
      congrArg WorkView.attempts hview
    rw [hattempts] at ha
    have hold : ∀ {b : Attempt}, b ∈ (t.system.store.view id).attempts →
        b ∈ t.system.store.attemptsOf id := fun hb => hb
    have hend : ∀ {number : Int32} {state : AttemptState} {endedAtMs : Int64} {text : CString},
        a ∈ endIn number (endAttempt state endedAtMs text) (t.system.store.view id).attempts →
        ∃ b ∈ t.system.store.attemptsOf id, b.attemptNumber = a.attemptNumber
          ∧ b.startedAtMs = a.startedAtMs := by
      intro number state endedAtMs text hmem
      obtain ⟨b, hb, hnumber, hstarted, -⟩ := WorkAction.mem_endIn hmem
      exact ⟨b, hold hb, hnumber.symm, hstarted.symm⟩
    generalize (action.apply (t.system.store.view id)).attempts = attempts' at ha hretimed
    cases hretimed with
    | same => exact Or.inl ⟨a, hold ha, rfl, rfl⟩
    | @started engineId modelId startedAtMs hstart =>
        rcases List.mem_append.mp ha with ha | ha
        · exact Or.inl ⟨a, hold ha, rfl, rfl⟩
        · right
          rw [List.mem_singleton.mp ha]
          have haccount := reachable_account (timed_reachable hreach) hrow
          obtain ⟨hclock, hnext, heligible, hdeadline⟩ :=
            timed_starts hreach hstep hrow (WorkAction.state_of_startable hstart) htimely
          refine ⟨⟨heligible, hdeadline⟩, hnext, hclock, ?_⟩
          intro b hb hsame
          have hle := WorkAction.number_le_count haccount hb
          have hnumber := (WorkAction.start_number haccount hstart).1
          rw [hsame] at hle
          simp only [WorkAction.startAttempt] at hle
          omega
    | finished => exact Or.inl (hend ha)
    | failed => exact Or.inl (hend ha)

/-! ### After the deadline -/

/-- A queued Work whose deadline has passed, and what may become of it. -/
structure Overdue (store : Store) (id : CString) (attempts : List Attempt) (deadline : Int64) :
    Prop where
  row : ∃ w, store.row? id = some w ∧ w.deadlineMs = some deadline
    ∧ (w.state = .queued ∨ w.state = .failed ∨ w.state = .cancelled)
  attempts : store.attemptsOf id = attempts

/-- Ending a running attempt does nothing when none is running. -/
theorem endIn_of_ended
    {attempts : List Attempt} (h : ∀ a ∈ attempts, a.Ended) (number : Int32) (e : AttemptEdit) :
  endIn number e attempts = attempts
  := by
  apply Eq.trans (List.map_congr_left _) (List.map_id _)
  intro a ha
  rw [if_neg]
  · rfl
  · rintro ⟨-, hrunning⟩
    exact (h a ha).1 hrunning

/-- What may become of a Work that is not started. -/
theorem overdue_state
    {w w' : Row} (h : Row.Follows w w') (hrunning : w'.state ≠ .running)
    (hstate : w.state = .queued ∨ w.state = .failed ∨ w.state = .cancelled) :
  w'.state = .queued ∨ w'.state = .failed ∨ w'.state = .cancelled
  := by
  rcases h.state with hsame | htransition
  · rw [hsame]
    exact hstate
  · rcases hstate with hstate | hstate | hstate
    · rw [hstate] at htransition
      simp only [WorkState.transitions, List.mem_cons, Prod.mk.injEq, reduceCtorEq, true_and,
        false_and, List.not_mem_nil, or_false] at htransition
      rcases htransition with hto | hto | hto
      · exact absurd hto hrunning
      · exact Or.inr (Or.inl hto)
      · exact Or.inr (Or.inr hto)
    · rw [hstate] at htransition
      simp [WorkState.transitions] at htransition
    · rw [hstate] at htransition
      simp [WorkState.transitions] at htransition

theorem Overdue.step
    {id : CString} {attempts : List Attempt} {deadline : Int64} (hreach : (timed cfg).Reachable t)
    (h : Overdue t.system.store id attempts deadline) (hstep : t.step cfg e = some t')
    (hpassed : deadline.toInt ≤ t'.clock.toInt) :
  Overdue t'.system.store id attempts deadline
  := by
  obtain ⟨⟨w, hrow, hdeadline, hstate⟩, hattempts⟩ := h
  have hsystem := (Timed.step_eq_some hstep).1
  have haccount := reachable_account (timed_reachable hreach) hrow
  have hidle : w.state ≠ .running := by
    rcases hstate with hstate | hstate | hstate <;> rw [hstate] <;> simp
  obtain ⟨w', hrow', hfollows⟩ := (reachable_step (timed_reachable hreach) hsystem).follows hrow
  obtain ⟨w₁, hrow₁, hkept⟩ := (reachable_step (timed_reachable hreach) hsystem).kept hrow
  cases hrow'.symm.trans hrow₁
  have hdeadline' := (times_of_constants hkept.constants).2.1.trans hdeadline
  -- It is enough that the Work is not running and has no other attempts.
  suffices hkeep : w'.state ≠ .running
      ∧ t'.system.store.attemptsOf id = t.system.store.attemptsOf id by
    exact ⟨⟨w', hrow', hdeadline', overdue_state hfollows hkeep.1 hstate⟩,
      hkeep.2.trans hattempts⟩
  rcases System.step_timely hsystem hrow with hview | ⟨a, hview, htimely⟩
  · have hsame : w' = w :=
      Option.some.inj (hrow'.symm.trans ((congrArg WorkView.row? hview).trans hrow))
    rw [hsame]
    exact ⟨hidle, congrArg WorkView.attempts hview⟩
  · obtain ⟨w₂, hrow₂, hretimed⟩ := a.apply_retimed (v := t.system.store.view id) hrow
    obtain rfl : w' = w₂ :=
      Option.some.inj (hrow'.symm.trans ((congrArg WorkView.row? hview).trans hrow₂))
    have hafter : t'.system.store.attemptsOf id = (a.apply (t.system.store.view id)).attempts :=
      congrArg WorkView.attempts hview
    rw [hafter]
    generalize (a.apply (t.system.store.view id)).attempts = attempts' at hretimed
    cases hretimed with
    | same hnext hcount hqueued hrunning => exact ⟨fun hr => hidle (hrunning hr), rfl⟩
    | started hstart =>
        obtain ⟨hclock, -, -, hbefore⟩ :=
          timed_starts hreach hstep hrow (WorkAction.state_of_startable hstart) htimely
        have hlt := hbefore deadline hdeadline
        rw [hclock] at hlt
        omega
    | finished hnext hcount hcases =>
        rcases hcases with ⟨rfl, -⟩ | ⟨hrunning, -⟩
        · exact ⟨hidle, endIn_of_ended (haccount.ended hidle) _ _⟩
        · exact absurd hrunning hidle
    | failed hrunning => exact absurd hrunning hidle

/-- A Work that is queued when a reading of the scheduler has come to its deadline. -/
theorem Overdue.run
    {id : CString} {attempts : List Attempt} {deadline : Int64} {es : List System.Event}
    (hreach : (timed cfg).Reachable t) (h : Overdue t.system.store id attempts deadline)
    (hpassed : deadline.toInt ≤ t.clock.toInt) (hrun : (timed cfg).run t es = some t') :
  Overdue t'.system.store id attempts deadline
  := by
  have hkeeps := Machine.run_preserves
    (P := fun t => (timed cfg).Reachable t ∧ Overdue t.system.store id attempts deadline
      ∧ deadline.toInt ≤ t.clock.toInt) ?_ ⟨hreach, h, hpassed⟩ hrun
  · exact hkeeps.2.1
  · rintro t e t' ⟨hreach, h, hpassed⟩ hstep
    have hpassed' := hpassed.trans (Timed.step_eq_some hstep).2.1
    exact ⟨hreach.step hstep, h.step hreach hstep hpassed', hpassed'⟩

/-! ### Runs -/

/-- The attempt was started at a step of the run, whose time was not before the time of the next
attempt that the row had then. -/
def DispatchedIn (cfg : Config) (t₀ : Timed) (es : List System.Event) (id : CString) (a : Attempt) :
    Prop :=
  ∃ before e after t t' w, es = before ++ e :: after ∧ (timed cfg).run t₀ before = some t
    ∧ t.step cfg e = some t' ∧ t.system.store.row? id = some w
    ∧ (∀ b ∈ t.system.store.attemptsOf id, b.attemptNumber ≠ a.attemptNumber)
    ∧ (∃ b ∈ t'.system.store.attemptsOf id, b.attemptNumber = a.attemptNumber)
    ∧ w.nextAttemptAtMs.toInt ≤ a.startedAtMs.toInt

theorem DispatchedIn.congr
    {t₀ : Timed} {es : List System.Event} {id : CString} {a b : Attempt}
    (h : DispatchedIn cfg t₀ es id b) (hnumber : b.attemptNumber = a.attemptNumber)
    (hstarted : b.startedAtMs = a.startedAtMs) (e : System.Event) :
  DispatchedIn cfg t₀ (es ++ [e]) id a
  := by
  obtain ⟨before, e', after, t, t', w, rfl, hrun, hstep, hrow, hnew, hthere, hnext⟩ := h
  rw [hnumber] at hnew hthere
  rw [hstarted] at hnext
  exact ⟨before, e', after ++ [e], t, t', w, by simp, hrun, hstep, hrow, hnew, hthere, hnext⟩

/-- Every attempt of a run is started in the window. -/
theorem run_window
    {t₀ : Timed} {es : List System.Event} (hinit : (timed cfg).init t₀)
    (hrun : (timed cfg).run t₀ es = some t) {id : CString} {w : Row}
    (hrow : t.system.store.row? id = some w) {a : Attempt}
    (ha : a ∈ t.system.store.attemptsOf id) :
  InWindow w a.startedAtMs ∧ DispatchedIn cfg t₀ es id a
  := by
  induction es using List.reverseRecOn generalizing t w a with
  | nil =>
      cases hrun
      rw [hinit.1] at hrow
      cases hrow
  | append_singleton es e ih =>
      obtain ⟨t₁, hrun₁, hstep⟩ := Machine.run_concat hrun
      have hreach₁ : (timed cfg).Reachable t₁ := ⟨t₀, es, hinit, hrun₁⟩
      have hsystem := (Timed.step_eq_some hstep).1
      have hreach := timed_reachable hreach₁
      cases hrow₁ : t₁.system.store.row? id with
      | none =>
          rw [attemptsOf_new (hreach.step hsystem) hsystem hrow₁ hrow] at ha
          cases ha
      | some w₁ =>
          obtain ⟨w', hrow', hkept⟩ := (reachable_step hreach hsystem).kept hrow₁
          cases hrow.symm.trans hrow'
          obtain ⟨-, hdeadline, heligible⟩ := times_of_constants hkept.constants
          have hwindow : ∀ startedAtMs, InWindow w₁ startedAtMs → InWindow w startedAtMs := by
            intro startedAtMs h
            rw [InWindow, hdeadline, heligible]
            exact h
          rcases timed_attempts hreach₁ hstep hrow₁ ha with
            ⟨b, hb, hnumber, hstarted⟩ | ⟨hin, hnext, -, hnew⟩
          · obtain ⟨hin, hdispatched⟩ := ih hrun₁ hrow₁ hb
            rw [hstarted] at hin
            exact ⟨hwindow _ hin, hdispatched.congr hnumber hstarted e⟩
          · exact ⟨hwindow _ hin, es, e, [], t₁, t, w₁, rfl, hrun₁, hstep, hrow₁, hnew,
              ⟨a, ha, rfl⟩, hnext⟩

/-- In every run each attempt of a Work starts when the Work is eligible, not before the time of the
next attempt that was stored when it was dispatched, and before the deadline.  Once a reading of the
scheduler is at or past the deadline of a queued Work, the Work gets no further attempt, and it
stays queued, fails or is cancelled. -/
theorem dispatch_window
    {t₀ : Timed} {es : List System.Event} (hinit : (timed cfg).init t₀)
    (hrun : (timed cfg).run t₀ es = some t) {id : CString} {w : Row}
    (hrow : t.system.store.row? id = some w) :
  (∀ a ∈ t.system.store.attemptsOf id, w.eligibleAtMs.toInt ≤ a.startedAtMs.toInt
      ∧ DispatchedIn cfg t₀ es id a
      ∧ ∀ deadline, w.deadlineMs = some deadline → a.startedAtMs.toInt < deadline.toInt)
    ∧ ∀ deadline e t₁ es' t₂, w.state = .queued → w.deadlineMs = some deadline →
      t.step cfg e = some t₁ → deadline.toInt ≤ t₁.clock.toInt →
      (timed cfg).run t₁ es' = some t₂ →
      t₂.system.store.attemptsOf id = t.system.store.attemptsOf id
        ∧ ∃ w₂, t₂.system.store.row? id = some w₂
          ∧ (w₂.state = .queued ∨ w₂.state = .failed ∨ w₂.state = .cancelled)
  := by
  have hreach : (timed cfg).Reachable t := ⟨t₀, es, hinit, hrun⟩
  constructor
  · intro a ha
    obtain ⟨⟨heligible, hdeadline⟩, hdispatched⟩ := run_window hinit hrun hrow ha
    exact ⟨heligible, hdispatched, hdeadline⟩
  · intro deadline e t₁ es' t₂ hqueued hdeadline hstep hpassed hrun'
    have hstart : Overdue t.system.store id (t.system.store.attemptsOf id) deadline :=
      ⟨⟨w, hrow, hdeadline, Or.inl hqueued⟩, rfl⟩
    have hoverdue := (hstart.step hreach hstep hpassed).run (hreach.step hstep) hpassed hrun'
    obtain ⟨w₂, hrow₂, -, hstate⟩ := hoverdue.row
    exact ⟨hoverdue.attempts, w₂, hrow₂, hstate⟩

/-- A Work with a deadline is dispatched, and its worker crashes. -/
def Sample.expiring : List System.Event :=
  submitting (frame .submit (fields ++ [("deadline_ms", "10")]) "in") ++ failingAt 1

/-- A Work whose first attempt has failed, and whose deadline passes before the second. -/
theorem dispatch_window_expired :
  ∃ t t₁ w w₁, (timed Sample.config).run Sample.timedStart Sample.expiring = some t
    ∧ t.system.store.row? (bindText Sample.workId) = some w ∧ w.state = .queued
    ∧ t.step Sample.config (.scheduler ⟨10, [], .ok ()⟩) = some t₁
    ∧ (t.system.store.attemptsOf (bindText Sample.workId)).length = 1
    ∧ (∀ a ∈ t.system.store.attemptsOf (bindText Sample.workId), a.startedAtMs.toInt < 10)
    ∧ t₁.system.store.attemptsOf (bindText Sample.workId)
      = t.system.store.attemptsOf (bindText Sample.workId)
    ∧ t₁.system.store.row? (bindText Sample.workId) = some w₁
    ∧ (w₁.state = .queued ∨ w₁.state = .failed ∨ w₁.state = .cancelled)
  := by
  have hcheck : ((timed Sample.config).run Sample.timedStart Sample.expiring).any (fun t =>
      (t.system.store.row? (bindText Sample.workId)).any
          (fun w => w.state = .queued ∧ w.deadlineMs = some 10)
        && (t.system.store.attemptsOf (bindText Sample.workId)).length = 1
        && (t.step Sample.config (.scheduler ⟨10, [], .ok ()⟩)).any fun t₁ => t₁.clock = 10)
      = true := by
    decide +kernel
  obtain ⟨t, hrun, ht⟩ := (Option.any_eq_true _ _).mp hcheck
  simp only [Bool.and_eq_true, decide_eq_true_eq] at ht
  obtain ⟨⟨hrow, hlength⟩, hstep⟩ := ht
  obtain ⟨w, hrow, hw⟩ := (Option.any_eq_true _ _).mp hrow
  obtain ⟨t₁, hstep, hclock⟩ := (Option.any_eq_true _ _).mp hstep
  obtain ⟨hqueued, hdeadline⟩ := of_decide_eq_true hw
  obtain ⟨hattempts, hexpired⟩ := dispatch_window ⟨rfl, rfl, rfl⟩ hrun hrow
  have hpassed : (10 : Int64).toInt ≤ t₁.clock.toInt := by
    rw [of_decide_eq_true hclock]
  obtain ⟨hsame, w₁, hrow₁, hstate⟩ :=
    hexpired 10 _ t₁ [] t₁ hqueued hdeadline hstep hpassed rfl
  refine ⟨t, t₁, w, w₁, hrun, hrow, hqueued, hstep, hlength, ?_, hsame, hrow₁, hstate⟩
  intro a ha
  exact (hattempts a ha).2.2 10 hdeadline

end Kernel
