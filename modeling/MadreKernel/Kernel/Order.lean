import MadreKernel.Kernel.Clock

/-!
# The order of dispatch

`next_eligible` orders the rows by urgency, creation time and row id.  The rows of the table stand
in the order of the accepted `SUBMIT`s, and when the readings of the clock at the `SUBMIT`s do not
decrease, nor do their creation times.  A Work that has had no attempt is eligible from its
`eligible_at_ms` on, since a retry delay begins with a failed attempt.  The Work that the scheduler
holds was first when it was picked, and no step makes another Work wait for its first attempt again.
-/

namespace Kernel

open WorkStore

variable {cfg : Config} {s s' : System} {p : Process} {e : System.Event}

/-! ### The first row -/

/-- The first row comes before the rows above it. -/
theorem earliest_before
    {l : List Row} {v w : Row} (hnodup : l.Nodup) (h : earliest l = some w)
    (habove : [v, w].Sublist l) :
  comesBefore w v = true
  := by
  induction l generalizing w with
  | nil => cases h
  | cons u l ih =>
      rw [List.nodup_cons] at hnodup
      have hmem : w ∈ l := by
        cases habove with
        | cons _ hrest => exact hrest.subset (by simp)
        | cons_cons _ hrest => exact hrest.subset (by simp)
      rw [earliest] at h
      cases hrest : earliest l with
      | none =>
          rw [hrest] at h
          cases h
          exact absurd hmem hnodup.1
      | some x =>
          rw [hrest] at h
          simp only at h
          split_ifs at h with hbefore
          · cases h
            cases habove with
            | cons _ habove => exact ih hnodup.2 hrest habove
            | cons_cons _ _ => exact hbefore
          · cases h
            exact absurd hmem hnodup.1

/-- A row that stands above another one in the table. -/
theorem sublist_works
    {store : Store} {a b : CString} {wa wb : Row} (h : [a, b].Sublist store.ids)
    (hwa : store.row? a = some wa) (hwb : store.row? b = some wb) :
  [wa, wb].Sublist store.works
  := by
  obtain ⟨l, hsub, hmap⟩ := List.sublist_map_iff.mp h
  obtain ⟨va, rest, rfl, rfl, hrest⟩ := List.map_eq_cons_iff.mp hmap.symm
  obtain ⟨vb, rfl, rfl⟩ := List.map_eq_singleton_iff.mp hrest
  have hva := Store.row?_of_mem (hsub.subset (List.mem_cons_self))
  have hvb := Store.row?_of_mem (hsub.subset (List.mem_cons_of_mem va List.mem_cons_self))
  cases hwa.symm.trans hva
  cases hwb.symm.trans hvb
  exact hsub

/-- Of two eligible rows the lower one is picked only when it comes before the upper one. -/
theorem earliest_eligible
    {store : Store} {nowMs : Int64} {a b : CString} {wa wb : Row}
    (h : earliest (store.works.filter (eligible nowMs)) = some wb) (hab : [a, b].Sublist store.ids)
    (hwa : store.row? a = some wa) (hwb : store.row? b = some wb)
    (heligible : eligible nowMs wa = true) :
  comesBefore wb wa = true
  := by
  have hpicked := (List.mem_filter.mp (System.earliest_mem h)).2
  apply earliest_before (List.Nodup.filter _ store.works_key.of_map) h
  have hsub := (sublist_works hab hwa hwb).filter (eligible nowMs)
  rwa [List.filter_cons_of_pos heligible, List.filter_cons_of_pos hpicked, List.filter_nil] at hsub

/-! ### The order of the rows -/

/-- The rows stay where they are, and no `SUBMIT` is accepted. -/
def System.SameOrder (s s' : System) : Prop :=
  s'.store.ids = s.store.ids ∧ s'.history.submitted = s.history.submitted

/-- The record of a `SUBMIT` becomes the last row. -/
def System.Appends (s s' : System) : Prop :=
  ∃ p c work, s.process = some p ∧ p.handler = .submitStoring c work
    ∧ s'.store.works = s.store.works ++ [submittedRow work]
    ∧ s'.history.submitted = s.history.submitted ++ [(bindText work.id, c.request)]

theorem schedulerCall_order
    {α : Type} {program : StoreProgram α} (h : program.Keeps Store.ids)
    (faults : List (Option Bytes)) (next : α → Process) :
  s.SameOrder (s.schedulerCall program faults next)
  := by
  have hkeeps := h.exec faults s.store
  rw [System.schedulerCall]
  split
  next a store hexec =>
    rw [hexec] at hkeeps
    exact ⟨hkeeps, rfl⟩
  next text store hexec =>
    rw [hexec] at hkeeps
    exact ⟨hkeeps, rfl⟩

theorem schedulerStep_order
    {input : SchedulerInput} (h : s.schedulerStep cfg p input = some s') :
  s.SameOrder s'
  := by
  cases hphase : p.scheduler with
  | sweeping =>
      simp only [System.schedulerStep, hphase] at h
      split_ifs at h
      · cases h
        exact ⟨rfl, rfl⟩
      · cases h
        apply schedulerCall_order (expireQueuedDeadlines_keeps _)
  | picking schedulerNow =>
      simp only [System.schedulerStep, hphase] at h
      cases h
      exact schedulerCall_order (.query _) _ _
  | dispatching schedulerNow work =>
      simp only [System.schedulerStep, hphase] at h
      split_ifs at h
      · cases h
        apply schedulerCall_order (failQueued_keeps _ _)
      · split at h
        · cases h
          apply schedulerCall_order (failQueued_keeps _ _)
        · split at h
          · cases h
            exact ⟨rfl, rfl⟩
          · cases h
            apply schedulerCall_order (failQueued_keeps _ _)
          · split at h <;> cases h <;> exact ⟨rfl, rfl⟩
  | reserved work selection =>
      simp only [System.schedulerStep, hphase] at h
      split_ifs at h
      · cases h
        apply schedulerCall_order (failQueued_keeps _ _)
      · cases h
        apply schedulerCall_order (beginAttempt_keeps _ _ _ _)
  | launching work selection number startedAtMs =>
      simp only [System.schedulerStep, hphase] at h
      split at h
      · cases h
        apply schedulerCall_order (finishRetryableFailure_keeps _ _ _ _ _)
      · cases h
        exact ⟨rfl, rfl⟩
  | left =>
      simp only [System.schedulerStep, hphase] at h
      cases h

theorem settle_keeps (t : Task) (nowMs : Int64) (settlement : Settlement) :
  (settle t nowMs settlement).Keeps Store.ids
  := by
  cases settlement with
  | cancelled => apply finish_keeps
  | failure attemptState text => apply finishRetryableFailure_keeps

theorem taskStep_order
    {stop : Bool} {store : Store} {files : Files} {t : Task} {input : TaskInput} {step : TaskStep}
    (h : taskStep stop store files t input = some step) :
  step.store.ids = store.ids
  := by
  cases input with
  | proceed nowMs faults =>
      cases hphase : t.phase with
      | settling settlement =>
          simp only [taskStep, hphase] at h
          cases h
          apply (settle_keeps t nowMs settlement).exec
      | checking payload =>
          simp only [taskStep, hphase] at h
          cases h
          exact Session.Keeps.exec (.query _) _ _
      | committing payload =>
          simp only [taskStep, hphase] at h
          cases h
          exact (finish_keeps _ _ _ _ _ _).exec _ _
      | handling text =>
          simp only [taskStep, hphase] at h
          split_ifs at h
          · cases h
            rfl
          · cases h
            apply (finishRetryableFailure_keeps _ _ _ _ _).exec
      | moving payload =>
          simp only [taskStep, hphase, Option.map_eq_some_iff] at h
          obtain ⟨files', -, rfl⟩ := h
          rfl
      | _ =>
          simp only [taskStep, hphase] at h
          try split_ifs at h
          all_goals cases h
          all_goals rfl
  | _ =>
      cases hphase : t.phase <;> simp only [taskStep, hphase] at h
      all_goals try split_ifs at h
      all_goals cases h
      all_goals rfl

theorem findFirst_order
    {c : Connection} {faults : List (Option Bytes)} {found : WorkRecord → System}
    (h : ∀ work, s.SameOrder (found work)) :
  s.SameOrder (s.findFirst p c faults found)
  := by
  rw [System.findFirst]
  split
  · exact ⟨rfl, rfl⟩
  · split
    · exact ⟨rfl, rfl⟩
    · exact ⟨rfl, rfl⟩
    · apply h

theorem handle_order
    {c : Connection} {nowMs : Int64} {draws : UInt64 × UInt64} {faults : List (Option Bytes)}
    (h : s.handle cfg p c nowMs draws faults = some s') :
  s.SameOrder s'
  := by
  rw [System.handle] at h
  split_ifs at h
  · cases h
    exact ⟨rfl, rfl⟩
  · split at h <;> cases h <;> exact ⟨rfl, rfl⟩
  · cases h
    apply findFirst_order
    intro work
    exact ⟨rfl, rfl⟩
  · cases h
    apply findFirst_order
    intro work
    exact ⟨rfl, rfl⟩
  · cases h
    apply findFirst_order
    intro work
    exact ⟨rfl, rfl⟩
  · split at h
    · cases h
      exact ⟨rfl, rfl⟩
    · next id _ =>
        have hkeeps := (cancel_keeps id).exec faults s.store
        split at h
        all_goals
          next hexec =>
            cases h
            rw [hexec] at hkeeps
            exact ⟨hkeeps, rfl⟩
  · cases h
    exact ⟨rfl, rfl⟩

theorem proceed_order
    (hprocess : s.process = some p) {faults : List (Option Bytes)}
    (h : s.proceed p faults = some s') :
  s.SameOrder s' ∨ s.Appends s'
  := by
  cases hphase : p.handler with
  | submitStoring c work =>
      simp only [System.proceed, hphase] at h
      rcases (submit_atomic work).exec_cases faults s.store with
        ⟨text, hexec⟩ | ⟨⟨⟩, store, hexec, heval⟩
      · rw [hexec] at h
        cases h
        exact Or.inl ⟨rfl, rfl⟩
      · rw [hexec] at h
        cases h
        refine Or.inr ⟨p, c, work, hprocess, hphase, ?_, rfl⟩
        rw [submit, Session.eval_insert] at heval
        cases hinsert : s.store.insertWork (submittedRow work) with
        | error text =>
            rw [hinsert] at heval
            cases heval
        | ok store' =>
            rw [hinsert] at heval
            cases heval
            exact (Store.insertWork_ok hinsert).2.2.1
  | acknowledgeFound c work =>
      left
      simp only [System.proceed, hphase] at h
      split at h
      · cases h
        exact ⟨rfl, rfl⟩
      · next id _ =>
          have hkeeps := (acknowledge_keeps id).exec faults s.store
          split at h
          all_goals
            next hexec =>
              cases h
              rw [hexec] at hkeeps
              exact ⟨hkeeps, rfl⟩
  | submitRenaming c work =>
      simp only [System.proceed, hphase, Option.map_eq_some_iff] at h
      obtain ⟨files, -, rfl⟩ := h
      exact Or.inl ⟨rfl, rfl⟩
  | resultFound c work =>
      left
      simp only [System.proceed, hphase] at h
      split at h <;> cases h <;> exact ⟨rfl, rfl⟩
  | _ =>
      simp only [System.proceed, hphase] at h
      cases h
      try exact Or.inl ⟨rfl, rfl⟩

theorem handlerStep_order
    (hprocess : s.process = some p) {input : System.HandlerInput}
    (h : s.handlerStep cfg p input = some s') :
  s.SameOrder s' ∨ s.Appends s'
  := by
  cases input with
  | request c nowMs draws faults =>
      simp only [System.handlerStep] at h
      split at h
      · split_ifs at h
        exact Or.inl (handle_order h)
      · cases h
  | write count =>
      simp only [System.handlerStep] at h
      split at h <;> cases h
      exact Or.inl ⟨rfl, rfl⟩
  | proceed faults => exact proceed_order hprocess h
  | throw text =>
      simp only [System.handlerStep] at h
      split at h <;> cases h <;> exact Or.inl ⟨rfl, rfl⟩

/-- A step leaves the rows where they are, or appends the row of an accepted `SUBMIT`. -/
theorem step_order (h : s.step cfg e = some s') :
  s.SameOrder s' ∨ s.Appends s'
  := by
  cases hprocess : s.process with
  | none =>
      cases e with
      | start nowMs faults =>
          simp only [System.step, hprocess, Option.some.injEq] at h
          subst h
          left
          have hkeeps := (recoverInterrupted_keeps nowMs).exec faults s.store
          rw [System.startStep]
          split
          all_goals
            next hexec =>
              rw [hexec] at hkeeps
              exact ⟨hkeeps, rfl⟩
      | _ =>
          simp only [System.step, hprocess] at h
          cases h
  | some p =>
      cases e with
      | start nowMs faults =>
          simp only [System.step, hprocess] at h
          cases h
      | crash =>
          simp only [System.step, hprocess] at h
          cases h
          exact Or.inl ⟨rfl, rfl⟩
      | stop =>
          simp only [System.step, hprocess] at h
          cases h
          exact Or.inl ⟨rfl, rfl⟩
      | scheduler input =>
          simp only [System.step, hprocess] at h
          exact Or.inl (schedulerStep_order h)
      | task i input =>
          simp only [System.step, hprocess, System.attemptStep] at h
          split at h
          · cases h
          · obtain ⟨step, hstep, rfl⟩ := Option.map_eq_some_iff.mp h
            exact Or.inl ⟨taskStep_order hstep, rfl⟩
      | handler input =>
          simp only [System.step, hprocess] at h
          exact handlerStep_order hprocess h

/-- In every reachable state the rows stand in the order of the accepted `SUBMIT`s. -/
theorem reachable_order (h : (machine cfg).Reachable s) :
  s.store.ids = s.history.submitted.map (·.1)
  := by
  refine Machine.Reachable.invariant
    (P := fun s => s.store.ids = s.history.submitted.map (·.1)) ?_ ?_ h
  · rintro s ⟨hstore, -, hhistory⟩
    rw [hstore, hhistory]
    rfl
  · intro s e s' _ horder hstep
    rcases step_order hstep with ⟨hids, hsubmitted⟩ | ⟨p, c, work, -, -, hworks, hsubmitted⟩
    · rw [hids, hsubmitted, horder]
    · rw [Store.ids, hworks, hsubmitted, List.map_append, List.map_append, ← horder]
      rfl

/-! ### Creation times -/

/-- The reading of the clock by a `SUBMIT` that is to be stored. -/
def System.submitReading (cfg : Config) : Event → Option Int
  | .handler (.request c nowMs draws _) =>
      if c.request.type = MessageType.submit.code
          && c.request.payload.length ≤ Wire.kMaxC1TextGenerationOpaquePayloadBytes
          && (submitRecord cfg.dataDir c.request nowMs draws).isOk then some nowMs.toInt
      else none
  | _ => none

/-- The system whose `SUBMIT`s read a clock that does not go back. -/
def dated (cfg : Config) : Machine (Machine.Clocked System Int) System.Event :=
  (machine cfg).clocked fun _ e => System.submitReading cfg e

/-- The step makes the record of a `SUBMIT`, at its reading of the clock. -/
def Makes (cfg : Config) (e : System.Event) (c : Connection) (work : WorkRecord) : Prop :=
  ∃ nowMs draws, System.submitReading cfg e = some nowMs.toInt
    ∧ submitRecord cfg.dataDir c.request nowMs draws = .ok work

/-- The record that the handler is about to store was there before the step, or the step makes
it. -/
def NewSubmission (cfg : Config) (p : Process) (e : System.Event) (p' : Process) : Prop :=
  ∀ c work, p'.handler.submission? = some (c, work) →
    p.handler.submission? = some (c, work) ∨ Makes cfg e c work

theorem findFirst_submission
    {c : Connection} {faults : List (Option Bytes)} {found : WorkRecord → System} {p' : Process}
    (h : ∀ work p', (found work).process = some p' → p'.handler.submission? = none)
    (hprocess' : (s.findFirst p c faults found).process = some p') :
  p'.handler.submission? = none
  := by
  rw [System.findFirst] at hprocess'
  split at hprocess'
  · cases hprocess'
    rfl
  · split at hprocess'
    · cases hprocess'
      rfl
    · cases hprocess'
      rfl
    · exact h _ p' hprocess'

theorem handle_submission
    {c : Connection} {nowMs : Int64} {draws : UInt64 × UInt64} {faults : List (Option Bytes)}
    (h : s.handle cfg p c nowMs draws faults = some s') {p' : Process}
    (hprocess' : s'.process = some p') :
  NewSubmission cfg p (.handler (.request c nowMs draws faults)) p'
  := by
  have hnone : p'.handler.submission? = none →
      NewSubmission cfg p (.handler (.request c nowMs draws faults)) p' := by
    intro hnone c work hsome
    rw [hnone] at hsome
    cases hsome
  rw [System.handle] at h
  split_ifs at h with hsubmit hsize
  · cases h
    cases hprocess'
    exact hnone rfl
  · split at h
    · cases h
      cases hprocess'
      exact hnone rfl
    · next work hrecord =>
        cases h
        cases hprocess'
        rintro c' work' ⟨⟩
        refine Or.inr ⟨nowMs, draws, ?_, hrecord⟩
        rw [System.submitReading, if_pos]
        simp [hsubmit, Nat.le_of_not_lt hsize, hrecord, Except.isOk, Except.toBool]
  · cases h
    apply hnone
    apply findFirst_submission _ hprocess'
    rintro work p' ⟨⟩
    rfl
  · cases h
    apply hnone
    apply findFirst_submission _ hprocess'
    rintro work p' ⟨⟩
    rfl
  · cases h
    apply hnone
    apply findFirst_submission _ hprocess'
    rintro work p' ⟨⟩
    rfl
  · apply hnone
    split at h
    · cases h
      cases hprocess'
      rfl
    · split at h <;> cases h <;> cases hprocess' <;> rfl
  · cases h
    cases hprocess'
    exact hnone rfl

theorem proceed_submission
    {faults : List (Option Bytes)} (h : s.proceed p faults = some s') {p' : Process}
    (hprocess' : s'.process = some p') {c : Connection} {work : WorkRecord}
    (hsome : p'.handler.submission? = some (c, work)) :
  p.handler.submission? = some (c, work)
  := by
  cases hphase : p.handler with
  | submitWriting c work =>
      simp only [System.proceed, hphase] at h
      cases h
      cases hprocess'
      exact hsome
  | submitRenaming c work =>
      simp only [System.proceed, hphase, Option.map_eq_some_iff] at h
      obtain ⟨files, -, rfl⟩ := h
      cases hprocess'
      exact hsome
  | submitStoring c work =>
      simp only [System.proceed, hphase] at h
      split at h <;> cases h <;> cases hprocess' <;> cases hsome
  | resultFound c work =>
      simp only [System.proceed, hphase] at h
      split at h <;> cases h <;> cases hprocess' <;> cases hsome
  | acknowledgeFound c work =>
      simp only [System.proceed, hphase] at h
      split at h
      · cases h
        cases hprocess'
        cases hsome
      · split at h <;> cases h <;> cases hprocess' <;> cases hsome
  | _ =>
      simp only [System.proceed, hphase] at h
      cases h
      try cases hprocess'
      try cases hsome

theorem handlerStep_submission
    {input : System.HandlerInput} (h : s.handlerStep cfg p input = some s') {p' : Process}
    (hprocess : s.process = some p) (hprocess' : s'.process = some p') :
  NewSubmission cfg p (.handler input) p'
  := by
  cases input with
  | request c nowMs draws faults =>
      simp only [System.handlerStep] at h
      split at h
      · split_ifs at h
        exact handle_submission h hprocess'
      · cases h
  | write count =>
      simp only [System.handlerStep] at h
      split at h <;> cases h
      cases hprocess.symm.trans hprocess'
      intro c work hsome
      exact Or.inl hsome
  | proceed faults =>
      intro c work hsome
      exact Or.inl (proceed_submission h hprocess' hsome)
  | throw text =>
      simp only [System.handlerStep] at h
      split at h <;> cases h <;> cases hprocess' <;> intro c work hsome <;> cases hsome

theorem step_submission
    (h : s.step cfg e = some s') {p' : Process} (hprocess' : s'.process = some p')
    {c : Connection} {work : WorkRecord} (hsome : p'.handler.submission? = some (c, work)) :
  (∃ p, s.process = some p ∧ p.handler.submission? = some (c, work)) ∨ Makes cfg e c work
  := by
  cases hprocess : s.process with
  | none =>
      cases e with
      | start nowMs faults =>
          simp only [System.step, hprocess, Option.some.injEq] at h
          subst h
          rw [System.startStep] at hprocess'
          split at hprocess' <;> cases hprocess'
          cases hsome
      | _ =>
          simp only [System.step, hprocess] at h
          cases h
  | some p =>
      cases e with
      | handler input =>
          simp only [System.step, hprocess] at h
          rcases handlerStep_submission h hprocess hprocess' c work hsome with hold | hnew
          · exact Or.inl ⟨p, rfl, hold⟩
          · exact Or.inr hnew
      | start nowMs faults =>
          simp only [System.step, hprocess] at h
          cases h
      | crash =>
          simp only [System.step, hprocess] at h
          cases h
          cases hprocess'
      | stop =>
          simp only [System.step, hprocess] at h
          cases h
          cases hprocess'
          exact Or.inl ⟨p, rfl, hsome⟩
      | scheduler input =>
          simp only [System.step, hprocess] at h
          refine Or.inl ⟨p, rfl, ?_⟩
          cases System.schedulerStep_move h <;> cases hprocess' <;> exact hsome
      | task i input =>
          simp only [System.step, hprocess, System.attemptStep] at h
          split at h
          · cases h
          · obtain ⟨step, -, rfl⟩ := Option.map_eq_some_iff.mp h
            cases hprocess'
            refine Or.inl ⟨p, rfl, ?_⟩
            cases hnext : step.next <;> rw [hnext] at hsome <;> exact hsome

variable {c c' : Machine.Clocked System Int}

/-- The creation times of the rows, of the record that is to be stored and the last reading come in
the order of the `SUBMIT`s. -/
structure Dated (c : Machine.Clocked System Int) : Prop where
  created : ∀ a b wa wb, [a, b].Sublist c.state.store.ids → c.state.store.row? a = some wa →
    c.state.store.row? b = some wb → wa.createdAtMs.toInt ≤ wb.createdAtMs.toInt
  latest : ∀ a wa, c.state.store.row? a = some wa → wa.createdAtMs.toInt ≤ c.clock
  pending : ∀ p d work, c.state.process = some p → p.handler.submission? = some (d, work) →
    work.createdAtMs.toInt ≤ c.clock
      ∧ ∀ a wa, c.state.store.row? a = some wa → wa.createdAtMs.toInt ≤ work.createdAtMs.toInt

/-- The columns of a row that decide the order. -/
theorem order_of_constants
    {w w' : Row} (h : (readWork w').constants = (readWork w).constants) :
  w'.createdAtMs = w.createdAtMs ∧ w'.urgency = w.urgency ∧ w'.eligibleAtMs = w.eligibleAtMs
  := by
  have hcreated := congrArg Work.createdAtMs h
  have hurgency := congrArg Work.urgency h
  have heligible := congrArg Work.eligibleAtMs h
  exact ⟨hcreated, hurgency, heligible⟩

/-- Two places of a list that has grown by one. -/
theorem sublist_concat
    {α : Type} {l : List α} {a b x : α} (h : [a, b].Sublist (l ++ [x])) :
  [a, b].Sublist l ∨ a ∈ l ∧ b = x
  := by
  rw [← List.reverse_sublist] at h
  simp only [List.reverse_append, List.reverse_cons, List.reverse_nil, List.nil_append,
    List.cons_append] at h
  cases h with
  | cons _ h =>
      left
      rw [← List.reverse_sublist]
      simpa using h
  | cons_cons _ h =>
      right
      have hmem := h.subset List.mem_cons_self
      exact ⟨by simpa using hmem, rfl⟩

/-- A row after a step: it was there, with the same constants, or it is the row of the `SUBMIT` that
the handler was about to store. -/
theorem row_after
    (hreach : (machine cfg).Reachable s) (hstep : s.step cfg e = some s') {a : CString} {w : Row}
    (hrow : s'.store.row? a = some w) :
  (∃ w₀, s.store.row? a = some w₀ ∧ (readWork w).constants = (readWork w₀).constants)
    ∨ s.store.row? a = none ∧ ∃ p d work, s.process = some p
      ∧ p.handler.submission? = some (d, work) ∧ w = submittedRow work
  := by
  cases hrow₀ : s.store.row? a with
  | some w₀ =>
      obtain ⟨w₁, hrow₁, hkept⟩ := (reachable_step hreach hstep).kept hrow₀
      cases hrow.symm.trans hrow₁
      exact Or.inl ⟨w₀, rfl, hkept.constants⟩
  | none =>
      right
      rcases (System.step_move hstep).submitted with
        ⟨-, hnone⟩ | ⟨request, work, ⟨p, d, hprocess, hphase, -⟩, -, hrows⟩
      · rw [hnone a hrow₀] at hrow
        cases hrow
      · rw [hrows] at hrow
        split_ifs at hrow with hid
        · cases hrow
          exact ⟨rfl, p, d, work, hprocess, by rw [hphase]; rfl, rfl⟩
        · rw [hrow₀] at hrow
          cases hrow

theorem mem_ids_of_row? {store : Store} {a : CString} {w : Row} (h : store.row? a = some w) :
  a ∈ store.ids
  := by
  rw [← Store.id_of_row? h]
  exact List.mem_map_of_mem (Store.mem_works_of_row? h)

/-- The order of the rows before a step. -/
theorem sublist_before
    (hstep : s.step cfg e = some s') {a b : CString} (h : [a, b].Sublist s'.store.ids) :
  a ∈ s.store.ids ∧ (b ∈ s.store.ids → [a, b].Sublist s.store.ids)
  := by
  rcases step_order hstep with ⟨hids, -⟩ | ⟨p, d, work, -, -, hworks, -⟩
  · rw [hids] at h
    exact ⟨h.subset List.mem_cons_self, fun _ => h⟩
  · have hids : s'.store.ids = s.store.ids ++ [bindText work.id] := by
      rw [Store.ids, hworks, List.map_append]
      rfl
    have hnodup : s'.store.ids.Nodup := s'.store.works_key
    rw [hids] at h hnodup
    rcases sublist_concat h with hsub | ⟨hmem, rfl⟩
    · exact ⟨hsub.subset List.mem_cons_self, fun _ => hsub⟩
    · refine ⟨hmem, ?_⟩
      intro hb
      rw [List.nodup_append] at hnodup
      exact absurd rfl (hnodup.2.2 _ hb _ (List.mem_singleton_self _))

theorem Dated.step
    (hreach : (machine cfg).Reachable c.state) (h : Dated c)
    (hstep : (dated cfg).step c e = some c') :
  Dated c'
  := by
  obtain ⟨hsystem, hclock, hreading⟩ := Machine.clocked_step hstep
  have hlatest : ∀ a wa, c'.state.store.row? a = some wa → wa.createdAtMs.toInt ≤ c.clock := by
    intro a wa hrow
    rcases row_after hreach hsystem hrow with
      ⟨w₀, hrow₀, hconstants⟩ | ⟨-, p, d, work, hprocess, hsubmission, rfl⟩
    · rw [(order_of_constants hconstants).1]
      exact h.latest a w₀ hrow₀
    · exact (h.pending p d work hprocess hsubmission).1
  constructor
  · intro a b wa wb hab hwa hwb
    obtain ⟨hmem, hsub⟩ := sublist_before hsystem hab
    rcases row_after hreach hsystem hwa with ⟨va, hva, hconstants⟩ | ⟨hnone, -⟩
    · rw [(order_of_constants hconstants).1]
      rcases row_after hreach hsystem hwb with
        ⟨vb, hvb, hconstants'⟩ | ⟨-, p, d, work, hprocess, hsubmission, rfl⟩
      · rw [(order_of_constants hconstants').1]
        exact h.created a b va vb (hsub (mem_ids_of_row? hvb)) hva hvb
      · exact (h.pending p d work hprocess hsubmission).2 a va hva
    · exact absurd hmem ((c.state.store.row?_eq_none_iff a).mp hnone)
  · intro a wa hrow
    exact (hlatest a wa hrow).trans hclock
  · intro p' d work hprocess' hsubmission'
    rcases step_submission hsystem hprocess' hsubmission' with
      ⟨p, hprocess, hsubmission⟩ | ⟨nowMs, draws, hnew, hrecord⟩
    · obtain ⟨hle, hrows⟩ := h.pending p d work hprocess hsubmission
      refine ⟨hle.trans hclock, ?_⟩
      intro a wa hrow
      rcases row_after hreach hsystem hrow with
        ⟨w₀, hrow₀, hconstants⟩ | ⟨-, p₁, d₁, work₁, hprocess₁, hsubmission₁, rfl⟩
      · rw [(order_of_constants hconstants).1]
        exact hrows a w₀ hrow₀
      · cases hprocess.symm.trans hprocess₁
        cases hsubmission.symm.trans hsubmission₁
        exact le_rfl
    · have hnow := hreading _ hnew
      rw [← (submitRecord_times hrecord).2.2.2.2] at hnow
      refine ⟨hnow.ge, ?_⟩
      intro a wa hrow
      have hle := hlatest a wa hrow
      omega

theorem dated_created (h : (dated cfg).Reachable c) :
  Dated c
  := by
  apply h.invariant
  · rintro c ⟨hstore, hprocess, -⟩
    constructor
    · intro a b wa wb _ hwa
      rw [hstore] at hwa
      cases hwa
    · intro a wa hrow
      rw [hstore] at hrow
      cases hrow
    · intro p d work hsome
      rw [hprocess] at hsome
      cases hsome
  · intro c e c' hreach hdated hstep
    exact hdated.step (Machine.clocked_reachable hreach) hstep

/-! ### Works without an attempt -/

/-- A Work is not waiting for its first attempt. -/
def Tried (store : Store) (id : CString) : Prop :=
  store.attemptsOf id ≠ [] ∨ ∃ w, store.row? id = some w ∧ w.state.terminal = true

/-- What the actions do to the attempts: they keep them, end one or add one. -/
theorem attempts_eq_nil
    {a : WorkAction} {w w' : Row} {attempts attempts' : List Attempt}
    (h : WorkAction.Retimed w attempts a w' attempts') (hnil : attempts' = []) :
  attempts = [] ∧ w'.nextAttemptAtMs = w.nextAttemptAtMs ∨ w.state = .running ∧ attempts = []
  := by
  cases h with
  | same hnext hcount hqueued hrunning => exact Or.inl ⟨hnil, hnext⟩
  | started hstart => simp at hnil
  | finished hnext hcount hstate => exact Or.inl ⟨List.map_eq_nil_iff.mp hnil, hnext⟩
  | failed hrunning _ => exact Or.inr ⟨hrunning, List.map_eq_nil_iff.mp hnil⟩

/-- The handler is about to store a record that `submit` has made. -/
theorem reachable_submission
    (h : (machine cfg).Reachable s) {p : Process} {d : Connection} {work : WorkRecord}
    (hprocess : s.process = some p) (hsubmission : p.handler.submission? = some (d, work)) :
  ∃ nowMs draws, submitRecord cfg.dataDir d.request nowMs draws = .ok work
  := by
  refine Machine.Reachable.invariant
    (P := fun s => ∀ p d work, s.process = some p → p.handler.submission? = some (d, work) →
      ∃ nowMs draws, submitRecord cfg.dataDir d.request nowMs draws = .ok work)
    ?_ ?_ h p d work hprocess hsubmission
  · rintro s ⟨-, hprocess, -⟩ p d work hsome
    rw [hprocess] at hsome
    cases hsome
  · intro s e s' _ hmade hstep p' d work hprocess' hsubmission'
    rcases step_submission hstep hprocess' hsubmission' with
      ⟨p, hprocess, hsubmission⟩ | ⟨nowMs, draws, -, hrecord⟩
    · exact hmade p d work hprocess hsubmission
    · exact ⟨nowMs, draws, hrecord⟩

/-- A running Work has an attempt. -/
theorem untried_not_running
    (h : (machine cfg).Reachable s) {id : CString} {w : Row} (hrow : s.store.row? id = some w)
    (hnil : s.store.attemptsOf id = []) :
  w.state ≠ .running
  := by
  intro hrunning
  obtain ⟨earlier, last, hlast, -⟩ := (reachable_account h hrow).running hrunning
  rw [hnil] at hlast
  simp at hlast

/-- Without an attempt the time of the next attempt is the eligible time. -/
theorem reachable_untried
    (h : (machine cfg).Reachable s) {id : CString} {w : Row} (hrow : s.store.row? id = some w)
    (hnil : s.store.attemptsOf id = []) :
  w.nextAttemptAtMs = w.eligibleAtMs
  := by
  refine Machine.Reachable.invariant
    (P := fun s => ∀ id w, s.store.row? id = some w → s.store.attemptsOf id = [] →
      w.nextAttemptAtMs = w.eligibleAtMs) ?_ ?_ h id w hrow hnil
  · rintro s ⟨hstore, -⟩ id w hrow
    rw [hstore] at hrow
    cases hrow
  · intro s e s' hreach huntried hstep id w hrow' hnil'
    rcases row_after hreach hstep hrow' with
      ⟨w₀, hrow, -⟩ | ⟨-, p, d, work, hprocess, hsubmission, rfl⟩
    · rcases System.step_timely hstep hrow with hview | ⟨a, hview, -⟩
      · have hattempts := congrArg WorkView.attempts hview
        cases hrow.symm.trans ((congrArg WorkView.row? hview).symm.trans hrow')
        exact huntried id w hrow (hattempts.symm.trans hnil')
      · obtain ⟨w₁, hrow₁, hretimed⟩ := a.apply_retimed (v := s.store.view id) hrow
        obtain ⟨w₂, hrow₂, hkept⟩ := a.apply_kept (v := s.store.view id) hrow
        cases hrow₁.symm.trans hrow₂
        cases hrow'.symm.trans ((congrArg WorkView.row? hview).trans hrow₁)
        have hattempts := congrArg WorkView.attempts hview
        rcases attempts_eq_nil hretimed (hattempts.symm.trans hnil') with
          ⟨hnil, hnext⟩ | ⟨hrunning, hnil⟩
        · rw [hnext, (order_of_constants hkept.constants).2.2]
          exact huntried id w₀ hrow hnil
        · exact absurd hrunning (untried_not_running hreach hrow hnil)
    · obtain ⟨nowMs, draws, hrecord⟩ := reachable_submission hreach hprocess hsubmission
      exact (submitRecord_times hrecord).2.2.1

/-- A Work that is not waiting for its first attempt does not wait for it later. -/
theorem Tried.step
    (hreach : (machine cfg).Reachable s) (hstep : s.step cfg e = some s') {id : CString} {w : Row}
    (hrow : s.store.row? id = some w) (h : Tried s.store id) :
  Tried s'.store id
  := by
  rcases h with hne | ⟨w₀, hrow₀, hterminal⟩
  · left
    intro hnil'
    rcases System.step_timely hstep hrow with hview | ⟨a, hview, -⟩
    · exact hne ((congrArg WorkView.attempts hview).symm.trans hnil')
    · obtain ⟨w₁, hrow₁, hretimed⟩ := a.apply_retimed (v := s.store.view id) hrow
      have hattempts := congrArg WorkView.attempts hview
      rcases attempts_eq_nil hretimed (hattempts.symm.trans hnil') with ⟨hnil, -⟩ | ⟨-, hnil⟩
      · exact hne hnil
      · exact hne hnil
  · right
    obtain ⟨w', hrow', hfollows⟩ := (reachable_step hreach hstep).follows hrow₀
    refine ⟨w', hrow', ?_⟩
    rcases hfollows.finished hterminal with rfl | ⟨-, -, rfl⟩
    · exact hterminal
    · exact hterminal

/-- A Work that waits for its first attempt is eligible from its eligible time on. -/
theorem eligible_of_untried
    (hreach : (machine cfg).Reachable s) {id : CString} {w : Row} (hrow : s.store.row? id = some w)
    (h : ¬Tried s.store id) {nowMs : Int64} (hle : w.eligibleAtMs ≤ nowMs) :
  eligible nowMs w = true
  := by
  have hnil : s.store.attemptsOf id = [] := by
    by_contra hne
    exact h (Or.inl hne)
  have hqueued : w.state = .queued := by
    cases hstate : w.state with
    | queued => rfl
    | running => exact absurd hstate (untried_not_running hreach hrow hnil)
    | _ => exact absurd (Or.inr ⟨w, hrow, by rw [hstate]; rfl⟩) h
  have hcancel := ((reachable_account hreach hrow).queued hqueued).2
  simp [eligible, hqueued, hcancel, hle, reachable_untried hreach hrow hnil]

/-! ### The Work that the scheduler holds -/

/-- Of the Works that were submitted before a Work, those that are at least as urgent and eligible
as early are not waiting for their first attempt. -/
def Passes (s : System) (b : CString) : Prop :=
  ∀ a wa wb, [a, b].Sublist s.store.ids → s.store.row? a = some wa → s.store.row? b = some wb →
    urgencyRank wa.urgency ≤ urgencyRank wb.urgency → wa.eligibleAtMs ≤ wb.eligibleAtMs →
    Tried s.store a

theorem Passes.step
    (hreach : (machine cfg).Reachable s) (hstep : s.step cfg e = some s') {b : CString}
    (hmem : b ∈ s.store.ids) (h : Passes s b) :
  Passes s' b
  := by
  intro a wa wb hab hwa hwb hurgency heligible
  obtain ⟨ha, hsub⟩ := sublist_before hstep hab
  rcases row_after hreach hstep hwa with ⟨va, hva, hconstants⟩ | ⟨hnone, -⟩
  · rcases row_after hreach hstep hwb with ⟨vb, hvb, hconstants'⟩ | ⟨hnone, -⟩
    · obtain ⟨-, hurgency₁, heligible₁⟩ := order_of_constants hconstants
      obtain ⟨-, hurgency₂, heligible₂⟩ := order_of_constants hconstants'
      rw [hurgency₁, hurgency₂] at hurgency
      rw [heligible₁, heligible₂] at heligible
      exact (h a va vb (hsub hmem) hva hvb hurgency heligible).step hreach hstep hva
    · exact absurd hmem ((s.store.row?_eq_none_iff b).mp hnone)
  · exact absurd ha ((s.store.row?_eq_none_iff a).mp hnone)

/-- The Work that the scheduler picks is the first of the eligible ones. -/
theorem picking_earliest
    {input : SchedulerInput} {schedulerNow : Int64} (hphase : p.scheduler = .picking schedulerNow)
    (h : s.schedulerStep cfg p input = some s') {p' : Process} (hprocess' : s'.process = some p')
    {work : WorkRecord} (hwork : p'.scheduler.candidate? = some work) :
  ∃ row, earliest (s.store.works.filter (eligible schedulerNow)) = some row ∧ work = readWork row
  := by
  simp only [System.schedulerStep, hphase] at h
  cases h
  obtain ⟨found, store, heval, rfl, -⟩ :=
    schedulerCall_process (nextEligible_atomic schedulerNow) hprocess'
  rw [nextEligible, Session.eval_query] at heval
  cases hearliest : earliest (s.store.works.filter (eligible schedulerNow)) with
  | none =>
      rw [hearliest] at heval
      cases heval
      cases hwork
  | some row =>
      rw [hearliest] at heval
      cases heval
      cases hwork
      exact ⟨row, rfl, rfl⟩

/-- No Work that waits for its first attempt comes before the first of the eligible ones. -/
theorem earliest_passes
    (hreach : (dated cfg).Reachable c) {nowMs : Int64} {row : Row}
    (h : earliest (c.state.store.works.filter (eligible nowMs)) = some row) :
  Passes c.state row.id
  := by
  intro a wa wb hab hwa hwb hurgency heligible
  obtain ⟨hmem, hpicked⟩ := List.mem_filter.mp (System.earliest_mem h)
  cases hwb.symm.trans (Store.row?_of_mem hmem)
  by_contra huntried
  have hnow : wa.eligibleAtMs ≤ nowMs := by
    simp only [eligible, Bool.and_eq_true, decide_eq_true_eq] at hpicked
    rw [Int64.le_iff_toInt_le] at heligible ⊢
    exact heligible.trans (Int64.le_iff_toInt_le.mp hpicked.1.2)
  have hfirst := earliest_eligible h hab hwa hwb
    (eligible_of_untried (Machine.clocked_reachable hreach) hwa huntried hnow)
  have hcreated := (dated_created hreach).created a _ wa row hab hwa hwb
  simp only [comesBefore, Bool.or_eq_true, Bool.and_eq_true, decide_eq_true_eq,
    Int64.lt_iff_toInt_lt] at hfirst
  omega

/-- What the scheduler is about to dispatch passes no Work that is to be dispatched before. -/
def Ranked (s : System) : Prop :=
  ∀ p work, s.process = some p → p.scheduler.candidate? = some work → Passes s (bindText work.id)

theorem Ranked.step
    (hreach : (dated cfg).Reachable c) (h : Ranked c.state)
    (hstep : (dated cfg).step c e = some c') :
  Ranked c'.state
  := by
  have hsystem := (Machine.clocked_step hstep).1
  have hstep₀ := hsystem
  have hreach' := Machine.clocked_reachable hreach
  have hold : ∀ p work, c.state.process = some p → p.scheduler.candidate? = some work →
      Passes c'.state (bindText work.id) := by
    intro p work hprocess hwork
    obtain ⟨w, hrow, -⟩ := reachable_holds hreach' hprocess
      (Process.mem_records_of_scheduler (SchedulerPhase.work?_of_candidate? hwork))
    exact (h p work hprocess hwork).step hreach' hsystem (mem_ids_of_row? hrow)
  intro p' work hprocess' hwork
  by_cases he : ∃ input, e = .scheduler input
  · obtain ⟨input, rfl⟩ := he
    cases hprocess : c.state.process with
    | none =>
        simp only [machine, System.step, hprocess] at hsystem
        cases hsystem
    | some p =>
        simp only [machine, System.step, hprocess] at hsystem
        obtain ⟨-, hcases⟩ := (schedulerStep_comes hsystem hprocess').2 work hwork
        rcases hcases with hheld | ⟨nowMs, -, hpicking, -⟩
        · exact hold p work hprocess hheld
        · obtain ⟨row, hearliest, rfl⟩ := picking_earliest hpicking hsystem hprocess' hwork
          rw [bindText_readWork_id]
          have hmem := (List.mem_filter.mp (System.earliest_mem hearliest)).1
          apply (earliest_passes hreach hearliest).step hreach' hstep₀
          exact List.mem_map_of_mem hmem
  · rcases step_scheduler hsystem (fun input heq => he ⟨input, heq⟩) hprocess' with
      hsweeping | ⟨p, hprocess, hsame⟩
    · rw [hsweeping] at hwork
      cases hwork
    · rw [hsame] at hwork
      exact hold p work hprocess hwork

theorem dated_ranked (h : (dated cfg).Reachable c) :
  Ranked c.state
  := by
  apply h.invariant
  · rintro c ⟨-, hprocess, -⟩ p work hsome
    rw [hprocess] at hsome
    cases hsome
  · intro c e c' hreach hranked hstep
    exact hranked.step hreach hstep

/-- The action that adds the first attempt. -/
theorem start_of_first
    {a : WorkAction} {w w' : Row} {attempts attempts' : List Attempt}
    (h : WorkAction.Retimed w attempts a w' attempts') (hnil : attempts = [])
    (hne : attempts' ≠ []) :
  ∃ engineId modelId startedAtMs, a = .start engineId modelId startedAtMs
  := by
  subst hnil
  cases h with
  | same => exact absurd rfl hne
  | started hstart => exact ⟨_, _, _, rfl⟩
  | finished => exact absurd rfl hne
  | failed => exact absurd rfl hne

/-- A step that adds the first attempt of a Work starts it. -/
theorem starts_of_attempt
    (hstep : s.step cfg e = some s') {id : CString} {w : Row} (hrow : s.store.row? id = some w)
    (hnil : s.store.attemptsOf id = []) (hne : s'.store.attemptsOf id ≠ []) :
  ∃ startedAtMs, s.Starts e id startedAtMs
  := by
  rcases System.step_timely hstep hrow with hview | ⟨a, hview, ha⟩
  · exact absurd ((congrArg WorkView.attempts hview).trans hnil) hne
  · obtain ⟨w', -, hretimed⟩ := a.apply_retimed (v := s.store.view id) hrow
    have hattempts := congrArg WorkView.attempts hview
    obtain ⟨engineId, modelId, startedAtMs, rfl⟩ :=
      start_of_first hretimed hnil (fun heq => hne (hattempts.trans heq))
    exact ⟨startedAtMs, ha⟩

/-- In every run whose `SUBMIT`s read a clock that does not go back: when the first attempt of a
Work begins, each Work that was submitted before it, is at least as urgent and is eligible as early
has an attempt or is terminal. -/
theorem urgency_order
    (hreach : (dated cfg).Reachable c) (hstep : (dated cfg).step c e = some c') {a b : CString}
    {wa wb : Row} (hab : [a, b].Sublist (c.state.history.submitted.map (·.1)))
    (hwa : c.state.store.row? a = some wa) (hwb : c.state.store.row? b = some wb)
    (hurgency : urgencyRank wa.urgency ≤ urgencyRank wb.urgency)
    (heligible : wa.eligibleAtMs ≤ wb.eligibleAtMs) (hfirst : c.state.store.attemptsOf b = [])
    (hbegins : c'.state.store.attemptsOf b ≠ []) :
  c.state.store.attemptsOf a ≠ [] ∨ wa.state.terminal = true
  := by
  have hsystem := (Machine.clocked_step hstep).1
  obtain ⟨startedAtMs, p, work, selection, input, hprocess, rfl, hphase, rfl, -⟩ :=
    starts_of_attempt hsystem hwb hfirst hbegins
  have hcandidate : p.scheduler.candidate? = some work := by
    rw [hphase]
    rfl
  rw [← reachable_order (Machine.clocked_reachable hreach)] at hab
  rcases dated_ranked hreach p work hprocess hcandidate a wa wb hab hwa hwb hurgency heligible with
    htried | ⟨w, hrow, hterminal⟩
  · exact Or.inl htried
  · cases hwa.symm.trans hrow
    exact Or.inr hterminal

namespace Sample

/-- The id of the second Work. -/
def secondId : Bytes := makeWorkId (0, 1)

/-- Two Works are accepted at 0; the first one is dispatched and succeeds, and the scheduler is about
to start the second one. -/
def following : List System.Event :=
  submitting (frame .submit fields "in")
    ++ .handler (.request (connection (frame .submit fields "in")) 0 (0, 1) [])
      :: List.replicate 3 (.handler (.proceed []))
    ++ dispatching ++ committing (Bytes.ofString "out") ++ .task 0 (.proceed 0 [])
      :: List.replicate 3 (.scheduler ⟨0, [], .ok ()⟩)

/-- The second Work is submitted after the first one and has no attempt. -/
def follows (c : Machine.Clocked System Int) : Bool :=
  c.state.history.submitted.map (·.1) = [bindText workId, bindText secondId]
    && (c.state.store.row? (bindText workId)).any (fun w => w.urgency = .normal && w.eligibleAtMs = 0)
    && (c.state.store.row? (bindText secondId)).any (fun w =>
      w.urgency = .normal && w.eligibleAtMs = 0)
    && (c.state.store.attemptsOf (bindText secondId)).isEmpty
    && ((dated config).step c (.scheduler ⟨0, [], .ok ()⟩)).any fun c' =>
      !(c'.state.store.attemptsOf (bindText secondId)).isEmpty

end Sample

theorem urgency_order_second :
  ∃ c e c' wa, (dated Sample.config).Reachable c ∧ (dated Sample.config).step c e = some c'
    ∧ c.state.store.attemptsOf (bindText Sample.secondId) = []
    ∧ c'.state.store.attemptsOf (bindText Sample.secondId) ≠ []
    ∧ c.state.store.row? (bindText Sample.workId) = some wa
    ∧ (c.state.store.attemptsOf (bindText Sample.workId) ≠ [] ∨ wa.state.terminal = true)
  := by
  have hcheck : ((dated Sample.config).run ⟨Sample.start, 0⟩ Sample.following).any Sample.follows
      = true := by
    decide +kernel
  obtain ⟨c, hrun, hc⟩ := (Option.any_eq_true _ _).mp hcheck
  have hreach : (dated Sample.config).Reachable c := ⟨_, _, ⟨rfl, rfl, rfl⟩, hrun⟩
  simp only [Sample.follows, Bool.and_eq_true, decide_eq_true_eq, Option.any_eq_true,
    List.isEmpty_iff, Bool.not_eq_true', List.isEmpty_eq_false_iff] at hc
  obtain ⟨⟨⟨⟨horder, wa, hwa, hurgency, heligible⟩, wb, hwb, hurgency', heligible'⟩, hfirst⟩, c',
    hstep, hbegins⟩ := hc
  refine ⟨c, _, c', wa, hreach, hstep, hfirst, hbegins, hwa, ?_⟩
  apply urgency_order hreach hstep (by rw [horder]) hwa hwb _ _ hfirst hbegins
  · rw [hurgency, hurgency']
  · rw [heligible, heligible']
    decide

end Kernel
