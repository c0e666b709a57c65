import MadreKernel.Kernel.Records
import MadreKernel.Store.Timing

/-!
# The Kernel and its clock

The readings of the clock that the scheduler makes do not decrease; those of the other threads
are arbitrary.  A `Timed` system remembers the last reading of the scheduler, and refuses a step
of the scheduler that reads less.

`System.step_timely` says what a step does to one Work together with the times it is done at: an
attempt is started at a reading of the scheduler that is before the deadline, and an attempt is
recorded as failed at a reading of the thread that records it.
-/

namespace Kernel

open WorkStore

/-- The reading of the clock that the scheduler makes at its step. -/
def Process.reading (p : Process) (input : SchedulerInput) : Option Int64 :=
  match p.scheduler with
  | .sweeping => if p.stop then none else some input.nowMs
  | .reserved _ _ => some input.nowMs
  | .launching _ _ _ _ =>
      match input.launch with
      | .error _ => some input.nowMs
      | .ok () => none
  | _ => none

/-- The reading of the scheduler at a step of the system. -/
def System.reading (s : System) : Event → Option Int64
  | .scheduler input => s.process.bind fun p => p.reading input
  | _ => none

/-- The system, and the last reading of its scheduler. -/
structure Timed where
  system : System
  clock : Int64

namespace Timed

def step (cfg : Config) (t : Timed) (e : System.Event) : Option Timed :=
  match t.system.reading e with
  | none => (t.system.step cfg e).map fun system => ⟨system, t.clock⟩
  | some nowMs =>
      if t.clock ≤ nowMs then (t.system.step cfg e).map fun system => ⟨system, nowMs⟩ else none

end Timed

/-- The system with a clock, as a state machine. -/
def timed (cfg : Config) : Machine Timed System.Event where
  init t := t.system.Initial
  step := Timed.step cfg

variable {cfg : Config} {s s' : System} {t t' : Timed} {p : Process} {e : System.Event}

theorem Timed.step_eq_some (h : t.step cfg e = some t') :
  t.system.step cfg e = some t'.system ∧ t.clock.toInt ≤ t'.clock.toInt
    ∧ ∀ nowMs, t.system.reading e = some nowMs → t'.clock = nowMs
  := by
  rw [step] at h
  split at h
  next hreading =>
    obtain ⟨system, hstep, rfl⟩ := Option.map_eq_some_iff.mp h
    refine ⟨hstep, le_rfl, ?_⟩
    intro nowMs hsome
    rw [hreading] at hsome
    cases hsome
  next now hreading =>
    split_ifs at h with hle
    obtain ⟨system, hstep, rfl⟩ := Option.map_eq_some_iff.mp h
    refine ⟨hstep, Int64.le_iff_toInt_le.mp hle, ?_⟩
    intro nowMs hsome
    rw [hreading] at hsome
    exact Option.some.inj hsome

/-- The system of a reachable timed state is reachable. -/
theorem timed_reachable (h : (timed cfg).Reachable t) :
  (machine cfg).Reachable t.system
  := by
  apply h.invariant
  · intro t hinit
    exact ⟨t.system, [], hinit, rfl⟩
  · intro t e t' _ hreach hstep
    exact hreach.step (Timed.step_eq_some hstep).1

/-! ### Times of actions -/

/-- A step of a task records the attempt as failed, and no statement meets a fault. -/
def Task.fails (t : Task) (stop : Bool) (store : Store) (nowMs : Int64)
    (faults : List (Option Bytes)) : Bool :=
  match t.phase with
  | .settling (.failure attemptState text) =>
      (settle t nowMs (.failure attemptState text)).returns faults store
  | .handling text => !stop && (handleFailure t text nowMs).returns faults store
  | _ => false

/-- The Works whose attempts a step records as failed, timed out or interrupted, with the reading
of the clock.  A call of the store that a fault refuses records nothing. -/
def System.failures (s : System) (e : Event) : List (CString × Int64) :=
  match s.process, e with
  | none, .start nowMs faults =>
      if (recoverInterrupted nowMs).returns faults s.store then
        (s.store.works.filter (·.state = .running)).map fun w => (w.id, nowMs)
      else []
  | some p, .scheduler input =>
      match p.scheduler, input.launch with
      | .launching work _ attemptNumber _, .error text =>
          if (finishRetryableFailure work.id attemptNumber .failed
              (Bytes.ofString "WORKER_LAUNCH_FAILURE: " ++ text) input.nowMs).returns
              input.faults s.store then
            [(bindText work.id, input.nowMs)]
          else []
      | _, _ => []
  | some p, .task i (.proceed nowMs faults) =>
      match p.tasks[i]? with
      | some t =>
          if t.fails p.stop s.store nowMs faults then [(bindText t.work.id, nowMs)] else []
      | none => []
  | _, _ => []

/-- The scheduler starts the Work at a reading that is before its deadline. -/
def System.Starts (s : System) (e : Event) (id : CString) (startedAtMs : Int64) : Prop :=
  ∃ p work selection input, s.process = some p ∧ e = .scheduler input
    ∧ p.scheduler = .reserved work selection ∧ id = bindText work.id ∧ startedAtMs = input.nowMs
    ∧ deadlinePassed work input.nowMs = false

/-- An action with the times of the step that takes it. -/
def System.Timely (s : System) (e : Event) (id : CString) : WorkAction → Prop
  | .start _ _ startedAtMs => s.Starts e id startedAtMs
  | .failAttempt _ _ number endedAtMs =>
      (id, endedAtMs) ∈ s.failures e ∧ ∃ o ∈ s.owners, o.id = id ∧ o.number = number
  | .recover nowMs => s.process = none ∧ ∃ faults, e = .start nowMs faults
      ∧ (recoverInterrupted nowMs).returns faults s.store = true
  | .finish _ workState _ _ _ => workState = .succeeded ∨ workState = .cancelled
  | _ => True

/-- What a step does to a Work that has a row: nothing, or an action with its times. -/
def System.TakesTimely (s : System) (e : Event) (id : CString) (store : Store) : Prop :=
  store.view id = s.store.view id
    ∨ ∃ a : WorkAction, store.view id = a.apply (s.store.view id) ∧ s.Timely e id a

theorem System.takesTimely_of_actsAt
    {a : WorkAction} {j id : CString} {store : Store} (hacts : a.ActsAt j s.store store)
    (h : s.Timely e j a) :
  s.TakesTimely e id store
  := by
  by_cases hid : id = j
  · subst hid
    exact Or.inr ⟨a, (hacts id).trans (if_pos rfl), h⟩
  · exact Or.inl ((hacts id).trans (if_neg hid))

/-! ### Attempt tasks -/

/-- What a task records at its step, and when. -/
def Task.Records (t : Task) (stop : Bool) (store : Store) (nowMs : Int64)
    (faults : List (Option Bytes)) : WorkAction → Prop
  | .finish _ workState _ _ _ => workState = .succeeded ∨ workState = .cancelled
  | .failAttempt _ _ number endedAtMs =>
      number = t.attemptNumber ∧ endedAtMs = nowMs ∧ t.fails stop store nowMs faults = true
  | _ => False

/-- A task that is about to record an attempt without a result. -/
theorem settle_records
    {task : Task} {stop : Bool} {nowMs : Int64} {faults : List (Option Bytes)}
    {settlement : Settlement} {store store' : Store} (hphase : task.phase = .settling settlement)
    (hreturns : (settle task nowMs settlement).returns faults store = true)
    (h : (settle task nowMs settlement).eval store = (.ok (), store')) :
  ∃ a, task.Records stop store nowMs faults a ∧ a.ActsAt (bindText task.work.id) store store'
  := by
  cases settlement with
  | cancelled =>
      have hacts := finish_acts .cancelled .cancelled (sqlText "cancelled") task.work.id
        task.attemptNumber nowMs store
      rw [settle, finishCancelled] at h
      rw [h] at hacts
      exact ⟨.finish _ _ _ _ _, Or.inr rfl, hacts⟩
  | failure attemptState text =>
      obtain ⟨-, hacts⟩ := finishRetryableFailure_settles h
      refine ⟨.failAttempt _ _ _ _, ⟨rfl, rfl, ?_⟩, hacts⟩
      rw [Task.fails, hphase]
      exact hreturns

theorem taskStep_records_proceed
    {stop : Bool} {store : Store} {files : Files} {task : Task} {nowMs : Int64}
    {faults : List (Option Bytes)} {step : TaskStep}
    (h : taskStep stop store files task (.proceed nowMs faults) = some step) :
  step.store = store
    ∨ ∃ a, task.Records stop store nowMs faults a
      ∧ a.ActsAt (bindText task.work.id) store step.store
  := by
  cases hphase : task.phase with
  | settling settlement =>
      rcases taskStep_settling hphase h with ⟨e, rfl⟩ | ⟨hreturns, store', heval, rfl⟩
      · exact Or.inl rfl
      · exact Or.inr (settle_records hphase hreturns heval)
  | committing payload =>
      rcases taskStep_committing hphase h with ⟨e, rfl⟩ | ⟨store', hacts, rfl⟩
      · exact Or.inl rfl
      · exact Or.inr ⟨.finish _ _ _ _ _, Or.inl rfl, hacts⟩
  | handling text =>
      rcases taskStep_handling hphase h with rfl | ⟨hstop, hreturns, failure, store', hacts, rfl⟩
      · exact Or.inl rfl
      · refine Or.inr ⟨.failAttempt _ _ _ _, ⟨rfl, rfl, ?_⟩, hacts⟩
        rw [Task.fails, hphase, hstop]
        exact hreturns
  | starting =>
      left
      simp only [taskStep, hphase] at h
      split_ifs at h <;> cases h <;> rfl
  | executing content =>
      simp only [taskStep, hphase] at h
      cases h
  | checking payload =>
      rcases taskStep_checking hphase h with ⟨e, rfl⟩ | rfl
      · exact Or.inl rfl
      · exact Or.inl rfl
  | writing payload =>
      left
      simp only [taskStep, hphase] at h
      split_ifs at h <;> cases h <;> rfl
  | moving payload =>
      simp only [taskStep, hphase, Option.map_eq_some_iff] at h
      obtain ⟨files', hrename, rfl⟩ := h
      exact Or.inl rfl

theorem taskStep_records
    {stop : Bool} {store : Store} {files : Files} {task : Task} {input : TaskInput}
    {step : TaskStep} (h : taskStep stop store files task input = some step) :
  step.store = store
    ∨ ∃ nowMs faults a, input = .proceed nowMs faults ∧ task.Records stop store nowMs faults a
      ∧ a.ActsAt (bindText task.work.id) store step.store
  := by
  cases input with
  | proceed nowMs faults =>
      rcases taskStep_records_proceed h with hstore | ⟨a, ha, hacts⟩
      · exact Or.inl hstore
      · exact Or.inr ⟨nowMs, faults, a, rfl, ha, hacts⟩
  | outcome outcome =>
      left
      cases hphase : task.phase <;> simp only [taskStep, hphase] at h <;> cases h
      rfl
  | write count =>
      left
      cases hphase : task.phase <;> simp only [taskStep, hphase] at h <;> try cases h
      split_ifs at h
      cases h
      rfl
  | throw text =>
      left
      cases hphase : task.phase <;> simp only [taskStep, hphase] at h <;> cases h <;> rfl

theorem attemptStep_timely
    (hprocess : s.process = some p) {i : Nat} {input : TaskInput}
    (h : s.attemptStep p i input = some s') (id : CString) :
  s.TakesTimely (.task i input) id s'.store
  := by
  rw [System.attemptStep] at h
  cases ht : p.tasks[i]? with
  | none =>
      rw [ht] at h
      cases h
  | some task =>
      rw [ht] at h
      obtain ⟨step, hstep, rfl⟩ := Option.map_eq_some_iff.mp h
      rcases taskStep_records hstep with hstore | ⟨nowMs, faults, a, rfl, ha, hacts⟩
      · exact Or.inl (congrArg (Store.view · id) hstore)
      · apply System.takesTimely_of_actsAt hacts
        cases a with
        | finish => exact ha
        | failAttempt attemptState text number endedAtMs =>
            obtain ⟨rfl, rfl, hfails⟩ := ha
            constructor
            · simp only [System.failures, hprocess, ht, hfails, if_true, List.mem_singleton]
            · refine ⟨task.owner, ?_, rfl, rfl⟩
              rw [System.owners_eq hprocess, Process.owners]
              exact List.mem_append_left _ (List.mem_map_of_mem (List.mem_of_getElem? ht))
        | _ => cases ha

/-! ### The scheduler and the handler -/

/-- A store call of the scheduler, whatever it makes of the process. -/
theorem schedulerCall_timely
    {α : Type} {program : StoreProgram α} (hatomic : program.Atomic)
    {faults : List (Option Bytes)} {next : α → Process} {id : CString}
    (h : ∀ a store, program.returns faults s.store = true →
      program.eval s.store = (.ok a, store) → s.TakesTimely e id store) :
  s.TakesTimely e id (s.schedulerCall program faults next).store
  := by
  rcases hatomic.exec_cases faults s.store with ⟨text, hexec⟩ | ⟨a, store, hexec, heval⟩
  · rw [System.schedulerCall, hexec]
    exact Or.inl rfl
  · rw [System.schedulerCall, hexec]
    exact h a store (Session.returns_of_exec hexec) heval

theorem failQueued_timely
    (workId text : Bytes) (faults : List (Option Bytes)) (next : Unit → Process) (id : CString) :
  s.TakesTimely e id (s.schedulerCall (failQueued workId text) faults next).store
  := by
  apply schedulerCall_timely (failQueued_atomic workId text)
  intro _ store _ heval
  have hacts := failQueued_acts workId text s.store
  rw [heval] at hacts
  apply System.takesTimely_of_actsAt hacts trivial

theorem schedulerStep_reserved_timely
    (hprocess : s.process = some p) {input : SchedulerInput} {work : WorkRecord}
    {selection : Selection} (hphase : p.scheduler = .reserved work selection)
    (h : s.schedulerStep cfg p input = some s') (id : CString) :
  s.TakesTimely (.scheduler input) id s'.store
  := by
  simp only [System.schedulerStep, hphase] at h
  split_ifs at h with hdeadline
  · cases h
    apply failQueued_timely
  · cases h
    apply schedulerCall_timely (beginAttempt_atomic _ _ _ _)
    intro number store _ heval
    rcases beginAttempt_acts heval with ⟨-, rfl⟩ | ⟨w, -, -, -, hacts⟩
    · exact Or.inl rfl
    · apply System.takesTimely_of_actsAt hacts
      exact ⟨p, work, selection, input, hprocess, rfl, hphase, rfl, rfl, by simpa using hdeadline⟩

theorem schedulerStep_launching_timely
    (hprocess : s.process = some p) {input : SchedulerInput} {work : WorkRecord}
    {selection : Selection} {number : Int32} {startedAtMs : Int64}
    (hphase : p.scheduler = .launching work selection number startedAtMs)
    (h : s.schedulerStep cfg p input = some s') (id : CString) :
  s.TakesTimely (.scheduler input) id s'.store
  := by
  simp only [System.schedulerStep, hphase] at h
  cases hlaunch : input.launch with
  | ok u =>
      rw [hlaunch] at h
      cases h
      exact Or.inl rfl
  | error text =>
      rw [hlaunch] at h
      cases h
      apply schedulerCall_timely (finishRetryableFailure_atomic _ _ _ _ _)
      intro _ store hreturns heval
      apply System.takesTimely_of_actsAt (finishRetryableFailure_settles heval).2
      constructor
      · simp only [System.failures, hprocess, hphase, hlaunch, hreturns, if_true,
          List.mem_singleton]
      · refine ⟨⟨bindText work.id, number, false⟩, ?_, rfl, rfl⟩
        rw [System.owners_eq hprocess, Process.owners, hphase]
        exact List.mem_append_right _ List.mem_cons_self

theorem schedulerStep_timely
    (hprocess : s.process = some p) {input : SchedulerInput}
    (h : s.schedulerStep cfg p input = some s') (id : CString) :
  s.TakesTimely (.scheduler input) id s'.store
  := by
  cases hphase : p.scheduler with
  | sweeping =>
      simp only [System.schedulerStep, hphase] at h
      split_ifs at h
      · cases h
        exact Or.inl rfl
      · cases h
        apply schedulerCall_timely (expireQueuedDeadlines_atomic _)
        intro _ store _ heval
        have hacts := expireQueuedDeadlines_acts input.nowMs s.store
        rw [heval] at hacts
        exact Or.inr ⟨_, hacts id, trivial⟩
  | picking schedulerNow =>
      simp only [System.schedulerStep, hphase] at h
      cases h
      apply schedulerCall_timely (nextEligible_atomic schedulerNow)
      intro found store _ heval
      rw [nextEligible, Session.eval_query] at heval
      cases heval
      exact Or.inl rfl
  | dispatching schedulerNow work =>
      simp only [System.schedulerStep, hphase] at h
      split_ifs at h with hdeadline
      · cases h
        apply failQueued_timely
      · split at h
        · cases h
          apply failQueued_timely
        · split at h
          · cases h
            exact Or.inl rfl
          · cases h
            apply failQueued_timely
          · split at h <;> cases h <;> exact Or.inl rfl
  | reserved work selection => exact schedulerStep_reserved_timely hprocess hphase h id
  | launching work selection number startedAtMs =>
      exact schedulerStep_launching_timely hprocess hphase h id
  | left =>
      simp only [System.schedulerStep, hphase] at h
      cases h

theorem HandlerMove.timely
    (h : HandlerMove cfg s p s') {id : CString} {w : Row} (hrow : s.store.row? id = some w) :
  s.TakesTimely e id s'.store
  := by
  cases h with
  | accept hphase hnew hchecked hview =>
      left
      rw [System.reply]
      rw [hview, if_neg]
      rintro rfl
      rw [hnew] at hrow
      cases hrow
  | act ha hacts =>
      apply System.takesTimely_of_actsAt hacts
      rcases ha with rfl | rfl <;> trivial
  | acknowledge hphase hid hrow hstate hacts =>
      apply System.takesTimely_of_actsAt hacts trivial
  | _ => exact Or.inl rfl

/-- What a step does to a Work that has a row, with the times it is done at. -/
theorem System.step_timely
    (h : s.step cfg e = some s') {id : CString} {w : Row} (hrow : s.store.row? id = some w) :
  s.TakesTimely e id s'.store
  := by
  cases hprocess : s.process with
  | none =>
      cases e with
      | start nowMs faults =>
          simp only [step, hprocess, Option.some.injEq] at h
          subst h
          rw [startStep]
          rcases (recoverInterrupted_atomic nowMs).exec_cases faults s.store with
            ⟨text, hexec⟩ | ⟨⟨⟩, store, hexec, heval⟩
          · rw [hexec]
            exact Or.inl rfl
          · rw [hexec]
            have hacts := recoverInterrupted_acts nowMs s.store
            rw [heval] at hacts
            exact Or.inr ⟨_, hacts id, hprocess, faults, rfl, Session.returns_of_exec hexec⟩
      | _ =>
          simp only [step, hprocess] at h
          cases h
  | some p =>
      cases e with
      | start nowMs faults =>
          simp only [step, hprocess] at h
          cases h
      | crash =>
          simp only [step, hprocess] at h
          cases h
          exact Or.inl rfl
      | stop =>
          simp only [step, hprocess] at h
          cases h
          exact Or.inl rfl
      | scheduler input =>
          simp only [step, hprocess] at h
          exact schedulerStep_timely hprocess h id
      | task i input =>
          simp only [step, hprocess] at h
          exact attemptStep_timely hprocess h id
      | handler input =>
          simp only [step, hprocess] at h
          exact (handlerStep_move hprocess h).timely hrow

/-! ### The Work that is about to be dispatched -/

/-- The Work that the scheduler is about to dispatch. -/
def SchedulerPhase.candidate? : SchedulerPhase → Option WorkRecord
  | .dispatching _ work | .reserved work _ => some work
  | _ => none

theorem SchedulerPhase.work?_of_candidate?
    {scheduler : SchedulerPhase} {work : WorkRecord} (h : scheduler.candidate? = some work) :
  scheduler.work? = some work
  := by
  cases scheduler with
  | dispatching => exact h
  | reserved => exact h
  | _ => cases h

/-- A Work is not running, and while it is queued its times have come. -/
def Due (store : Store) (clock : Int64) (id : CString) : Prop :=
  ∀ w, store.row? id = some w → w.state ≠ .running ∧ (w.state = .queued →
    w.eligibleAtMs.toInt ≤ clock.toInt ∧ w.nextAttemptAtMs.toInt ≤ clock.toInt)

/-- The scheduler picks by its last reading, and what it is about to dispatch is due. -/
structure Timed.Punctual (t : Timed) : Prop where
  picking : ∀ p nowMs, t.system.process = some p → p.scheduler = .picking nowMs →
    nowMs.toInt ≤ t.clock.toInt
  due : ∀ p work, t.system.process = some p → p.scheduler.candidate? = some work →
    Due t.system.store t.clock (bindText work.id)

theorem Due.mono {store : Store} {clock clock' : Int64} {id : CString} (h : Due store clock id)
    (hle : clock.toInt ≤ clock'.toInt) :
  Due store clock' id
  := by
  intro w hrow
  obtain ⟨hstate, htimes⟩ := h w hrow
  refine ⟨hstate, ?_⟩
  intro hqueued
  obtain ⟨heligible, hnext⟩ := htimes hqueued
  omega

/-- The other threads leave a Work due. -/
theorem Due.step
    {clock : Int64} {id : CString} (h : Due s.store clock id) (hstep : s.step cfg e = some s')
    (he : ∀ input, e ≠ .scheduler input) {w : Row} (hrow : s.store.row? id = some w) :
  Due s'.store clock id
  := by
  obtain ⟨hstate, htimes⟩ := h w hrow
  rcases System.step_timely hstep hrow with hview | ⟨a, hview, ha⟩
  · intro w' hrow'
    have hsame : s.store.row? id = some w' := (congrArg WorkView.row? hview).symm.trans hrow'
    exact h w' hsame
  · obtain ⟨w', hrow', hretimed⟩ := a.apply_retimed (v := s.store.view id) hrow
    obtain ⟨w₁, hrow₁, hkept⟩ := a.apply_kept (v := s.store.view id) hrow
    cases hrow'.symm.trans hrow₁
    intro w₂ hrow₂
    cases (congrArg WorkView.row? hview).symm.trans hrow₂ |>.symm.trans hrow'
    have hstart : ∀ engineId modelId startedAtMs, a ≠ .start engineId modelId startedAtMs := by
      rintro engineId modelId startedAtMs rfl
      obtain ⟨p, work, selection, input, -, hevent, -⟩ := ha
      exact he input hevent
    obtain ⟨hstate', hwaits⟩ := hretimed.waits hstate hstart
    refine ⟨hstate', ?_⟩
    intro hqueued
    obtain ⟨hqueued, hnext⟩ := hwaits hqueued
    rw [hnext, (times_of_constants hkept.constants).2.2]
    exact htimes hqueued

/-- A store call of the scheduler that leaves a process. -/
theorem schedulerCall_process
    {α : Type} {program : StoreProgram α} (hatomic : program.Atomic)
    {faults : List (Option Bytes)} {next : α → Process} {p' : Process}
    (h : (s.schedulerCall program faults next).process = some p') :
  ∃ a store, program.eval s.store = (.ok a, store) ∧ p' = next a
    ∧ (s.schedulerCall program faults next).store = store
  := by
  rcases hatomic.exec_cases faults s.store with ⟨text, hexec⟩ | ⟨a, store, hexec, heval⟩
  · rw [System.schedulerCall, hexec] at h
    cases h
  · rw [System.schedulerCall, hexec] at h ⊢
    cases h
    exact ⟨a, store, heval, rfl, rfl⟩

/-- What the scheduler is about to pick or to dispatch after its step. -/
def SchedulerComes (s : System) (p : Process) (input : SchedulerInput) (s' : System)
    (p' : Process) : Prop :=
  (∀ nowMs, p'.scheduler = .picking nowMs → p.reading input = some nowMs)
    ∧ ∀ work, p'.scheduler.candidate? = some work → s'.store = s.store
      ∧ (p.scheduler.candidate? = some work
        ∨ ∃ nowMs row, p.scheduler = .picking nowMs ∧ s.store.row? row.id = some row
          ∧ eligible nowMs row = true ∧ work = readWork row)

theorem SchedulerComes.of_idle
    {input : SchedulerInput} {p' : Process} (hpicking : ∀ nowMs, p'.scheduler ≠ .picking nowMs)
    (hcandidate : p'.scheduler.candidate? = none) :
  SchedulerComes s p input s' p'
  := by
  refine ⟨fun nowMs h => absurd h (hpicking nowMs), ?_⟩
  intro work hwork
  rw [hcandidate] at hwork
  cases hwork

/-- After a step of the scheduler that goes back to the head of its loop. -/
theorem schedulerCall_sweeps
    {α : Type} {program : StoreProgram α} (hatomic : program.Atomic)
    {faults : List (Option Bytes)} {next : α → Process} {input : SchedulerInput} {p' : Process}
    (hnext : ∀ a, (∀ nowMs, (next a).scheduler ≠ .picking nowMs)
      ∧ (next a).scheduler.candidate? = none)
    (h : (s.schedulerCall program faults next).process = some p') :
  SchedulerComes s p input (s.schedulerCall program faults next) p'
  := by
  obtain ⟨a, store, -, rfl, -⟩ := schedulerCall_process hatomic h
  exact .of_idle (hnext a).1 (hnext a).2

/-- Where a phase without a Work stands. -/
theorem sweeping_idle {p : Process} (hphase : p.scheduler = .sweeping) :
  (∀ nowMs, p.scheduler ≠ .picking nowMs) ∧ p.scheduler.candidate? = none
  := by
  rw [hphase]
  exact ⟨by simp, rfl⟩

theorem picking_comes
    {input : SchedulerInput} {schedulerNow : Int64} (hphase : p.scheduler = .picking schedulerNow)
    (h : s.schedulerStep cfg p input = some s') {p' : Process}
    (hprocess' : s'.process = some p') :
  SchedulerComes s p input s' p'
  := by
  simp only [System.schedulerStep, hphase] at h
  cases h
  obtain ⟨found, store, heval, rfl, hstore⟩ :=
    schedulerCall_process (nextEligible_atomic schedulerNow) hprocess'
  rw [nextEligible, Session.eval_query] at heval
  cases hearliest : earliest (s.store.works.filter (eligible schedulerNow)) with
  | none =>
      rw [hearliest] at heval
      cases heval
      exact .of_idle (by simp) rfl
  | some row =>
      rw [hearliest] at heval
      cases heval
      obtain ⟨hmem, heligible⟩ := List.mem_filter.mp (System.earliest_mem hearliest)
      refine ⟨by simp, ?_⟩
      rintro work ⟨⟩
      exact ⟨hstore, Or.inr ⟨schedulerNow, row, hphase, Store.row?_of_mem hmem, heligible, rfl⟩⟩

theorem dispatching_comes
    {input : SchedulerInput} {schedulerNow : Int64} {work : WorkRecord}
    (hphase : p.scheduler = .dispatching schedulerNow work)
    (h : s.schedulerStep cfg p input = some s') {p' : Process}
    (hprocess' : s'.process = some p') :
  SchedulerComes s p input s' p'
  := by
  simp only [System.schedulerStep, hphase] at h
  split_ifs at h with hdeadline
  · cases h
    apply schedulerCall_sweeps (failQueued_atomic _ _) _ hprocess'
    intro _
    exact sweeping_idle rfl
  · split at h
    · cases h
      apply schedulerCall_sweeps (failQueued_atomic _ _) _ hprocess'
      intro _
      exact sweeping_idle rfl
    · split at h
      · cases h
        cases hprocess'
      · cases h
        apply schedulerCall_sweeps (failQueued_atomic _ _) _ hprocess'
        intro _
        exact sweeping_idle rfl
      · split at h
        · cases h
          cases hprocess'
        · cases h
          cases hprocess'
          exact .of_idle (by simp) rfl
        · cases h
          cases hprocess'
          refine ⟨by simp, ?_⟩
          rintro work' ⟨⟩
          exact ⟨rfl, Or.inl (by rw [hphase]; rfl)⟩

theorem schedulerStep_comes
    {input : SchedulerInput} (h : s.schedulerStep cfg p input = some s') {p' : Process}
    (hprocess' : s'.process = some p') :
  SchedulerComes s p input s' p'
  := by
  cases hphase : p.scheduler with
  | sweeping =>
      simp only [System.schedulerStep, hphase] at h
      split_ifs at h with hstop
      · cases h
        cases hprocess'
        exact .of_idle (by simp) rfl
      · cases h
        obtain ⟨-, store, -, rfl, -⟩ :=
          schedulerCall_process (expireQueuedDeadlines_atomic input.nowMs) hprocess'
        refine ⟨?_, by rintro work ⟨⟩⟩
        rintro nowMs ⟨⟩
        simp only [Process.reading, hphase, hstop, if_false, Bool.false_eq_true]
  | picking schedulerNow => exact picking_comes hphase h hprocess'
  | dispatching schedulerNow work => exact dispatching_comes hphase h hprocess'
  | reserved work selection =>
      simp only [System.schedulerStep, hphase] at h
      split_ifs at h with hdeadline
      · cases h
        apply schedulerCall_sweeps (failQueued_atomic _ _) _ hprocess'
        intro _
        exact sweeping_idle rfl
      · cases h
        apply schedulerCall_sweeps (beginAttempt_atomic _ _ _ _) _ hprocess'
        intro number
        split_ifs
        · exact sweeping_idle rfl
        · exact ⟨by simp, rfl⟩
  | launching work selection number startedAtMs =>
      simp only [System.schedulerStep, hphase] at h
      split at h
      · cases h
        apply schedulerCall_sweeps (finishRetryableFailure_atomic _ _ _ _ _) _ hprocess'
        intro _
        exact sweeping_idle rfl
      · cases h
        cases hprocess'
        exact .of_idle (by simp) rfl
  | left =>
      simp only [System.schedulerStep, hphase] at h
      cases h

/-- The scheduler stands where it stood, after a step of another thread. -/
theorem step_scheduler
    (h : s.step cfg e = some s') (he : ∀ input, e ≠ .scheduler input) {p' : Process}
    (hprocess' : s'.process = some p') :
  p'.scheduler = .sweeping ∨ ∃ p, s.process = some p ∧ p'.scheduler = p.scheduler
  := by
  cases hprocess : s.process with
  | none =>
      cases e with
      | start nowMs faults =>
          simp only [System.step, hprocess, Option.some.injEq] at h
          subst h
          rw [System.startStep] at hprocess'
          split at hprocess' <;> cases hprocess'
          exact Or.inl rfl
      | _ =>
          simp only [System.step, hprocess] at h
          cases h
  | some p =>
      right
      cases e with
      | start nowMs faults =>
          simp only [System.step, hprocess] at h
          cases h
      | crash =>
          simp only [System.step, hprocess] at h
          cases h
          cases hprocess'
      | stop =>
          simp only [System.step, hprocess] at h
          cases h
          cases hprocess'
          exact ⟨p, rfl, rfl⟩
      | scheduler input => exact absurd rfl (he input)
      | task i input =>
          simp only [System.step, hprocess, System.attemptStep] at h
          split at h
          · cases h
          · obtain ⟨step, -, rfl⟩ := Option.map_eq_some_iff.mp h
            cases hprocess'
            exact ⟨p, rfl, by cases step.next <;> rfl⟩
      | handler input =>
          simp only [System.step, hprocess] at h
          refine ⟨p, rfl, ?_⟩
          cases System.handlerStep_move hprocess h <;> cases hprocess' <;> rfl

/-- A step keeps the scheduler punctual. -/
theorem Timed.Punctual.step
    (hreach : (machine cfg).Reachable t.system) (h : t.Punctual) (hstep : t.step cfg e = some t') :
  t'.Punctual
  := by
  obtain ⟨hsystem, hclock, hreading⟩ := Timed.step_eq_some hstep
  by_cases he : ∃ input, e = .scheduler input
  · obtain ⟨input, rfl⟩ := he
    cases hprocess : t.system.process with
    | none =>
        simp only [System.step, hprocess] at hsystem
        cases hsystem
    | some p =>
        simp only [System.step, hprocess] at hsystem
        constructor
        · intro p' nowMs hprocess' hphase
          have hread := (schedulerStep_comes hsystem hprocess').1 nowMs hphase
          have hsome : t.system.reading (.scheduler input) = some nowMs := by
            rw [System.reading, hprocess, Option.bind_some, hread]
          rw [hreading nowMs hsome]
        · intro p' work hprocess' hwork
          obtain ⟨hstore, hcases⟩ := (schedulerStep_comes hsystem hprocess').2 work hwork
          rw [hstore]
          apply Due.mono _ hclock
          rcases hcases with hheld | ⟨nowMs, row, hpicking, hrow, heligible, rfl⟩
          · exact h.due p work hprocess hheld
          · have hle := h.picking p nowMs hprocess hpicking
            simp only [eligible, Bool.and_eq_true, decide_eq_true_eq,
              Int64.le_iff_toInt_le] at heligible
            obtain ⟨⟨⟨hqueued, -⟩, heligible⟩, hnext⟩ := heligible
            intro w hw
            rw [bindText_readWork_id] at hw
            cases hrow.symm.trans hw
            refine ⟨by rw [hqueued]; simp, fun _ => ?_⟩
            omega
  · have hother : ∀ input, e ≠ .scheduler input := fun input heq => he ⟨input, heq⟩
    constructor
    · intro p' nowMs hprocess' hphase
      rcases step_scheduler hsystem hother hprocess' with hsweeping | ⟨p, hprocess, hsame⟩
      · rw [hsweeping] at hphase
        cases hphase
      · exact (h.picking p nowMs hprocess (hsame.symm.trans hphase)).trans hclock
    · intro p' work hprocess' hwork
      rcases step_scheduler hsystem hother hprocess' with hsweeping | ⟨p, hprocess, hsame⟩
      · rw [hsweeping] at hwork
        cases hwork
      · rw [hsame] at hwork
        obtain ⟨w, hrow, -⟩ := reachable_holds hreach hprocess
          (Process.mem_records_of_scheduler (SchedulerPhase.work?_of_candidate? hwork))
        exact ((h.due p work hprocess hwork).step hsystem hother hrow).mono hclock

theorem timed_punctual (h : (timed cfg).Reachable t) :
  t.Punctual
  := by
  apply h.invariant
  · intro t hinit
    constructor
    · intro p nowMs hprocess
      rw [hinit.2.1] at hprocess
      cases hprocess
    · intro p work hprocess
      rw [hinit.2.1] at hprocess
      cases hprocess
  · intro t e t' hreach hpunctual hstep
    apply hpunctual.step (timed_reachable hreach) hstep

/-- An attempt is started at the last reading of the scheduler, when the times of the Work have come
and its deadline has not passed. -/
theorem timed_starts
    (hreach : (timed cfg).Reachable t) (hstep : t.step cfg e = some t') {id : CString} {w : Row}
    (hrow : t.system.store.row? id = some w) (hqueued : w.state = .queued) {startedAtMs : Int64}
    (hstarts : t.system.Starts e id startedAtMs) :
  startedAtMs = t'.clock ∧ w.nextAttemptAtMs.toInt ≤ startedAtMs.toInt
    ∧ w.eligibleAtMs.toInt ≤ startedAtMs.toInt
    ∧ ∀ deadline, w.deadlineMs = some deadline → startedAtMs.toInt < deadline.toInt
  := by
  obtain ⟨p, work, selection, input, hprocess, rfl, hphase, rfl, rfl, hdeadline⟩ := hstarts
  obtain ⟨-, hclock, hreading⟩ := Timed.step_eq_some hstep
  have hread : t.system.reading (.scheduler input) = some input.nowMs := by
    simp only [System.reading, hprocess, Option.bind_some, Process.reading, hphase]
  have hnow := hreading _ hread
  have hcandidate : p.scheduler.candidate? = some work := by
    rw [hphase]
    rfl
  obtain ⟨-, htimes⟩ := (timed_punctual hreach).due p work hprocess hcandidate w hrow
  obtain ⟨heligible, hnext⟩ := htimes hqueued
  rw [hnow] at hclock
  refine ⟨hnow.symm, by omega, by omega, ?_⟩
  intro deadline hsome
  obtain ⟨w₁, hrow₁, hconstants⟩ := reachable_holds (timed_reachable hreach) hprocess
    (Process.mem_records_of_scheduler (SchedulerPhase.work?_of_candidate? hcandidate))
  cases hrow.symm.trans hrow₁
  have hsame : work.deadlineMs = w.deadlineMs := (congrArg Work.deadlineMs hconstants).symm
  rw [deadlinePassed, hsame, hsome] at hdeadline
  have hnot := of_decide_eq_false hdeadline
  rw [ge_iff_le, Int64.le_iff_toInt_le] at hnot
  omega

/-- A new Work has no attempts. -/
theorem attemptsOf_new
    (hreach' : (machine cfg).Reachable s') (hstep : s.step cfg e = some s') {id : CString} {w : Row}
    (hnone : s.store.row? id = none) (hrow : s'.store.row? id = some w) :
  s'.store.attemptsOf id = []
  := by
  have hcount : w.attemptCount = 0 := by
    rcases (System.step_move hstep).submitted with ⟨-, hkeeps⟩ | ⟨request, work, -, -, hrows⟩
    · rw [hkeeps id hnone] at hrow
      cases hrow
    · rw [hrows] at hrow
      split_ifs at hrow
      · cases hrow
        rfl
      · rw [hnone] at hrow
        cases hrow
  have hnumbers := (reachable_account hreach' hrow).numbers
  rw [hcount] at hnumbers
  exact List.map_eq_nil_iff.mp hnumbers

/-! ### The sample Kernel with a clock -/

namespace Sample

def timedStart : Timed := ⟨start, 0⟩

/-- The scheduler dispatches a Work at a reading of the clock. -/
def dispatchingAt (nowMs : Int64) : List System.Event :=
  List.replicate 5 (.scheduler ⟨nowMs, [], .ok ()⟩)

/-- A Work is dispatched, and its worker crashes. -/
def failingAt (nowMs : Int64) : List System.Event :=
  dispatchingAt nowMs
    ++ [.task 0 (.proceed nowMs []), .task 0 (.outcome (.crashed [])), .task 0 (.proceed nowMs [])]

end Sample

end Kernel
