import MadreKernel.Kernel.System
import MadreKernel.Store.Lifecycle

/-!
# What a step of the Kernel does

The steps of the three kinds of threads, each said once: a `TaskMove`, a `SchedulerMove` and a
`HandlerMove` give the phase the thread leaves, the phase it comes to, and what the step does
to the database and the files.  A store call that throws leaves the database as it was, and a
store call that returns acts on it by its action.  The invariants of the system are proved by
cases on the moves.
-/

namespace Kernel

open WorkStore

/-! ### Attempt tasks -/

/-- The phases in which a task is not about to record a result. -/
def TaskPhase.Idle : TaskPhase → Prop
  | .settling _ | .handling _ => True
  | _ => False

/-- The actions by which a task records an attempt without a result. -/
def Task.Settles (t : Task) : WorkAction → Prop
  | .finish attemptState workState _ number _ =>
      number = t.attemptNumber ∧ attemptState = .cancelled ∧ workState = .cancelled
  | .failAttempt attemptState _ number _ => number = t.attemptNumber ∧ attemptState ≠ .running
  | _ => False

/-- What the step of an attempt task does. -/
inductive TaskMove (store : Store) (files : Files) (t : Task) (input : TaskInput) :
    TaskStep → Prop where
  /-- The task ends, and records nothing. -/
  | leave (haccepted : System.acceptedPayload t input = []) :
      TaskMove store files t input ⟨store, files, none⟩
  /-- The task goes on without a result. -/
  | turn {phase : TaskPhase} (hphase : phase.Idle)
      (haccepted : System.acceptedPayload t input = []) :
      TaskMove store files t input ⟨store, files, some phase⟩
  | read {content : Bytes} (hphase : t.phase = .starting)
      (haccepted : System.acceptedPayload t input = []) :
      TaskMove store files t input ⟨store, files, some (.executing content)⟩
  /-- The worker answers with a result. -/
  | accept {content payload : Bytes} (hphase : t.phase = .executing content)
      (haccepted : System.acceptedPayload t input
        = [(bindText t.work.id, t.attemptNumber, payload)]) :
      TaskMove store files t input ⟨store, files, some (.checking payload)⟩
  /-- The Work is not cancelled. -/
  | check {payload : Bytes} (hphase : t.phase = .checking payload)
      (hcancel : ∀ w, store.row? (bindText t.work.id) = some w → w.cancelRequested = false)
      (haccepted : System.acceptedPayload t input = []) :
      TaskMove store files t input ⟨store, files, some (.writing payload)⟩
  | writePart {payload : Bytes} (count : Nat) (hphase : t.phase = .writing payload)
      (haccepted : System.acceptedPayload t input = []) :
      TaskMove store files t input
        ⟨store, files.write (temporary t.work.resultPath) (payload.take count),
          some (.writing payload)⟩
  | write {payload : Bytes} (hphase : t.phase = .writing payload)
      (hsize : payload.length ≤ Wire.kMaxC1TextGenerationOpaquePayloadBytes)
      (haccepted : System.acceptedPayload t input = []) :
      TaskMove store files t input
        ⟨store, files.write (temporary t.work.resultPath) payload, some (.moving payload)⟩
  | rename {payload : Bytes} {files' : Files} (hphase : t.phase = .moving payload)
      (hrename : files.rename (temporary t.work.resultPath) t.work.resultPath = some files')
      (haccepted : System.acceptedPayload t input = []) :
      TaskMove store files t input ⟨store, files', some (.committing payload)⟩
  /-- The task records its success. -/
  | commit {payload : Bytes} {store' : Store} {endedAtMs : Int64}
      (hphase : t.phase = .committing payload)
      (hacts : WorkAction.ActsAt
        (.finish .succeeded .succeeded (sqlText "") t.attemptNumber endedAtMs)
        (bindText t.work.id) store store')
      (haccepted : System.acceptedPayload t input = []) :
      TaskMove store files t input ⟨store', files, none⟩
  /-- The task records that it has no result. -/
  | settle {a : WorkAction} {store' : Store} (ha : t.Settles a)
      (hacts : a.ActsAt (bindText t.work.id) store store')
      (haccepted : System.acceptedPayload t input = []) :
      TaskMove store files t input ⟨store', files, none⟩

/-- `finish_retryable_failure` returns only for a state it accepts. -/
theorem finishRetryableFailure_settles
    {id text : Bytes} {number : Int32} {attemptState : AttemptState} {endedAtMs : Int64}
    {store store' : Store}
    (h : (finishRetryableFailure id number attemptState text endedAtMs).eval store
      = (.ok (), store')) :
  attemptState ≠ .running
    ∧ WorkAction.ActsAt (.failAttempt attemptState (bindText text) number endedAtMs) (bindText id)
        store store'
  := by
  by_cases hstate : retryableState attemptState = true
  · constructor
    · rintro rfl
      cases hstate
    · have hacts := finishRetryableFailure_acts hstate id number text endedAtMs store
      rw [h] at hacts
      exact hacts
  · rw [finishRetryableFailure, if_pos (by simpa using hstate)] at h
    cases h

/-- The step that records an attempt without a result. -/
theorem settle_settles
    {t : Task} {nowMs : Int64} {settlement : Settlement} {store store' : Store}
    (h : (settle t nowMs settlement).eval store = (.ok (), store')) :
  ∃ a, t.Settles a ∧ a.ActsAt (bindText t.work.id) store store'
  := by
  cases settlement with
  | cancelled =>
      have hacts := finish_acts .cancelled .cancelled (sqlText "cancelled") t.work.id
        t.attemptNumber nowMs store
      rw [settle, finishCancelled] at h
      rw [h] at hacts
      exact ⟨.finish _ _ _ _ _, ⟨rfl, rfl, rfl⟩, hacts⟩
  | failure attemptState text =>
      obtain ⟨hstate, hacts⟩ := finishRetryableFailure_settles h
      exact ⟨.failAttempt _ _ _ _, ⟨rfl, hstate⟩, hacts⟩

theorem settle_atomic (t : Task) (nowMs : Int64) (settlement : Settlement) :
  (settle t nowMs settlement).Atomic
  := by
  cases settlement with
  | cancelled => apply finish_atomic
  | failure attemptState text => apply finishRetryableFailure_atomic

section

variable {stop : Bool} {store : Store} {files : Files} {t : Task} {nowMs : Int64}
  {faults : List (Option Bytes)} {step : TaskStep}

/-- The store call that records an attempt without a result throws, or the task ends. -/
theorem taskStep_settling
    {settlement : Settlement} (hphase : t.phase = .settling settlement)
    (h : taskStep stop store files t (.proceed nowMs faults) = some step) :
  (∃ e, step = ⟨store, files, some (.handling e)⟩)
    ∨ (settle t nowMs settlement).returns faults store = true
      ∧ ∃ store', (settle t nowMs settlement).eval store = (.ok (), store')
        ∧ step = ⟨store', files, none⟩
  := by
  simp only [taskStep, hphase] at h
  rcases (settle_atomic t nowMs settlement).exec_cases faults store with
    ⟨e, hexec⟩ | ⟨⟨⟩, store', hexec, heval⟩
  · rw [hexec] at h
    cases h
    exact Or.inl ⟨e, rfl⟩
  · rw [hexec] at h
    cases h
    exact Or.inr ⟨Session.returns_of_exec hexec, store', heval, rfl⟩

/-- The store call that records a success throws, or the task ends. -/
theorem taskStep_committing
    {payload : Bytes} (hphase : t.phase = .committing payload)
    (h : taskStep stop store files t (.proceed nowMs faults) = some step) :
  (∃ e, step = ⟨store, files, some (.handling e)⟩)
    ∨ ∃ store', WorkAction.ActsAt
        (.finish .succeeded .succeeded (sqlText "") t.attemptNumber nowMs) (bindText t.work.id)
        store store'
      ∧ step = ⟨store', files, none⟩
  := by
  simp only [taskStep, hphase] at h
  have hatomic : (finishSuccess t.work.id t.attemptNumber nowMs).Atomic :=
    finish_atomic _ _ _ _ _ _
  rcases hatomic.exec_cases faults store with ⟨e, hexec⟩ | ⟨⟨⟩, store', hexec, heval⟩
  · rw [hexec] at h
    cases h
    exact Or.inl ⟨e, rfl⟩
  · rw [hexec] at h
    cases h
    have hacts := finish_acts .succeeded .succeeded (sqlText "") t.work.id t.attemptNumber nowMs
      store
    rw [finishSuccess] at heval
    rw [heval] at hacts
    exact Or.inr ⟨store', hacts, rfl⟩

/-- The exception handler records a failure, unless the Kernel stops or its call throws. -/
theorem taskStep_handling
    {text : Bytes} (hphase : t.phase = .handling text)
    (h : taskStep stop store files t (.proceed nowMs faults) = some step) :
  step = ⟨store, files, none⟩
    ∨ stop = false ∧ (handleFailure t text nowMs).returns faults store = true
      ∧ ∃ failure store', WorkAction.ActsAt
        (.failAttempt .failed failure t.attemptNumber nowMs) (bindText t.work.id) store store'
      ∧ step = ⟨store', files, none⟩
  := by
  simp only [taskStep, hphase] at h
  split_ifs at h with hstop
  · cases h
    exact Or.inl rfl
  · have hatomic : (handleFailure t text nowMs).Atomic := finishRetryableFailure_atomic _ _ _ _ _
    rcases hatomic.exec_cases faults store with ⟨e, hexec⟩ | ⟨⟨⟩, store', hexec, heval⟩
    · rw [hexec] at h
      cases h
      exact Or.inl rfl
    · rw [hexec] at h
      cases h
      obtain ⟨-, hacts⟩ := finishRetryableFailure_settles heval
      exact Or.inr ⟨by simpa using hstop, Session.returns_of_exec hexec, _, store', hacts, rfl⟩

/-- The query for the cancellation throws, or it decides what the task goes on with. -/
theorem taskStep_checking
    {payload : Bytes} (hphase : t.phase = .checking payload)
    (h : taskStep stop store files t (.proceed nowMs faults) = some step) :
  (∃ e, step = ⟨store, files, some (.handling e)⟩)
    ∨ step = ⟨store, files, some (if (store.row? (bindText t.work.id)).any (·.cancelRequested)
        then .settling .cancelled else .writing payload)⟩
  := by
  simp only [taskStep, hphase] at h
  rcases (cancelRequested_atomic t.work.id).exec_cases faults store with
    ⟨e, hexec⟩ | ⟨cancelled, store', hexec, heval⟩
  · rw [hexec] at h
    cases h
    exact Or.inl ⟨e, rfl⟩
  · rw [hexec] at h
    rw [cancelRequested, Session.eval_query] at heval
    cases heval
    cases h
    exact Or.inr rfl

/-- A task goes on in one of the moves. -/
theorem taskStep_proceed (h : taskStep stop store files t (.proceed nowMs faults) = some step) :
  TaskMove store files t (.proceed nowMs faults) step
  := by
  cases hphase : t.phase with
  | starting =>
      simp only [taskStep, hphase] at h
      split_ifs at h with hstop
      · cases h
        exact .leave rfl
      · cases hread : readBinaryBounded files t.work.inputPath with
        | error e =>
            rw [hread] at h
            cases h
            exact .turn trivial rfl
        | ok content =>
            rw [hread] at h
            cases h
            exact .read hphase rfl
  | executing input =>
      simp only [taskStep, hphase] at h
      cases h
  | settling settlement =>
      rcases taskStep_settling hphase h with ⟨e, rfl⟩ | ⟨-, store', heval, rfl⟩
      · exact .turn trivial rfl
      · obtain ⟨a, ha, hacts⟩ := settle_settles heval
        exact .settle ha hacts rfl
  | checking payload =>
      rcases taskStep_checking hphase h with ⟨e, rfl⟩ | rfl
      · exact .turn trivial rfl
      · split_ifs with hcancel
        · exact .turn trivial rfl
        · apply TaskMove.check hphase _ rfl
          intro w hrow
          simpa [hrow] using hcancel
  | writing payload =>
      simp only [taskStep, hphase] at h
      split_ifs at h with hsize
      · cases h
        exact .turn trivial rfl
      · cases h
        exact .write hphase (Nat.le_of_not_lt hsize) rfl
  | moving payload =>
      simp only [taskStep, hphase, Option.map_eq_some_iff] at h
      obtain ⟨files', hrename, rfl⟩ := h
      exact .rename hphase hrename rfl
  | committing payload =>
      rcases taskStep_committing hphase h with ⟨e, rfl⟩ | ⟨store', hacts, rfl⟩
      · exact .turn trivial rfl
      · exact .commit hphase hacts rfl
  | handling text =>
      rcases taskStep_handling hphase h with rfl | ⟨-, -, failure, store', hacts, rfl⟩
      · exact .leave rfl
      · exact .settle (a := .failAttempt _ _ _ _) ⟨rfl, by simp⟩ hacts rfl

end

theorem taskStep_move
    {stop : Bool} {store : Store} {files : Files} {t : Task} {input : TaskInput} {step : TaskStep}
    (h : taskStep stop store files t input = some step) :
  TaskMove store files t input step
  := by
  cases input with
  | proceed nowMs faults => exact taskStep_proceed h
  | outcome outcome =>
      cases hphase : t.phase with
      | executing content =>
          simp only [taskStep, hphase] at h
          cases h
          cases outcome with
          | succeeded payload => exact .accept hphase rfl
          | stopped => exact .leave rfl
          | _ => exact .turn trivial rfl
      | _ =>
          simp only [taskStep, hphase] at h
          cases h
  | write count =>
      cases hphase : t.phase with
      | writing payload =>
          simp only [taskStep, hphase] at h
          split_ifs at h
          cases h
          exact .writePart count hphase rfl
      | _ =>
          simp only [taskStep, hphase] at h
          cases h
  | throw text =>
      cases hphase : t.phase with
      | executing content =>
          simp only [taskStep, hphase] at h
          cases h
          exact .turn trivial rfl
      | writing payload =>
          simp only [taskStep, hphase] at h
          cases h
          exact .turn trivial rfl
      | moving payload =>
          simp only [taskStep, hphase] at h
          cases h
          exact .turn trivial rfl
      | _ =>
          simp only [taskStep, hphase] at h
          cases h

/-! ### The scheduler -/

/-- The phases in which the scheduler holds no Work. -/
def SchedulerPhase.Idle : SchedulerPhase → Prop
  | .sweeping | .picking _ | .left => True
  | _ => False

/-- The attempt that has begun and has no task yet. -/
def SchedulerPhase.begun? : SchedulerPhase → Option (WorkRecord × Int32)
  | .launching work _ attemptNumber _ => some (work, attemptNumber)
  | _ => none

/-- What a step of the scheduler does. -/
inductive SchedulerMove (cfg : Config) (s : System) (p : Process) : System → Prop where
  /-- An exception ends the process. -/
  | gone : SchedulerMove cfg s p (s.update s.store none)
  /-- The scheduler lets go of what it holds. -/
  | turn {scheduler : SchedulerPhase} (resources : ResourceManager) (hidle : scheduler.Idle) :
      SchedulerMove cfg s p (s.update s.store (some { p with scheduler, resources }))
  | expire {store : Store} {nowMs : Int64} (schedulerNow : Int64)
      (hbegun : p.scheduler.begun? = none)
      (hacts : WorkAction.ActsEverywhere (.expire nowMs) s.store store) :
      SchedulerMove cfg s p
        (s.update store (some { p with scheduler := .picking schedulerNow }))
  | fail {store : Store} {id text : CString} (resources : ResourceManager)
      (hbegun : p.scheduler.begun? = none)
      (hacts : WorkAction.ActsAt (.fail text) id s.store store) :
      SchedulerMove cfg s p
        (s.update store (some { p with scheduler := .sweeping, resources }))
  | pick {row : Row} (schedulerNow : Int64) (hrow : s.store.row? row.id = some row) :
      SchedulerMove cfg s p
        (s.update s.store (some { p with scheduler := .dispatching schedulerNow (readWork row) }))
  | reserve {schedulerNow : Int64} {work : WorkRecord} {selection : Selection}
      (resources : ResourceManager) (hphase : p.scheduler = .dispatching schedulerNow work)
      (hselect : selectEngine work cfg.inventory = .ok selection) :
      SchedulerMove cfg s p
        (s.update s.store (some { p with scheduler := .reserved work selection, resources }))
  /-- An attempt begins, whose number is not 0. -/
  | begin {store : Store} {work : WorkRecord} {selection : Selection} {w : Row} {nowMs : Int64}
      (hphase : p.scheduler = .reserved work selection)
      (hrow : s.store.row? (bindText work.id) = some w) (hstart : WorkAction.startable w = true)
      (hnumber : w.attemptCount + 1 ≠ 0)
      (hacts : WorkAction.ActsAt (.start (bindText selection.engine.id) (bindText selection.modelId)
        nowMs) (bindText work.id) s.store store) :
      SchedulerMove cfg s p (s.update store
        (some { p with scheduler := .launching work selection (w.attemptCount + 1) nowMs }))
  /-- An attempt begins, but its number is 0, which the scheduler takes for a refusal. -/
  | lose {store : Store} {work : WorkRecord} {w : Row} {engineId modelId : CString}
      {nowMs : Int64} (resources : ResourceManager)
      (hrow : s.store.row? (bindText work.id) = some w) (hstart : WorkAction.startable w = true)
      (hnumber : w.attemptCount + 1 = 0)
      (hacts : WorkAction.ActsAt (.start engineId modelId nowMs) (bindText work.id) s.store store) :
      SchedulerMove cfg s p (s.update store (some { p with scheduler := .sweeping, resources }))
  | launch {work : WorkRecord} {selection : Selection} {number : Int32} {startedAtMs : Int64}
      (hphase : p.scheduler = .launching work selection number startedAtMs) :
      SchedulerMove cfg s p
        (s.update s.store (some { p with
          scheduler := .sweeping
          tasks := p.tasks
            ++ [⟨work, number, startedAtMs, selection.engine.resources, .starting⟩] }))
  /-- The worker pool has thrown, and the attempt is recorded as failed. -/
  | drop {store : Store} {work : WorkRecord} {selection : Selection} {number : Int32}
      {startedAtMs endedAtMs : Int64} {text : CString} (resources : ResourceManager)
      (hphase : p.scheduler = .launching work selection number startedAtMs)
      (hacts : WorkAction.ActsAt (.failAttempt .failed text number endedAtMs) (bindText work.id)
        s.store store) :
      SchedulerMove cfg s p (s.update store (some { p with scheduler := .sweeping, resources }))

namespace System

/-- A store call of the scheduler ends the process, or the program returns. -/
theorem schedulerCall_move
    {α : Type} {cfg : Config} {s : System} {p : Process} {program : StoreProgram α}
    (hatomic : program.Atomic) {faults : List (Option Bytes)} {next : α → Process}
    (h : ∀ a store, program.eval s.store = (.ok a, store) →
      SchedulerMove cfg s p (s.update store (some (next a)))) :
  SchedulerMove cfg s p (s.schedulerCall program faults next)
  := by
  rcases hatomic.exec_cases faults s.store with ⟨e, hexec⟩ | ⟨a, store, hexec, heval⟩
  · rw [schedulerCall, hexec]
    exact .gone
  · rw [schedulerCall, hexec]
    exact h a store heval

/-- The row that `next_eligible` returns is in the table. -/
theorem earliest_mem {l : List Row} {w : Row} (h : earliest l = some w) :
  w ∈ l
  := by
  induction l generalizing w with
  | nil => cases h
  | cons v l ih =>
      rw [earliest] at h
      cases hrest : earliest l with
      | none =>
          rw [hrest] at h
          cases h
          exact List.mem_cons_self
      | some u =>
          rw [hrest] at h
          simp only at h
          split_ifs at h
          · cases h
            exact List.mem_cons_of_mem _ (ih hrest)
          · cases h
            exact List.mem_cons_self

/-- The step that fails a queued Work. -/
theorem failQueued_move
    {cfg : Config} {s : System} {p : Process} (hbegun : p.scheduler.begun? = none)
    (id text : Bytes) (faults : List (Option Bytes)) (resources : ResourceManager) :
  SchedulerMove cfg s p (s.schedulerCall (failQueued id text) faults fun _ =>
    { p with scheduler := .sweeping, resources })
  := by
  apply schedulerCall_move (failQueued_atomic id text)
  intro _ store heval
  have hacts := failQueued_acts id text s.store
  rw [heval] at hacts
  exact .fail resources hbegun hacts

theorem schedulerStep_dispatching
    {cfg : Config} {s s' : System} {p : Process} {input : SchedulerInput} {schedulerNow : Int64}
    {work : WorkRecord} (hphase : p.scheduler = .dispatching schedulerNow work)
    (h : s.schedulerStep cfg p input = some s') :
  SchedulerMove cfg s p s'
  := by
  have hbegun : p.scheduler.begun? = none := by
    rw [hphase]
    rfl
  simp only [schedulerStep, hphase] at h
  split_ifs at h with hdeadline
  · cases h
    exact failQueued_move hbegun work.id deadlineText input.faults p.resources
  · cases hselect : selectEngine work cfg.inventory with
    | error failure =>
        rw [hselect] at h
        cases h
        exact failQueued_move hbegun work.id failure input.faults p.resources
    | ok selection =>
        rw [hselect] at h
        simp only at h
        cases hever : p.resources.canEverReserve selection.engine.resources with
        | error e =>
            rw [hever] at h
            cases h
            exact .gone
        | ok fits =>
            rw [hever] at h
            cases fits with
            | false =>
                cases h
                exact failQueued_move hbegun work.id capacityText input.faults p.resources
            | true =>
                simp only at h
                cases htry : p.resources.tryReserve selection.engine.resources with
                | error e =>
                    rw [htry] at h
                    cases h
                    exact .gone
                | ok tried =>
                    obtain ⟨reserved, resources⟩ := tried
                    rw [htry] at h
                    cases reserved with
                    | false =>
                        cases h
                        exact .turn resources trivial
                    | true =>
                        cases h
                        exact .reserve resources hphase hselect

theorem schedulerStep_reserved
    {cfg : Config} {s s' : System} {p : Process} {input : SchedulerInput} {work : WorkRecord}
    {selection : Selection} (hphase : p.scheduler = .reserved work selection)
    (h : s.schedulerStep cfg p input = some s') :
  SchedulerMove cfg s p s'
  := by
  have hbegun : p.scheduler.begun? = none := by
    rw [hphase]
    rfl
  simp only [schedulerStep, hphase] at h
  split_ifs at h with hdeadline
  · cases h
    exact failQueued_move hbegun work.id deadlineText input.faults _
  · cases h
    apply schedulerCall_move (beginAttempt_atomic _ _ _ _)
    intro number store heval
    rcases beginAttempt_acts heval with ⟨rfl, rfl⟩ | ⟨w, hrow, hstart, rfl, hacts⟩
    · exact .turn _ trivial
    · by_cases hnumber : w.attemptCount + 1 = 0
      · rw [if_pos hnumber]
        exact .lose _ hrow hstart hnumber hacts
      · rw [if_neg hnumber]
        exact .begin hphase hrow hstart hnumber hacts

theorem schedulerStep_launching
    {cfg : Config} {s s' : System} {p : Process} {input : SchedulerInput} {work : WorkRecord}
    {selection : Selection} {number : Int32} {startedAtMs : Int64}
    (hphase : p.scheduler = .launching work selection number startedAtMs)
    (h : s.schedulerStep cfg p input = some s') :
  SchedulerMove cfg s p s'
  := by
  simp only [schedulerStep, hphase] at h
  cases hlaunch : input.launch with
  | ok u =>
      rw [hlaunch] at h
      cases h
      exact .launch hphase
  | error text =>
      rw [hlaunch] at h
      cases h
      apply schedulerCall_move (finishRetryableFailure_atomic _ _ _ _ _)
      intro _ store heval
      exact .drop _ hphase (finishRetryableFailure_settles heval).2

theorem schedulerStep_move
    {cfg : Config} {s s' : System} {p : Process} {input : SchedulerInput}
    (h : s.schedulerStep cfg p input = some s') :
  SchedulerMove cfg s p s'
  := by
  cases hphase : p.scheduler with
  | sweeping =>
      simp only [schedulerStep, hphase] at h
      split_ifs at h
      · cases h
        exact .turn p.resources trivial
      · cases h
        apply schedulerCall_move (expireQueuedDeadlines_atomic input.nowMs)
        intro _ store heval
        have hacts := expireQueuedDeadlines_acts input.nowMs s.store
        rw [heval] at hacts
        exact .expire input.nowMs (by rw [hphase]; rfl) hacts
  | picking schedulerNow =>
      simp only [schedulerStep, hphase] at h
      cases h
      apply schedulerCall_move (nextEligible_atomic schedulerNow)
      intro found store heval
      rw [nextEligible, Session.eval_query] at heval
      cases hearliest : earliest (s.store.works.filter (eligible schedulerNow)) with
      | none =>
          rw [hearliest] at heval
          cases heval
          exact .turn p.resources trivial
      | some row =>
          rw [hearliest] at heval
          cases heval
          have hmem := List.mem_of_mem_filter (earliest_mem hearliest)
          exact .pick schedulerNow (Store.row?_of_mem hmem)
  | dispatching schedulerNow work => exact schedulerStep_dispatching hphase h
  | reserved work selection => exact schedulerStep_reserved hphase h
  | launching work selection number startedAtMs => exact schedulerStep_launching hphase h
  | left =>
      simp only [schedulerStep, hphase] at h
      cases h

end System

/-! ### The handler -/

/-- What a step of the handler does. -/
inductive HandlerMove (cfg : Config) (s : System) (p : Process) : System → Prop where
  | reply (c : Connection) (frame : Frame) :
      HandlerMove cfg s p (s.reply p s.store s.files c frame)
  /-- A `SUBMIT` is read. -/
  | submit {c : Connection} {work : WorkRecord} {nowMs : Int64} {draws : UInt64 × UInt64}
      (hrecord : submitRecord cfg.dataDir c.request nowMs draws = .ok work) :
      HandlerMove cfg s p (s.await p (.submitWriting c work))
  | writePart {c : Connection} {work : WorkRecord} (count : Nat)
      (hphase : p.handler = .submitWriting c work) :
      HandlerMove cfg s p
        (({ s with
            files := s.files.write (temporary work.inputPath) (c.request.payload.take count)
          }).await p (.submitWriting c work))
  | write {c : Connection} {work : WorkRecord} (hphase : p.handler = .submitWriting c work) :
      HandlerMove cfg s p
        (({ s with files := s.files.write (temporary work.inputPath) c.request.payload }).await p
          (.submitRenaming c work))
  | rename {c : Connection} {work : WorkRecord} {files : Files}
      (hphase : p.handler = .submitRenaming c work)
      (hrename : s.files.rename (temporary work.inputPath) work.inputPath = some files) :
      HandlerMove cfg s p (({ s with files }).await p (.submitStoring c work))
  /-- A `SUBMIT` is accepted. -/
  | accept {c : Connection} {work : WorkRecord} {store : Store}
      (hphase : p.handler = .submitStoring c work)
      (hnew : s.store.row? (bindText work.id) = none) (hchecked : (submittedRow work).checked)
      (hview : ∀ j, store.view j = if j = bindText work.id then
        ⟨some (submittedRow work), s.store.attemptsOf j⟩ else s.store.view j) :
      HandlerMove cfg s p
        { s.reply p store s.files c (System.submitReply c.request work) with
          history :=
            { s.history with
              submitted := s.history.submitted ++ [(bindText work.id, c.request)]
              replies := s.history.replies
                ++ [(c.request, System.submitReply c.request work)] } }
  | findResult {c : Connection} {id : Bytes} {row : Row}
      (hid : metadataValue c.request "work_id" = .ok id)
      (hrow : s.store.row? (bindText id) = some row) :
      HandlerMove cfg s p (s.await p (.resultFound c (readWork row)))
  | findAcknowledge {c : Connection} {id : Bytes} {row : Row}
      (hid : metadataValue c.request "work_id" = .ok id)
      (hrow : s.store.row? (bindText id) = some row) :
      HandlerMove cfg s p (s.await p (.acknowledgeFound c (readWork row)))
  /-- A call of `cancel`, or a call of `acknowledge` that is refused. -/
  | act {c : Connection} {frame : Frame} {a : WorkAction} {id : CString} {store : Store}
      (ha : a = .cancel ∨ a = .acknowledge) (hacts : a.ActsAt id s.store store) :
      HandlerMove cfg s p (s.reply p store s.files c frame)
  | acknowledge {c : Connection} {work : WorkRecord} {id : Bytes} {w : Row} {store : Store}
      (hphase : p.handler = .acknowledgeFound c work)
      (hid : metadataValue c.request "work_id" = .ok id)
      (hrow : s.store.row? (bindText id) = some w) (hstate : w.state = .succeeded)
      (hacts : WorkAction.ActsAt .acknowledge (bindText id) s.store store) :
      HandlerMove cfg s p (({ s with store }).await p (.removingInput c work))
  | removeInput {c : Connection} {work : WorkRecord} (hphase : p.handler = .removingInput c work) :
      HandlerMove cfg s p
        (({ s with files := s.files.remove work.inputPath }).await p (.removingResult c work))
  | keepInput {c : Connection} {work : WorkRecord} (hphase : p.handler = .removingInput c work) :
      HandlerMove cfg s p (s.await p (.removingResult c work))
  | removeResult {c : Connection} {work : WorkRecord} {frame : Frame}
      (hphase : p.handler = .removingResult c work) :
      HandlerMove cfg s p (s.reply p s.store (s.files.remove work.resultPath) c frame)

namespace System

/-- A request that begins with `find` replies, or goes on with the row it found. -/
theorem findFirst_move
    {cfg : Config} {s : System} {p : Process} {c : Connection} {faults : List (Option Bytes)}
    {found : WorkRecord → System}
    (h : ∀ {id row}, metadataValue c.request "work_id" = .ok id →
      s.store.row? (bindText id) = some row → HandlerMove cfg s p (found (readWork row))) :
  HandlerMove cfg s p (s.findFirst p c faults found)
  := by
  rw [findFirst]
  cases hid : metadataValue c.request "work_id" with
  | error e => exact .reply c _
  | ok id =>
      simp only
      rcases (find_atomic id).exec_cases faults s.store with
        ⟨e, hexec⟩ | ⟨found?, store, hexec, heval⟩
      · rw [hexec]
        exact .reply c _
      · rw [hexec]
        rw [find, Session.eval_query] at heval
        cases hrow : s.store.row? (bindText id) with
        | none =>
            rw [hrow] at heval
            cases heval
            exact .reply c _
        | some row =>
            rw [hrow] at heval
            cases heval
            exact h hid hrow

theorem handle_cancel
    {cfg : Config} {s : System} {p : Process} {c : Connection} {id : Bytes}
    {faults : List (Option Bytes)} {result : Except Bytes (Option WorkState)} {store : Store}
    (h : (cancel id).exec faults s.store = (result, store)) (frame : Frame) :
  HandlerMove cfg s p (s.reply p store s.files c frame)
  := by
  rcases (cancel_atomic id).exec_cases faults s.store with ⟨e, hexec⟩ | ⟨a, store', hexec, heval⟩
  · rw [hexec] at h
    cases h
    exact .reply c frame
  · rw [hexec] at h
    cases h
    have hacts := cancel_acts id s.store
    rw [heval] at hacts
    exact .act (Or.inl rfl) hacts

theorem handle_move
    {cfg : Config} {s s' : System} {p : Process} {c : Connection} {nowMs : Int64}
    {draws : UInt64 × UInt64} {faults : List (Option Bytes)}
    (h : s.handle cfg p c nowMs draws faults = some s') :
  HandlerMove cfg s p s'
  := by
  rw [handle] at h
  split_ifs at h with hsubmit hsize hstatus hresult hacknowledge hcancel hengines
  · cases h
    exact .reply c _
  · cases hrecord : submitRecord cfg.dataDir c.request nowMs draws with
    | error e =>
        rw [hrecord] at h
        cases h
        exact .reply c _
    | ok work =>
        rw [hrecord] at h
        cases h
        exact .submit hrecord
  · cases h
    exact findFirst_move fun _ _ => .reply c _
  · cases h
    exact findFirst_move .findResult
  · cases h
    exact findFirst_move .findAcknowledge
  · cases hid : metadataValue c.request "work_id" with
    | error e =>
        rw [hid] at h
        cases h
        exact .reply c _
    | ok id =>
        rw [hid] at h
        simp only at h
        cases hexec : (cancel id).exec faults s.store with
        | mk result store =>
            rw [hexec] at h
            rcases result with e | _ | state
            · cases h
              exact handle_cancel hexec _
            · cases h
              exact handle_cancel hexec _
            · cases h
              exact handle_cancel hexec _
  · cases h
    exact .reply c _

/-- The step of an `ACKNOWLEDGE` that calls `acknowledge`. -/
theorem proceed_acknowledge
    {cfg : Config} {s s' : System} {p : Process} {c : Connection} {work : WorkRecord}
    {faults : List (Option Bytes)} (hphase : p.handler = .acknowledgeFound c work)
    (h : s.proceed p faults = some s') :
  HandlerMove cfg s p s'
  := by
  simp only [proceed, hphase] at h
  cases hid : metadataValue c.request "work_id" with
  | error e =>
      rw [hid] at h
      cases h
      exact .reply c _
  | ok id =>
      rw [hid] at h
      simp only at h
      have hacts := acknowledge_acts id s.store
      have hresult := acknowledge_result id s.store
      rcases (acknowledge_atomic id).exec_cases faults s.store with
        ⟨e, hexec⟩ | ⟨acknowledged, store, hexec, heval⟩
      · rw [hexec] at h
        cases h
        exact .reply c _
      · rw [hexec] at h
        rw [heval] at hacts hresult
        cases acknowledged with
        | false =>
            cases h
            exact .act (Or.inr rfl) hacts
        | true =>
            cases h
            simp only [Except.ok.injEq] at hresult
            obtain ⟨w, hrow, hw⟩ := Option.any_eq_true _ _ |>.mp hresult.symm
            simp only [Bool.and_eq_true, decide_eq_true_eq] at hw
            exact .acknowledge hphase hid hrow hw.1 hacts

theorem proceed_move
    {cfg : Config} {s s' : System} {p : Process} {faults : List (Option Bytes)}
    (h : s.proceed p faults = some s') :
  HandlerMove cfg s p s'
  := by
  cases hphase : p.handler with
  | idle =>
      simp only [proceed, hphase] at h
      cases h
  | submitWriting c work =>
      simp only [proceed, hphase] at h
      cases h
      exact .write hphase
  | submitRenaming c work =>
      simp only [proceed, hphase, Option.map_eq_some_iff] at h
      obtain ⟨files, hrename, rfl⟩ := h
      exact .rename hphase hrename
  | submitStoring c work =>
      simp only [proceed, hphase] at h
      rcases (submit_atomic work).exec_cases faults s.store with
        ⟨e, hexec⟩ | ⟨⟨⟩, store, hexec, heval⟩
      · rw [hexec] at h
        cases h
        exact .reply c _
      · rw [hexec] at h
        cases h
        obtain ⟨hnew, hchecked, hview⟩ := submit_acts heval
        exact .accept hphase hnew hchecked hview
  | resultFound c work =>
      simp only [proceed, hphase] at h
      cases hreply : resultReply s.files c.request work with
      | error e =>
          rw [hreply] at h
          cases h
          exact .reply c _
      | ok frame =>
          rw [hreply] at h
          cases h
          exact .reply c _
  | acknowledgeFound c work => exact proceed_acknowledge hphase h
  | removingInput c work =>
      simp only [proceed, hphase] at h
      cases h
      exact .removeInput hphase
  | removingResult c work =>
      simp only [proceed, hphase] at h
      cases h
      exact .removeResult hphase

theorem handlerStep_move
    {cfg : Config} {s s' : System} {p : Process} {input : HandlerInput}
    (hprocess : s.process = some p) (h : s.handlerStep cfg p input = some s') :
  HandlerMove cfg s p s'
  := by
  cases input with
  | request c nowMs draws faults =>
      cases hphase : p.handler with
      | idle =>
          simp only [handlerStep, hphase] at h
          split_ifs at h
          exact handle_move h
      | _ =>
          simp only [handlerStep, hphase] at h
          cases h
  | write count =>
      cases hphase : p.handler with
      | submitWriting c work =>
          simp only [handlerStep, hphase] at h
          cases h
          have hsame : s.process = some { p with handler := .submitWriting c work } := by
            rw [hprocess, ← hphase]
          have hmove : HandlerMove cfg s p _ := .writePart count hphase
          rw [await, ← hsame] at hmove
          exact hmove
      | _ =>
          simp only [handlerStep, hphase] at h
          cases h
  | proceed faults => exact proceed_move h
  | throw text =>
      cases hphase : p.handler with
      | submitWriting c work =>
          simp only [handlerStep, hphase] at h
          cases h
          exact .reply c _
      | submitRenaming c work =>
          simp only [handlerStep, hphase] at h
          cases h
          exact .reply c _
      | removingInput c work =>
          simp only [handlerStep, hphase] at h
          cases h
          exact .keepInput hphase
      | removingResult c work =>
          simp only [handlerStep, hphase] at h
          cases h
          exact .reply c _
      | _ =>
          simp only [handlerStep, hphase] at h
          cases h

end System

/-! ### The system -/

/-- What a step of the system does. -/
inductive Move (cfg : Config) (s : System) : System → Prop where
  /-- A process starts, and recovers the Works that were running. -/
  | start {store : Store} {nowMs : Int64} (hprocess : s.process = none)
      (hacts : WorkAction.ActsEverywhere (.recover nowMs) s.store store) :
      Move cfg s (s.update store (some (System.freshProcess cfg)))
  /-- There is no process any more, or a start has failed. -/
  | gone : Move cfg s (s.update s.store none)
  | stop {p : Process} (hprocess : s.process = some p) :
      Move cfg s (s.update s.store (some { p with stop := true }))
  | scheduler {p : Process} {s' : System} (hprocess : s.process = some p)
      (hmove : SchedulerMove cfg s p s') : Move cfg s s'
  | task {p p' : Process} {before after : List Task} {t : Task} {input : TaskInput}
      {step : TaskStep} (hprocess : s.process = some p) (htasks : p.tasks = before ++ t :: after)
      (hmove : TaskMove s.store s.files t input step)
      (htasks' : p'.tasks = before ++ (step.next.map fun phase => { t with phase }).toList ++ after)
      (hscheduler : p'.scheduler = p.scheduler) (hhandler : p'.handler = p.handler) :
      Move cfg s
        { store := step.store
          files := step.files
          process := some p'
          history := { s.history with
            accepted := s.history.accepted ++ System.acceptedPayload t input } }
  | handler {p : Process} {s' : System} (hprocess : s.process = some p)
      (hmove : HandlerMove cfg s p s') : Move cfg s s'

namespace System

/-- The tasks after the step of one of them. -/
theorem nextTasks_tasks {p : Process} {i : Nat} {t : Task} (ht : p.tasks[i]? = some t)
    (next : Option TaskPhase) :
  ∃ before after, p.tasks = before ++ t :: after
    ∧ (nextTasks p i t next).tasks
      = before ++ (next.map fun phase => { t with phase }).toList ++ after
  := by
  obtain ⟨hi, rfl⟩ := List.getElem?_eq_some_iff.mp ht
  use p.tasks.take i, p.tasks.drop (i + 1)
  constructor
  · rw [← List.drop_eq_getElem_cons hi, List.take_append_drop]
  · cases next with
    | none => simp [nextTasks, List.eraseIdx_eq_take_drop_succ]
    | some phase => simp [nextTasks, List.set_eq_take_append_cons_drop, hi]

theorem attemptStep_move
    {cfg : Config} {s s' : System} {p : Process} {i : Nat} {input : TaskInput}
    (hprocess : s.process = some p) (h : s.attemptStep p i input = some s') :
  Move cfg s s'
  := by
  rw [attemptStep] at h
  cases ht : p.tasks[i]? with
  | none =>
      rw [ht] at h
      cases h
  | some t =>
      rw [ht] at h
      obtain ⟨step, hstep, rfl⟩ := Option.map_eq_some_iff.mp h
      obtain ⟨before, after, htasks, htasks'⟩ := nextTasks_tasks ht step.next
      refine .task hprocess htasks (taskStep_move hstep) htasks' ?_ ?_
      · cases step.next <;> rfl
      · cases step.next <;> rfl

/-- Every step is one of the moves. -/
theorem step_move {cfg : Config} {s s' : System} {e : Event} (h : s.step cfg e = some s') :
  Move cfg s s'
  := by
  cases hprocess : s.process with
  | none =>
      cases e with
      | start nowMs faults =>
          simp only [step, hprocess, Option.some.injEq] at h
          subst h
          rw [startStep]
          rcases (recoverInterrupted_atomic nowMs).exec_cases faults s.store with
            ⟨e, hexec⟩ | ⟨⟨⟩, store, hexec, heval⟩
          · rw [hexec]
            exact .gone
          · rw [hexec]
            have hacts := recoverInterrupted_acts nowMs s.store
            rw [heval] at hacts
            exact .start hprocess hacts
      | _ =>
          simp only [step, hprocess] at h
          cases h
  | some p =>
      cases e with
      | start nowMs faults =>
          simp only [step, hprocess] at h
          cases h
      | crash =>
          simp only [step, hprocess] at h
          cases h
          exact .gone
      | stop =>
          simp only [step, hprocess] at h
          cases h
          exact .stop hprocess
      | scheduler input =>
          simp only [step, hprocess] at h
          exact .scheduler hprocess (schedulerStep_move h)
      | task i input =>
          simp only [step, hprocess] at h
          exact attemptStep_move hprocess h
      | handler input =>
          simp only [step, hprocess] at h
          exact .handler hprocess (handlerStep_move hprocess h)

end System

end Kernel
