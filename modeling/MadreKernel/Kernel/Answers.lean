import MadreKernel.Kernel.Choice
import MadreKernel.Kernel.Records
import MadreKernel.Kernel.Serving
import MadreKernel.Store.Rows

/-!
# Answers to `STATUS`

The failure of a Work comes from outside the Kernel: from a worker, from an exception, or from the
Work type that a client names.  The decoder accepts texts that the encoder refuses, so a failure
with CR or LF, or one that fills the metadata, makes the reply to `STATUS` unencodable.  When every
text that comes in is plain and fits, `STATUS` about a Work is answered in every state of the run.
-/

namespace Kernel

open Wire WorkStore

/-! ### Texts that a reply can carry -/

/-- The reply to `STATUS` can carry a failure text with a state. -/
def FitsIn (state : WorkState) (text : CString) : Prop :=
  plainText text.toBytes = true
    ∧ (stateText state).length + text.toBytes.length + 26 ≤ kMaxMetadata

instance (state : WorkState) (text : CString) : Decidable (FitsIn state text) :=
  inferInstanceAs (Decidable (_ ∧ _))

/-- The reply to `STATUS` about a failed Work can carry a text, as the database stores it. -/
def presentable (text : Bytes) : Bool := decide (FitsIn .failed (bindText text))

def executionText (text : Bytes) : Bytes := Bytes.ofString "WORKER_EXECUTION_FAILURE: " ++ text

def launchText (text : Bytes) : Bytes := Bytes.ofString "WORKER_LAUNCH_FAILURE: " ++ text

def noEngineText (workType : Bytes) : Bytes :=
  Bytes.ofString "NO_ELIGIBLE_ENGINE: no engine supports Work type " ++ workType

/-- An engine supports a Work type. -/
def supported (cfg : Config) (workType : Bytes) : Bool :=
  cfg.inventory.any fun engine => engine.workTypes.contains workType

/-! ### Texts that come in -/

/-- The failure texts that a step of an attempt task brings in: what the worker answers, and the
exceptions of its calls. -/
def taskTexts (stop : Bool) (files : Files) (t : Task) : TaskInput → List Bytes
  | .outcome (.technicalFailure text) => [text]
  | .outcome (.crashed text) => [text]
  | .outcome (.timedOut text) => [text]
  | .outcome _ => []
  | .throw text => [executionText text]
  | .write _ => []
  | .proceed _ faults =>
      match t.phase with
      | .starting =>
          if stop then []
          else
            match readBinaryBounded files t.work.inputPath with
            | .error text => [executionText text]
            | .ok _ => []
      | .settling _ | .checking _ | .committing _ => (faults.filterMap id).map executionText
      | _ => []

/-- The failure texts that a step of the scheduler brings in: the exception of the worker pool. -/
def schedulerTexts (p : Process) (input : SchedulerInput) : List Bytes :=
  match p.scheduler, input.launch with
  | .launching .., .error text => [launchText text]
  | _, _ => []

/-- The failure texts that a step of the handler brings in: when it accepts a `SUBMIT`, the one
about a Work type that no engine supports. -/
def handlerTexts (cfg : Config) (store : Store) (faults : List (Option Bytes)) :
    HandlerPhase → List Bytes
  | .submitStoring _ work =>
      if supported cfg (bindText work.workType).toBytes then []
      else if (submit work).returns faults store then
        [noEngineText (bindText work.workType).toBytes]
      else []
  | _ => []

/-- The failure texts that an event brings in. -/
def incomingTexts (cfg : Config) (s : System) (e : System.Event) : List Bytes :=
  match s.process, e with
  | some p, .scheduler input => schedulerTexts p input
  | some p, .task i input => (p.tasks[i]?).elim [] fun t => taskTexts p.stop s.files t input
  | some p, .handler (.proceed faults) => handlerTexts cfg s.store faults p.handler
  | _, _ => []

/-- Every failure text that an event brings in can be presented. -/
def plainEvent (cfg : Config) (s : System) (e : System.Event) : Bool :=
  (incomingTexts cfg s e).all presentable

/-! ### Rows -/

/-- The Work type of a Work is supported, or the failure that says that it is not can be
presented. -/
def TypeFits (cfg : Config) (workType : Bytes) : Prop :=
  supported cfg workType = true ∨ presentable (noEngineText workType) = true

/-- `STATUS` about a row can be answered, and its Work type makes no failure that cannot. -/
structure RowFits (cfg : Config) (w : Row) : Prop where
  failure : FitsIn w.state w.technicalFailure
  workType : TypeFits cfg w.workType.toBytes

variable {cfg : Config} {w : Row}

theorem fitsIn_of_presentable {text : Bytes} (h : presentable text = true) :
  FitsIn .failed (bindText text) ∧ FitsIn .queued (bindText text)
  := by
  have hfailed : FitsIn .failed (bindText text) := of_decide_eq_true h
  have hlength : (stateText .queued).length = (stateText .failed).length := by
    decide +kernel
  refine ⟨hfailed, hfailed.1, ?_⟩
  rw [hlength]
  exact hfailed.2

/-- The failures that the statements of the store write of their own accord. -/
def storeTexts : List String :=
  ["", "cancelled", "cancelled before restart recovery", "Kernel restarted during active attempt",
    "DEADLINE_EXPIRED: Work deadline expired before dispatch"]

theorem fitsIn_sqlText {text : String} (h : text ∈ storeTexts) (state : WorkState) :
  FitsIn state (sqlText text)
  := by
  obtain ⟨hplain, hlength⟩ :
      plainText (sqlText text).toBytes = true ∧ (sqlText text).toBytes.length ≤ 128 := by
    simp only [storeTexts, List.mem_cons, List.not_mem_nil, or_false] at h
    rcases h with rfl | rfl | rfl | rfl | rfl
    all_goals decide +kernel
  have hstate := (Serving.stateText_plain state).2
  refine ⟨hplain, ?_⟩
  rw [kMaxMetadata]
  omega

theorem RowFits.setState {state : WorkState} {text : CString} (h : RowFits cfg w)
    (htext : FitsIn state text) :
  RowFits cfg ((WorkStore.setState state text).apply w)
  := ⟨htext, h.workType⟩

theorem RowFits.failureVerdict {cancelText failureText : CString} (h : RowFits cfg w)
    (hcancel : FitsIn .cancelled cancelText) (hfailed : FitsIn .failed failureText)
    (hqueued : FitsIn .queued failureText) (work : WorkRecord) (nowMs : Int64) :
  RowFits cfg ((WorkStore.failureVerdict work nowMs cancelText failureText).apply w)
  := by
  rw [WorkStore.failureVerdict]
  split_ifs
  · exact h.setState hcancel
  · exact ⟨hqueued, h.workType⟩
  · exact h.setState hfailed

/-- Every row can be answered about. -/
abbrev StoreFits (cfg : Config) (store : Store) : Prop := store.EveryRow (RowFits cfg)

theorem failQueued_fits (id : Bytes) {text : Bytes} (h : presentable text = true) :
  (failQueued id text).Preserves (StoreFits cfg)
  := failQueued_preserves id fun _ hw => hw.setState (fitsIn_of_presentable h).1

theorem expireQueuedDeadlines_fits (nowMs : Int64) :
  (expireQueuedDeadlines nowMs).Preserves (StoreFits cfg)
  := by
  apply expireQueuedDeadlines_preserves
  intro w hw
  apply hw.setState
  apply fitsIn_sqlText
  simp [storeTexts]

theorem beginAttempt_fits (id engineId modelId : Bytes) (startedAtMs : Int64) :
  (beginAttempt id engineId modelId startedAtMs).Preserves (StoreFits cfg)
  := by
  apply beginAttempt_preserves
  intro number w hw
  refine ⟨?_, hw.workType⟩
  show FitsIn .running (sqlText "")
  apply fitsIn_sqlText
  simp [storeTexts]

theorem finishRetryableFailure_fits (id : Bytes) (attemptNumber : Int32)
    (attemptState : AttemptState) {text : Bytes} (endedAtMs : Int64)
    (h : presentable text = true) :
  (finishRetryableFailure id attemptNumber attemptState text endedAtMs).Preserves (StoreFits cfg)
  := by
  apply finishRetryableFailure_preserves
  intro work w hw
  obtain ⟨hfailed, hqueued⟩ := fitsIn_of_presentable h
  apply hw.failureVerdict _ hfailed hqueued
  apply fitsIn_sqlText
  simp [storeTexts]

theorem recoverInterrupted_fits (nowMs : Int64) :
  (recoverInterrupted nowMs).Preserves (StoreFits cfg)
  := by
  apply recoverInterrupted_preserves
  intro work w hw
  apply hw.failureVerdict
  all_goals
    apply fitsIn_sqlText
    simp [storeTexts]

theorem cancel_fits (id : Bytes) :
  (cancel id).Preserves (StoreFits cfg)
  := by
  apply cancel_preserves
  · intro w hw
    refine ⟨?_, hw.workType⟩
    show FitsIn .cancelled (sqlText "cancelled")
    apply fitsIn_sqlText
    simp [storeTexts]
  · intro w hw
    exact ⟨hw.failure, hw.workType⟩

theorem acknowledge_fits (id : Bytes) :
  (acknowledge id).Preserves (StoreFits cfg)
  := acknowledge_preserves id fun _ hw => ⟨hw.failure, hw.workType⟩

theorem submit_fits {work : WorkRecord}
    (h : TypeFits cfg (bindText work.workType).toBytes) :
  (submit work).Preserves (StoreFits cfg)
  := by
  apply submit_preserves
  refine ⟨?_, h⟩
  show FitsIn work.state (sqlText "")
  apply fitsIn_sqlText
  simp [storeTexts]

theorem settle_fits {t : Task} (nowMs : Int64) {settlement : Settlement}
    (h : ∀ attemptState text, settlement = .failure attemptState text → presentable text = true) :
  (settle t nowMs settlement).Preserves (StoreFits cfg)
  := by
  cases settlement with
  | cancelled =>
      apply finish_preserves
      intro w hw
      apply hw.setState
      apply fitsIn_sqlText
      simp [storeTexts]
  | failure attemptState text =>
      exact finishRetryableFailure_fits _ _ _ _ (h attemptState text rfl)

theorem finishSuccess_fits (id : Bytes) (attemptNumber : Int32) (endedAtMs : Int64) :
  (finishSuccess id attemptNumber endedAtMs).Preserves (StoreFits cfg)
  := by
  apply finish_preserves
  intro w hw
  apply hw.setState
  apply fitsIn_sqlText
  simp [storeTexts]

/-! ### The failures of the selection -/

/-- The failures of the Kernel's own that the scheduler and the tasks write. -/
def ownTexts : List Bytes :=
  [Bytes.ofString "NO_ELIGIBLE_ENGINE: required capabilities are not satisfied",
    Bytes.ofString "NO_ELIGIBLE_ENGINE: eligible engine allowlist excluded all compatible engines",
    Bytes.ofString "EXACT_SELECTION_UNSATISFIED: exact engine/model constraint did not match",
    Bytes.ofString "NO_ELIGIBLE_ENGINE: compatible engines are unavailable",
    deadlineText, capacityText, executionText tooLarge,
    executionText (Bytes.ofString "retryable attempt state must be FAILED or TIMED_OUT")]
    ++ [Effort.standard, Effort.high].map fun effort =>
      Bytes.ofString "NO_ELIGIBLE_ENGINE: requested effort " ++ effortText effort
        ++ Bytes.ofString " is unsupported"

theorem presentable_of_mem_ownTexts {text : Bytes} (h : text ∈ ownTexts) :
  presentable text = true
  := by
  simp only [ownTexts, List.map_cons, List.map_nil, List.cons_append, List.nil_append,
    List.mem_cons, List.not_mem_nil, or_false] at h
  rcases h with rfl | rfl | rfl | rfl | rfl | rfl | rfl | rfl | rfl | rfl
  all_goals decide +kernel

/-- The selection fails with a text of its own, or because no engine supports the Work type. -/
theorem selectEngine_failure
    {work : WorkRecord} {failure : Bytes} (h : selectEngine work cfg.inventory = .error failure) :
  presentable failure = true
    ∨ failure = noEngineText work.workType ∧ supported cfg work.workType = false
  := by
  obtain ⟨stage, ⟨n, hstage, hblocked, -⟩, rfl⟩ := (selectEngine_eq_error_iff failure).mp h
  cases stage with
  | workType =>
      have hfirst : 0 < SelectionStage.order.length := Nat.succ_pos 5
      obtain rfl : 0 = n := (List.getElem?_inj hfirst SelectionStage.nodup_order).mp hstage.symm
      right
      refine ⟨rfl, ?_⟩
      rw [supported, List.any_eq_false]
      intro engine hengine hsupported
      apply hblocked
      use engine, hengine
      rw [SelectionStage.order, List.take_succ_cons, List.take_zero, List.forall_mem_singleton]
      exact List.contains_iff_mem.mp hsupported
  | effort =>
      left
      apply presentable_of_mem_ownTexts
      rw [SelectionStage.failure]
      cases work.effort with
      | _ => simp [ownTexts]
  | _ =>
      left
      apply presentable_of_mem_ownTexts
      simp [ownTexts, SelectionStage.failure]

theorem presentable_of_selectEngine
    {work : WorkRecord} {failure : Bytes} (hwork : TypeFits cfg work.workType)
    (h : selectEngine work cfg.inventory = .error failure) :
  presentable failure = true
  := by
  rcases selectEngine_failure h with hown | ⟨rfl, hnone⟩
  · exact hown
  · rcases hwork with hsome | htext
    · rw [hnone] at hsome
      cases hsome
    · exact htext

/-! ### Threads -/

/-- The failure that the phase of an attempt task holds can be presented. -/
def TaskFits : TaskPhase → Prop
  | .settling (.failure _ text) => presentable text = true
  | .handling text => presentable (executionText text) = true
  | _ => True

/-- The Work that the scheduler dispatches has a fitting type. -/
def SchedulerFits (cfg : Config) : SchedulerPhase → Prop
  | .dispatching _ work => TypeFits cfg work.workType
  | _ => True

structure ProcessFits (cfg : Config) (p : Process) : Prop where
  scheduler : SchedulerFits cfg p.scheduler
  tasks : ∀ t ∈ p.tasks, TaskFits t.phase

structure SystemFits (cfg : Config) (s : System) : Prop where
  store : StoreFits cfg s.store
  process : ∀ p, s.process = some p → ProcessFits cfg p

variable {s s' : System} {p : Process}

/-- A store call of the scheduler. -/
theorem schedulerCall_fits
    {α : Type} {program : StoreProgram α} (hprogram : program.Preserves (StoreFits cfg))
    {faults : List (Option Bytes)} {next : α → Process} (hs : StoreFits cfg s.store)
    (hnext : ∀ a store, program.exec faults s.store = (.ok a, store) → ProcessFits cfg (next a)) :
  SystemFits cfg (s.schedulerCall program faults next)
  := by
  have hstore := hprogram.exec faults hs
  rw [System.schedulerCall]
  split
  next a store hexec =>
    rw [hexec] at hstore
    refine ⟨hstore, ?_⟩
    rintro p ⟨⟩
    exact hnext a store hexec
  next e store hexec =>
    rw [hexec] at hstore
    refine ⟨hstore, ?_⟩
    rintro p ⟨⟩

theorem ProcessFits.turn {scheduler : SchedulerPhase} {resources : ResourceManager}
    (hp : ProcessFits cfg p) (hscheduler : SchedulerFits cfg scheduler) :
  ProcessFits cfg { p with scheduler, resources }
  := ⟨hscheduler, hp.tasks⟩

theorem schedulerStep_fits
    {input : SchedulerInput} (hs : StoreFits cfg s.store) (hp : ProcessFits cfg p)
    (htexts : ∀ text ∈ schedulerTexts p input, presentable text = true)
    (h : s.schedulerStep cfg p input = some s') :
  SystemFits cfg s'
  := by
  rw [System.schedulerStep] at h
  split at h
  next hphase =>
    split_ifs at h
    · cases h
      refine ⟨hs, ?_⟩
      rintro p' ⟨⟩
      exact hp.turn trivial
    · cases h
      exact schedulerCall_fits (expireQueuedDeadlines_fits _) hs fun _ _ _ => hp.turn trivial
  next schedulerNow hphase =>
    cases h
    apply schedulerCall_fits (.query _) hs
    intro found store hexec
    cases found with
    | none => exact hp.turn trivial
    | some work =>
        have heval := Session.eval_of_exec hexec
        rw [Session.eval_query] at heval
        obtain ⟨row, hrow, rfl⟩ := Option.map_eq_some_iff.mp (Except.ok.inj (Prod.mk.inj heval).1)
        have hmem := List.mem_of_mem_filter (System.earliest_mem hrow)
        exact hp.turn (hs row hmem).workType
  next schedulerNow work hphase =>
    have hwork : TypeFits cfg work.workType := by
      have hscheduler := hp.scheduler
      rw [hphase] at hscheduler
      exact hscheduler
    have hfail : ∀ text, presentable text = true →
        SystemFits cfg (s.schedulerCall (failQueued work.id text) input.faults fun _ =>
          { p with scheduler := .sweeping }) := by
      intro text htext
      exact schedulerCall_fits (failQueued_fits _ htext) hs fun _ _ _ => hp.turn trivial
    have hgone : SystemFits cfg { s with process := none } := by
      refine ⟨hs, ?_⟩
      rintro p' ⟨⟩
    simp only at h
    split_ifs at h
    · cases h
      exact hfail _ (presentable_of_mem_ownTexts (by simp [ownTexts]))
    · split at h
      next failure hselect =>
        cases h
        exact hfail _ (presentable_of_selectEngine hwork hselect)
      next selection hselect =>
        split at h
        · cases h
          exact hgone
        · cases h
          exact hfail _ (presentable_of_mem_ownTexts (by simp [ownTexts]))
        · split at h
          · cases h
            exact hgone
          · cases h
            refine ⟨hs, ?_⟩
            rintro p' ⟨⟩
            exact hp.turn trivial
          · cases h
            refine ⟨hs, ?_⟩
            rintro p' ⟨⟩
            exact hp.turn trivial
  next work selection hphase =>
    simp only at h
    split_ifs at h
    · cases h
      have htext := presentable_of_mem_ownTexts (show deadlineText ∈ ownTexts by simp [ownTexts])
      apply schedulerCall_fits (failQueued_fits _ htext) hs
      exact fun _ _ _ => hp.turn trivial
    · cases h
      apply schedulerCall_fits (beginAttempt_fits _ _ _ _) hs
      intro attemptNumber _ _
      split_ifs
      · exact hp.turn trivial
      · exact ⟨trivial, hp.tasks⟩
  next work selection attemptNumber startedAtMs hphase =>
    split at h
    next text hlaunch =>
      cases h
      have htext : presentable (launchText text) = true := by
        apply htexts
        rw [schedulerTexts, hphase, hlaunch]
        exact List.mem_singleton_self _
      apply schedulerCall_fits (finishRetryableFailure_fits _ _ _ _ htext) hs
      exact fun _ _ _ => hp.turn trivial
    next hlaunch =>
      cases h
      refine ⟨hs, ?_⟩
      rintro p' ⟨⟩
      refine ⟨trivial, ?_⟩
      intro t ht
      rcases List.mem_append.mp ht with ht | ht
      · exact hp.tasks t ht
      · rw [List.mem_singleton.mp ht]
        trivial
  next => cases h

/-! ### Attempt tasks -/

theorem afterCall_fits {α : Type} {result : Except Bytes α} {next : α → Option TaskPhase}
    (herror : ∀ e, result = .error e → presentable (executionText e) = true)
    (hok : ∀ a, result = .ok a → ∀ phase ∈ next a, TaskFits phase) :
  ∀ phase ∈ afterCall result next, TaskFits phase
  := by
  intro phase hphase
  cases result with
  | error e =>
      cases hphase
      exact herror e rfl
  | ok a => exact hok a rfl phase hphase

/-- What a store call of a task throws is a fault, or has a text of the Kernel's own. -/
theorem presentable_of_raisesOnly
    {α : Type} {program : StoreProgram α} {faults : List (Option Bytes)} {store : Store} {e : Bytes}
    (hprogram : program.RaisesOnly fun e => presentable (executionText e) = true)
    (hfaults : ∀ text ∈ (faults.filterMap id).map executionText, presentable text = true)
    (h : (program.exec faults store).1 = .error e) :
  presentable (executionText e) = true
  := by
  have hexec : program.exec faults store = (.error e, (program.exec faults store).2) := by
    rw [← h]
  rcases hprogram.exec hexec with hmem | hown
  · apply hfaults
    apply List.mem_map_of_mem
    exact List.mem_filterMap.mpr ⟨some e, hmem, rfl⟩
  · exact hown

theorem settle_raisesOnly (t : Task) (nowMs : Int64) (settlement : Settlement) :
  (settle t nowMs settlement).RaisesOnly fun e => presentable (executionText e) = true
  := by
  cases settlement with
  | cancelled => apply finish_raisesOnly
  | failure attemptState text =>
      apply finishRetryableFailure_raisesOnly
      apply presentable_of_mem_ownTexts
      simp [ownTexts]

theorem taskStep_fits
    {stop : Bool} {store : Store} {files : Files} {t : Task} {input : TaskInput} {step : TaskStep}
    (hs : StoreFits cfg store) (ht : TaskFits t.phase)
    (htexts : ∀ text ∈ taskTexts stop files t input, presentable text = true)
    (h : taskStep stop store files t input = some step) :
  StoreFits cfg step.store ∧ ∀ phase ∈ step.next, TaskFits phase
  := by
  cases input with
  | proceed nowMs faults =>
      cases hphase : t.phase with
      | starting =>
          simp only [taskStep, taskTexts, hphase] at h htexts
          split_ifs at h htexts with hstop
          · cases h
            exact ⟨hs, by simp⟩
          · cases h
            refine ⟨hs, afterCall_fits ?_ ?_⟩
            · intro e he
              rw [he] at htexts
              exact htexts _ (List.mem_singleton_self _)
            · rintro a - phase ⟨⟩
              trivial
      | executing input =>
          simp only [taskStep, hphase] at h
          cases h
      | settling settlement =>
          simp only [taskStep, taskTexts, hphase] at h htexts
          cases h
          rw [hphase] at ht
          constructor
          · apply (settle_fits nowMs _).exec faults hs
            rintro attemptState text rfl
            exact ht
          · apply afterCall_fits
            · intro e he
              exact presentable_of_raisesOnly (settle_raisesOnly t nowMs settlement) htexts he
            · rintro a - phase ⟨⟩
      | checking payload =>
          simp only [taskStep, taskTexts, hphase] at h htexts
          cases h
          constructor
          · exact (Session.Preserves.query _).exec faults hs
          · apply afterCall_fits
            · intro e he
              exact presentable_of_raisesOnly (.query _) htexts he
            · rintro cancelled - phase ⟨⟩
              split_ifs
              all_goals trivial
      | writing payload =>
          simp only [taskStep, hphase] at h
          split_ifs at h
          · cases h
            refine ⟨hs, ?_⟩
            rintro phase ⟨⟩
            show presentable (executionText tooLarge) = true
            apply presentable_of_mem_ownTexts
            simp [ownTexts]
          · cases h
            refine ⟨hs, ?_⟩
            rintro phase ⟨⟩
            trivial
      | moving payload =>
          simp only [taskStep, hphase] at h
          obtain ⟨files', -, rfl⟩ := Option.map_eq_some_iff.mp h
          refine ⟨hs, ?_⟩
          rintro phase ⟨⟩
          trivial
      | committing payload =>
          simp only [taskStep, taskTexts, hphase] at h htexts
          cases h
          constructor
          · exact (finishSuccess_fits _ _ _).exec faults hs
          · apply afterCall_fits
            · intro e he
              exact presentable_of_raisesOnly (finish_raisesOnly _ _ _ _ _ _) htexts he
            · rintro a - phase ⟨⟩
      | handling text =>
          simp only [taskStep, hphase] at h
          rw [hphase] at ht
          split_ifs at h
          · cases h
            exact ⟨hs, by simp⟩
          · cases h
            exact ⟨(finishRetryableFailure_fits _ _ _ _ ht).exec faults hs, by simp⟩
  | outcome outcome =>
      simp only [taskStep] at h
      split at h
      · cases h
        refine ⟨hs, ?_⟩
        cases outcome with
        | succeeded payload =>
            rintro phase ⟨⟩
            trivial
        | technicalFailure text =>
            rintro phase ⟨⟩
            exact htexts text (List.mem_singleton_self _)
        | crashed text =>
            rintro phase ⟨⟩
            exact htexts text (List.mem_singleton_self _)
        | cancelled =>
            rintro phase ⟨⟩
            trivial
        | timedOut text =>
            rintro phase ⟨⟩
            exact htexts text (List.mem_singleton_self _)
        | stopped =>
            rintro phase ⟨⟩
      · cases h
  | write count =>
      simp only [taskStep] at h
      split at h
      · split_ifs at h
        cases h
        refine ⟨hs, ?_⟩
        rintro phase ⟨⟩
        exact ht
      · cases h
  | throw text =>
      have htext : presentable (executionText text) = true :=
        htexts _ (List.mem_singleton_self _)
      have hnext : StoreFits cfg store ∧ ∀ phase ∈ some (TaskPhase.handling text),
          TaskFits phase := by
        refine ⟨hs, ?_⟩
        rintro phase ⟨⟩
        exact htext
      simp only [taskStep] at h
      split at h
      · cases h
        exact hnext
      · cases h
        exact hnext
      · cases h
        exact hnext
      · cases h

theorem attemptStep_fits
    {i : Nat} {input : TaskInput} (hs : StoreFits cfg s.store) (hp : ProcessFits cfg p)
    (htexts : ∀ text ∈ (p.tasks[i]?).elim [] fun t => taskTexts p.stop s.files t input,
      presentable text = true)
    (h : s.attemptStep p i input = some s') :
  SystemFits cfg s'
  := by
  rw [System.attemptStep] at h
  cases ht : p.tasks[i]? with
  | none =>
      rw [ht] at h
      cases h
  | some t =>
      rw [ht] at h htexts
      obtain ⟨step, hstep, rfl⟩ := Option.map_eq_some_iff.mp h
      obtain ⟨hstore, hnext⟩ :=
        taskStep_fits hs (hp.tasks t (List.mem_of_getElem? ht)) htexts hstep
      refine ⟨hstore, ?_⟩
      rintro p' ⟨⟩
      cases hphase : step.next with
      | none =>
          refine ⟨hp.scheduler, ?_⟩
          intro t' ht'
          exact hp.tasks t' (List.mem_of_mem_eraseIdx ht')
      | some phase =>
          refine ⟨hp.scheduler, ?_⟩
          intro t' ht'
          rcases List.mem_or_eq_of_mem_set ht' with ht' | rfl
          · exact hp.tasks t' ht'
          · exact hnext phase hphase

/-! ### Requests -/

theorem reply_fits {store : Store} {files : Files} {c : Connection} {frame : Frame}
    (hstore : StoreFits cfg store) (hp : ProcessFits cfg p) :
  SystemFits cfg (s.reply p store files c frame)
  := by
  refine ⟨hstore, ?_⟩
  rintro p' ⟨⟩
  exact ⟨hp.scheduler, hp.tasks⟩

theorem await_fits {handler : HandlerPhase} (hs : StoreFits cfg s.store) (hp : ProcessFits cfg p) :
  SystemFits cfg (s.await p handler)
  := by
  refine ⟨hs, ?_⟩
  rintro p' ⟨⟩
  exact ⟨hp.scheduler, hp.tasks⟩

theorem findFirst_fits {c : Connection} {faults : List (Option Bytes)}
    {found : WorkRecord → System} (hs : StoreFits cfg s.store) (hp : ProcessFits cfg p)
    (hfound : ∀ work, SystemFits cfg (found work)) :
  SystemFits cfg (s.findFirst p c faults found)
  := by
  rw [System.findFirst]
  split
  · exact reply_fits hs hp
  · split
    · exact reply_fits hs hp
    · exact reply_fits hs hp
    · exact hfound _

/-- The Work type of a Work that is stored, when the texts that come in can be presented. -/
theorem typeFits_of_handlerTexts
    {c : Connection} {work : WorkRecord} {store : Store} {faults : List (Option Bytes)}
    (hreturns : (submit work).returns faults store = true)
    (htexts : ∀ text ∈ handlerTexts cfg store faults (.submitStoring c work),
      presentable text = true) :
  TypeFits cfg (bindText work.workType).toBytes
  := by
  rw [handlerTexts, hreturns, if_pos rfl] at htexts
  split_ifs at htexts with hsupported
  · exact Or.inl hsupported
  · exact Or.inr (htexts _ (List.mem_singleton_self _))

theorem handle_fits
    {c : Connection} {nowMs : Int64} {draws : UInt64 × UInt64} {faults : List (Option Bytes)}
    (hs : StoreFits cfg s.store) (hp : ProcessFits cfg p)
    (h : s.handle cfg p c nowMs draws faults = some s') :
  SystemFits cfg s'
  := by
  rw [System.handle] at h
  split_ifs at h with hsubmit hlarge
  · cases h
    exact reply_fits hs hp
  · split at h
    · cases h
      exact reply_fits hs hp
    next work hrecord =>
      cases h
      exact await_fits hs hp
  · cases h
    exact findFirst_fits hs hp fun _ => reply_fits hs hp
  · cases h
    exact findFirst_fits hs hp fun _ => await_fits hs hp
  · cases h
    exact findFirst_fits hs hp fun _ => await_fits hs hp
  · split at h
    · cases h
      exact reply_fits hs hp
    next id hid =>
      have hstore : StoreFits cfg _ := (cancel_fits id).exec faults hs
      split at h
      next e store hexec =>
        cases h
        rw [hexec] at hstore
        exact reply_fits hstore hp
      next store hexec =>
        cases h
        rw [hexec] at hstore
        exact reply_fits hstore hp
      next state store hexec =>
        cases h
        rw [hexec] at hstore
        exact reply_fits hstore hp
  · cases h
    exact reply_fits hs hp

theorem proceed_fits
    {faults : List (Option Bytes)} (hs : StoreFits cfg s.store) (hp : ProcessFits cfg p)
    (htexts : ∀ text ∈ handlerTexts cfg s.store faults p.handler, presentable text = true)
    (h : s.proceed p faults = some s') :
  SystemFits cfg s'
  := by
  rw [System.proceed] at h
  split at h
  next => cases h
  next c work hphase =>
    cases h
    exact await_fits hs hp
  next c work hphase =>
    obtain ⟨files, -, rfl⟩ := Option.map_eq_some_iff.mp h
    exact await_fits hs hp
  next c work hphase =>
    split at h
    next e store hexec =>
      cases h
      rw [submit_atomic work _ _ _ _ hexec]
      exact reply_fits hs hp
    next store hexec =>
      cases h
      rw [hphase] at htexts
      have htype := typeFits_of_handlerTexts (Session.returns_of_exec hexec) htexts
      have hstore := (submit_fits htype).exec faults hs
      rw [hexec] at hstore
      refine ⟨hstore, ?_⟩
      rintro p' ⟨⟩
      exact ⟨hp.scheduler, hp.tasks⟩
  next c work hphase =>
    split at h
    · cases h
      exact reply_fits hs hp
    · cases h
      exact reply_fits hs hp
  next c work hphase =>
    split at h
    · cases h
      exact reply_fits hs hp
    next id hid =>
      have hstore : StoreFits cfg _ := (acknowledge_fits id).exec faults hs
      split at h
      next e store hexec =>
        cases h
        rw [hexec] at hstore
        exact reply_fits hstore hp
      next store hexec =>
        cases h
        rw [hexec] at hstore
        exact reply_fits hstore hp
      next store hexec =>
        cases h
        rw [hexec] at hstore
        exact await_fits hstore hp
  next c work hphase =>
    cases h
    exact await_fits hs hp
  next c work hphase =>
    cases h
    exact reply_fits hs hp

theorem handlerStep_fits
    {input : System.HandlerInput} (hprocess : s.process = some p) (hs : StoreFits cfg s.store)
    (hp : ProcessFits cfg p)
    (htexts : ∀ faults, input = .proceed faults →
      ∀ text ∈ handlerTexts cfg s.store faults p.handler, presentable text = true)
    (h : s.handlerStep cfg p input = some s') :
  SystemFits cfg s'
  := by
  cases input with
  | request c nowMs draws faults =>
      simp only [System.handlerStep] at h
      split at h
      · split_ifs at h
        exact handle_fits hs hp h
      · cases h
  | write count =>
      simp only [System.handlerStep] at h
      split at h
      · cases h
        refine ⟨hs, ?_⟩
        intro p' hp'
        cases hprocess.symm.trans hp'
        exact hp
      · cases h
  | proceed faults => exact proceed_fits hs hp (htexts faults rfl) h
  | throw text =>
      simp only [System.handlerStep] at h
      split at h
      · cases h
        exact reply_fits hs hp
      · cases h
        exact reply_fits hs hp
      · cases h
        exact await_fits hs hp
      · cases h
        exact reply_fits hs hp
      · cases h

/-! ### Runs -/

theorem step_fits
    {e : System.Event} (h : SystemFits cfg s) (hplain : plainEvent cfg s e = true)
    (hstep : s.step cfg e = some s') :
  SystemFits cfg s'
  := by
  rw [plainEvent, List.all_eq_true] at hplain
  cases hprocess : s.process with
  | none =>
      cases e with
      | start nowMs faults =>
          simp only [System.step, hprocess, Option.some.injEq] at hstep
          subst hstep
          have hstore : StoreFits cfg _ := (recoverInterrupted_fits nowMs).exec faults h.store
          rw [System.startStep]
          split
          next store hexec =>
            rw [hexec] at hstore
            refine ⟨hstore, ?_⟩
            rintro p ⟨⟩
            exact ⟨trivial, by simp [System.freshProcess]⟩
          next e store hexec =>
            rw [hexec] at hstore
            refine ⟨hstore, ?_⟩
            rintro p ⟨⟩
      | _ =>
          simp only [System.step, hprocess] at hstep
          cases hstep
  | some p =>
      have hp := h.process p hprocess
      simp only [incomingTexts, hprocess] at hplain
      cases e with
      | start nowMs faults =>
          simp only [System.step, hprocess] at hstep
          cases hstep
      | crash =>
          simp only [System.step, hprocess] at hstep
          cases hstep
          refine ⟨h.store, ?_⟩
          rintro p' ⟨⟩
      | stop =>
          simp only [System.step, hprocess] at hstep
          cases hstep
          refine ⟨h.store, ?_⟩
          rintro p' ⟨⟩
          exact ⟨hp.scheduler, hp.tasks⟩
      | scheduler input =>
          simp only [System.step, hprocess] at hstep
          exact schedulerStep_fits h.store hp hplain hstep
      | task i input =>
          simp only [System.step, hprocess] at hstep
          exact attemptStep_fits h.store hp hplain hstep
      | handler input =>
          simp only [System.step, hprocess] at hstep
          apply handlerStep_fits hprocess h.store hp _ hstep
          rintro faults rfl
          exact hplain

theorem initial_fits (h : System.Initial s) :
  SystemFits cfg s
  := by
  obtain ⟨hstore, hprocess, -⟩ := h
  constructor
  · rw [hstore]
    intro w hw
    cases hw
  · intro p hp
    rw [hprocess] at hp
    cases hp

/-- A `STATUS` request about a row is answered with what `status` replies. -/
theorem step_status
    (hprocess : s.process = some p) (hidle : p.handler = .idle) (hstop : p.stop = false)
    {c : Connection} {workId : Bytes} {w : Row} (htype : c.request.type = MessageType.status.code)
    (hid : metadataValue c.request "work_id" = .ok workId)
    (hrow : s.store.row? (bindText workId) = some w) (nowMs : Int64) (draws : UInt64 × UInt64) :
  s.step cfg (.handler (.request c nowMs draws []))
    = some (s.reply p s.store s.files c (statusReply c.request (readWork w)))
  := by
  have hfind : (find workId).exec [] s.store = (.ok (some (readWork w)), s.store) := by
    have heval : (find workId).eval s.store = (.ok (some (readWork w)), s.store) := by
      rw [find, Session.eval_query, hrow]
      rfl
    exact heval
  simp only [System.step, hprocess, System.handlerStep, hidle, hstop, Bool.false_eq_true, if_false]
  rw [System.handle, htype, if_neg (by decide), if_pos rfl]
  simp only [System.findFirst, hid, hfind]

theorem statusReply_fields (request : Frame) (work : WorkRecord) :
  (statusReply request work).type = MessageType.statusResponse.code
    ∧ (statusReply request work).correlationId = request.correlationId
    ∧ (statusReply request work).metadata.find? (Bytes.ofString "state")
      = some (stateText work.state)
  := by
  have hne : Bytes.ofString "state" ≠ Bytes.ofString "technical_failure" :=
    Bytes.ofString_injective.ne (by decide)
  rw [statusReply]
  split_ifs
  · refine ⟨rfl, rfl, ?_⟩
    simp only [withField, SortedMap.find?_assign, if_true]
  · refine ⟨rfl, rfl, ?_⟩
    simp only [withField, SortedMap.find?_assign, if_neg hne, if_true]

/-- In every run in which the failure texts that come in can be presented, `STATUS` about every Work
that was accepted is answered, in every state, with a response that the encoder accepts and that has
the stored state. -/
theorem status_answered
    {s₀ : System} {es : List System.Event} (hinit : System.Initial s₀)
    (hplain : (machine cfg).Within (fun s e => plainEvent cfg s e = true) s₀ es)
    (hrun : (machine cfg).run s₀ es = some s) {id : CString} {submitted : Frame}
    (hsubmitted : (id, submitted) ∈ s.history.submitted) :
  ∃ w, s.store.row? id = some w
    ∧ ∀ (p : Process) (c : Connection) (workId : Bytes) (nowMs : Int64) (draws : UInt64 × UInt64),
      s.process = some p → p.handler = .idle → p.stop = false →
      c.request.type = MessageType.status.code →
      metadataValue c.request "work_id" = .ok workId → bindText workId = id →
      ∃ s' reply, (machine cfg).step s (.handler (.request c nowMs draws [])) = some s'
        ∧ s'.history.replies = s.history.replies ++ [(c.request, reply)]
        ∧ reply.type = MessageType.statusResponse.code
        ∧ reply.correlationId = c.request.correlationId
        ∧ reply.metadata.find? (Bytes.ofString "state") = some (stateText w.state)
        ∧ encodable reply = true
  := by
  have hreach : (machine cfg).Reachable s := ⟨s₀, es, hinit, hrun⟩
  have hfits := hplain.preserves (P := SystemFits cfg) (fun hs hguard hstep =>
    step_fits hs hguard hstep) (initial_fits hinit) hrun
  obtain ⟨work, w, -, -, hrow, -⟩ := (reachable_filed hreach).filed id submitted hsubmitted
  refine ⟨w, hrow, ?_⟩
  rintro p c workId nowMs draws hprocess hidle hstop htype hid rfl
  obtain ⟨htype', hcorrelation, hstate⟩ := statusReply_fields c.request (readWork w)
  refine ⟨_, _, step_status hprocess hidle hstop htype hid hrow nowMs draws, rfl, htype',
    hcorrelation, hstate, ?_⟩
  rw [Serving.encodable_statusReply]
  exact (hfits.store w (Store.mem_works_of_row? hrow)).failure

/-- A worker fails with a plain text, and `STATUS` is answered. -/
theorem status_answered_retry :
  ∃ s s' reply, (machine Sample.config).Reachable s
    ∧ (machine Sample.config).step s (.handler
        (.request (Sample.connection (Sample.request .status)) 0 (0, 0) [])) = some s'
    ∧ s'.history.replies = s.history.replies ++ [(Sample.request .status, reply)]
    ∧ reply.metadata.find? (Bytes.ofString "state") = some (stateText .queued)
    ∧ encodable reply = true
  := by
  have hsome : ((machine Sample.config).runWithin (plainEvent Sample.config) Sample.start
      (Sample.dispatched ++ [.task 0 (.proceed 0 []),
        .task 0 (.outcome (.technicalFailure (Bytes.ofString "no memory"))),
        .task 0 (.proceed 0 [])])).any
      (fun s => s.process.any (fun p => p.handler = .idle && !p.stop)
        && (s.store.row? (bindText Sample.workId)).any (fun w => w.state = .queued)
        && s.history.submitted.contains
          (bindText Sample.workId, Sample.frame .submit Sample.fields "in")) = true := by
    decide +kernel
  obtain ⟨s, hwithin, hs⟩ := (Option.any_eq_true _ _).mp hsome
  obtain ⟨hplain, hrun⟩ := Machine.within_of_runWithin hwithin
  simp only [Bool.and_eq_true, Option.any_eq_true, decide_eq_true_eq, Bool.not_eq_true',
    List.contains_iff_mem] at hs
  obtain ⟨⟨⟨p, hprocess, hidle, hstop⟩, w, hrow, hstate⟩, hsubmitted⟩ := hs
  obtain ⟨w', hrow', hanswered⟩ := status_answered ⟨rfl, rfl, rfl⟩ hplain hrun hsubmitted
  obtain rfl := Option.some.inj (hrow.symm.trans hrow')
  obtain ⟨s', reply, hstep, hreplies, -, -, hfield, hencodable⟩ :=
    hanswered p (Sample.connection (Sample.request .status)) Sample.workId 0 (0, 0) hprocess hidle
      hstop (by decide +kernel) (by decide +kernel) rfl
  rw [hstate] at hfield
  exact ⟨s, s', reply, ⟨Sample.start, _, ⟨rfl, rfl, rfl⟩, hrun⟩, hstep, hreplies, hfield,
    hencodable⟩

namespace Sample

/-- The metadata of a `SUBMIT` whose Work type holds a carriage return, as a client sends them. -/
def crMetadata : Bytes :=
  Bytes.ofString
    "effort=STANDARD\nmax_attempts=1\nretry_delay_ms=0\nurgency=NORMAL\nwork_type=t\r\n"

def crRequest : Frame :=
  frame .submit [("work_type", "t\r"), ("effort", "STANDARD"), ("urgency", "NORMAL"),
    ("max_attempts", "1"), ("retry_delay_ms", "0")] ""

theorem decodeMetadata_crMetadata :
  decodeMetadata crMetadata = .ok crRequest.metadata
  := by
  rw [decodeMetadata_eq]
  decide +kernel

end Sample

/-- A Work whose type holds a carriage return fails in the scheduler, and then `STATUS` about it has
a reply that the encoder refuses. -/
theorem status_unencodable :
  decodeMetadata Sample.crMetadata = .ok Sample.crRequest.metadata
    ∧ ∃ s s' reply, (machine Sample.config).Reachable s
      ∧ (bindText Sample.workId, Sample.crRequest) ∈ s.history.submitted
      ∧ (machine Sample.config).step s (.handler
          (.request (Sample.connection (Sample.request .status)) 0 (0, 0) [])) = some s'
      ∧ s'.history.replies = s.history.replies ++ [(Sample.request .status, reply)]
      ∧ encodable reply = false
  := by
  refine ⟨Sample.decodeMetadata_crMetadata, ?_⟩
  obtain ⟨s, hreach, hs⟩ := Sample.reachable
    (Sample.submitting Sample.crRequest ++ List.replicate 3 (.scheduler ⟨0, [], .ok ()⟩))
    (fun s => s.process.any (fun p => p.handler = .idle && !p.stop)
      && (s.store.row? (bindText Sample.workId)).any
        (fun w => !encodable (statusReply (Sample.request .status) (readWork w)))
      && s.history.submitted.contains (bindText Sample.workId, Sample.crRequest))
    (by decide +kernel)
  simp only [Bool.and_eq_true, Option.any_eq_true, decide_eq_true_eq, Bool.not_eq_true',
    List.contains_iff_mem] at hs
  obtain ⟨⟨⟨p, hprocess, hidle, hstop⟩, w, hrow, hrefused⟩, hsubmitted⟩ := hs
  exact ⟨s, _, _, hreach, hsubmitted,
    step_status hprocess hidle hstop (by decide +kernel) (by decide +kernel) hrow 0 (0, 0), rfl,
    hrefused⟩

end Kernel
