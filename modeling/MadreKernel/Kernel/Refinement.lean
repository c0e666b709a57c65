import MadreKernel.Kernel.Moves
import MadreKernel.Store.Ledger

/-!
# The Kernel refines the ledger

The threads of a Kernel process own the attempts they are responsible for: each attempt task
owns its attempt, and the scheduler owns an attempt that has begun and has no task yet.  With
these owners every step of the system is a step of the ledger, so that every Work stays
accounted in every reachable state.
-/

namespace Kernel

/-! ### Owners -/

/-- The task has found that its Work is not cancelled, and is about to record its success.  A
payload that is too large is not written. -/
def TaskPhase.checked : TaskPhase → Bool
  | .writing payload => payload.length ≤ Wire.kMaxC1TextGenerationOpaquePayloadBytes
  | .moving _ | .committing _ => true
  | _ => false

def Task.owner (t : Task) : Owner := ⟨bindText t.work.id, t.attemptNumber, t.phase.checked⟩

def SchedulerPhase.owners (scheduler : SchedulerPhase) : List Owner :=
  (scheduler.begun?.map fun begun => ⟨bindText begun.1.id, begun.2, false⟩).toList

def Process.owners (p : Process) : List Owner := p.tasks.map Task.owner ++ p.scheduler.owners

/-- The `SUBMIT` that the handler is about to store. -/
def HandlerPhase.submission? : HandlerPhase → Option (Connection × WorkRecord)
  | .submitWriting c work | .submitRenaming c work | .submitStoring c work => some (c, work)
  | _ => none

namespace System

def owners (s : System) : List Owner :=
  match s.process with
  | none => []
  | some p => p.owners

/-- The scheduler has selected the engine and the model for the Work. -/
def picked (s : System) (id engineId modelId : CString) : Prop :=
  ∃ p work selection, s.process = some p ∧ p.scheduler = .reserved work selection
    ∧ id = bindText work.id ∧ engineId = bindText selection.engine.id
    ∧ modelId = bindText selection.modelId

/-- The record that the handler is about to store is the one that its request asks for. -/
def Recorded (cfg : Config) (s : System) : Prop :=
  ∀ p c work, s.process = some p → p.handler.submission? = some (c, work) →
    Submits cfg.dataDir c.request work

theorem owners_eq {s : System} {p : Process} (h : s.process = some p) :
  s.owners = p.owners
  := by
  rw [owners, h]

end System

/-! ### Steps -/

theorem SchedulerPhase.owners_of_begun? {scheduler : SchedulerPhase} (h : scheduler.begun? = none) :
  scheduler.owners = []
  := by
  rw [owners, h]
  rfl

theorem SchedulerPhase.Idle.begun? {scheduler : SchedulerPhase} (h : scheduler.Idle) :
  scheduler.begun? = none
  := by
  cases scheduler with
  | launching => cases h
  | _ => rfl

theorem Task.Settles.ends {t : Task} {a : WorkAction} (h : t.Settles a) :
  t.owner.Ends a
  := by
  cases a with
  | finish attemptState workState text number endedAtMs => exact ⟨h.1, Or.inr h.2⟩
  | failAttempt attemptState text number endedAtMs => exact h
  | _ => cases h

theorem TaskPhase.Idle.not_checked {phase : TaskPhase} (h : phase.Idle) :
  phase.checked = false
  := by
  cases phase with
  | settling settlement => rfl
  | handling text => rfl
  | _ => cases h

end Kernel

namespace Ledger

variable {picked : CString → CString → CString → Prop} {s : Store}

/-- Nothing happens. -/
theorem Step.refl (owners : List Owner) :
  Step picked s owners s owners
  := by
  apply Step.pass (List.Sublist.refl _)
  intro o ho _
  exact Or.inl ho

/-- An owner goes away. -/
theorem Step.shed {owners owners' : List Owner} (h : owners'.Sublist owners) :
  Step picked s owners s owners'
  := by
  apply Step.pass (h.map _)
  intro o ho _
  exact Or.inl (h.subset ho)

/-- An owner goes on, and becomes checked only when its Work is not cancelled. -/
theorem Step.turn
    {before after : List Owner} {o o' : Owner} (hkey : o'.key = o.key)
    (hchecked : o'.checked = true →
      o.checked = true ∨ ∀ w, s.row? o.id = some w → w.cancelRequested = false) :
  Step picked s (before ++ o :: after) s (before ++ o' :: after)
  := by
  have hid : o'.id = o.id := congrArg Prod.fst hkey
  have hnumber : o'.number = o.number := congrArg Prod.snd hkey
  apply Step.pass
  · simp only [List.map_append, List.map_cons, hkey]
    exact List.Sublist.refl _
  · intro o₁ ho₁ h₁
    simp only [List.mem_append, List.mem_cons] at ho₁ ⊢
    rcases ho₁ with ho₁ | rfl | ho₁
    · exact Or.inl (Or.inl ho₁)
    · rcases hchecked h₁ with hold | hcancel
      · refine Or.inl (Or.inr (Or.inl ?_))
        rcases o with ⟨id, number, checked⟩
        rcases o₁ with ⟨id₁, number₁, checked₁⟩
        simp only at hid hnumber hold h₁
        rw [hid, hnumber, hold, h₁]
      · right
        rw [hid]
        exact hcancel
    · exact Or.inl (Or.inr (Or.inr ho₁))

end Ledger

namespace Kernel

open Ledger

variable {cfg : Config} {s s' : System} {p : Process}

theorem SchedulerMove.ledger
    (hprocess : s.process = some p) (hvalid : Valid s.store s.owners)
    (h : SchedulerMove cfg s p s') :
  Step s.picked s.store s.owners s'.store s'.owners
  := by
  rw [System.owners_eq hprocess, Process.owners] at hvalid ⊢
  cases h with
  | gone => exact Step.shed (List.nil_sublist _)
  | turn resources hidle =>
      have howners := SchedulerPhase.owners_of_begun? hidle.begun?
      simp only [System.owners, System.update, Process.owners, howners, List.append_nil]
      exact Step.shed (List.sublist_append_left _ _)
  | expire schedulerNow hbegun hacts =>
      rw [SchedulerPhase.owners_of_begun? hbegun]
      exact Step.actAll hacts trivial
  | fail resources hbegun hacts =>
      rw [SchedulerPhase.owners_of_begun? hbegun]
      exact Step.act hacts trivial
  | pick schedulerNow hrow =>
      apply Step.shed
      rw [System.owners_eq rfl, Process.owners, SchedulerPhase.owners_of_begun? rfl,
        List.append_nil]
      exact List.sublist_append_left _ _
  | reserve resources hphase hselect =>
      rw [hphase]
      exact Step.refl _
  | begin hphase hrow hstart hnumber hacts =>
      rw [hphase, SchedulerPhase.owners_of_begun? rfl, List.append_nil]
      exact Step.start hrow hstart ⟨p, _, _, hprocess, hphase, rfl, rfl, rfl⟩ hacts
  | lose resources hrow hstart hnumber hacts =>
      have haccount := (hvalid.accounted _).of_some hrow
      have hpositive := (WorkAction.start_number haccount hstart).2.1
      rw [hnumber] at hpositive
      cases hpositive
  | launch hphase =>
      rw [hphase]
      have howners : ∀ (t : Task) (p' : Process), p'.tasks = p.tasks ++ [t] →
          p'.scheduler = .sweeping → p'.owners = p.tasks.map Task.owner ++ [t.owner] := by
        intro t p' htasks hscheduler
        rw [Process.owners, htasks, hscheduler, List.map_append, List.map_singleton,
          SchedulerPhase.owners_of_begun? rfl, List.append_nil]
      rw [System.owners_eq rfl, howners _ _ rfl rfl]
      exact Step.refl _
  | drop resources hphase hacts =>
      rw [hphase]
      exact Step.finish hacts ⟨rfl, by simp⟩

/-- A step of a task ends its attempt, or leaves the database as it was. -/
theorem TaskMove.ledger
    {store : Store} {files : Files} {t : Task} {input : TaskInput} {step : TaskStep}
    (h : TaskMove store files t input step) (picked : CString → CString → CString → Prop)
    (before after : List Owner) :
  Step picked store (before ++ t.owner :: after) step.store
    (before ++ (step.next.map fun phase => Task.owner { t with phase }).toList ++ after)
  := by
  have hleave : (before ++ after).Sublist (before ++ t.owner :: after) :=
    List.Sublist.append_left (List.sublist_cons_self _ _) _
  have hturn : ∀ phase : TaskPhase,
      (phase.checked = true → t.phase.checked = true
        ∨ ∀ w, store.row? (bindText t.work.id) = some w → w.cancelRequested = false) →
      Step picked store (before ++ t.owner :: after) store
        (before ++ [Task.owner { t with phase }] ++ after) := by
    intro phase hchecked
    rw [List.append_assoc, List.singleton_append]
    exact Step.turn rfl hchecked
  have hend : ∀ {store' : Store} {a : WorkAction}, t.owner.Ends a →
      a.ActsAt (bindText t.work.id) store store' →
      Step picked store (before ++ t.owner :: after) store' (before ++ [] ++ after) := by
    intro store' a ha hacts
    rw [List.append_nil]
    exact Step.finish hacts ha
  cases h with
  | leave haccepted =>
      simp only [Option.map_none, Option.toList_none, List.append_nil]
      exact Step.shed hleave
  | turn hphase haccepted =>
      apply hturn
      rw [hphase.not_checked]
      rintro ⟨⟩
  | read hphase haccepted =>
      apply hturn
      rintro ⟨⟩
  | accept hphase haccepted =>
      apply hturn
      rintro ⟨⟩
  | check hphase hcancel haccepted =>
      apply hturn
      intro _
      exact Or.inr hcancel
  | writePart count hphase haccepted =>
      apply hturn
      intro hchecked
      rw [hphase]
      exact Or.inl hchecked
  | write hphase hsize haccepted =>
      apply hturn
      intro _
      rw [hphase]
      exact Or.inl (decide_eq_true hsize)
  | rename hphase hrename haccepted =>
      apply hturn
      intro _
      exact Or.inl (by rw [hphase]; rfl)
  | commit hphase hacts haccepted =>
      refine hend (a := .finish _ _ _ _ _) ⟨rfl, Or.inl ⟨rfl, rfl, ?_⟩⟩ hacts
      rw [Task.owner, hphase]
      rfl
  | settle ha hacts haccepted => exact hend ha.ends hacts

theorem HandlerMove.ledger
    (hprocess : s.process = some p) (hrecorded : s.Recorded cfg) (h : HandlerMove cfg s p s') :
  Step s.picked s.store s.owners s'.store s'.owners
  := by
  rw [System.owners_eq hprocess]
  cases h with
  | accept hphase hnew hchecked hview =>
      have hsubmits := hrecorded p _ _ hprocess (by rw [hphase]; rfl)
      exact Step.insert _ hnew hchecked hsubmits.state rfl rfl hview
  | act ha hacts =>
      apply Step.act hacts
      rcases ha with rfl | rfl <;> trivial
  | acknowledge hphase hid hrow hstate hacts => exact Step.act hacts trivial
  | _ => exact Step.refl _

/-- Every step of the system is a step of the ledger. -/
theorem Move.ledger
    (hvalid : Valid s.store s.owners) (hrecorded : s.Recorded cfg) (h : Move cfg s s') :
  Step s.picked s.store s.owners s'.store s'.owners
  := by
  cases h with
  | start hprocess hacts =>
      rw [System.owners, hprocess]
      exact Step.recover hacts
  | gone => exact Step.shed (List.nil_sublist _)
  | stop hprocess =>
      rw [System.owners_eq hprocess]
      exact Step.refl _
  | scheduler hprocess hmove => exact hmove.ledger hprocess hvalid
  | @task p p' before after t input step hprocess htasks hmove htasks' hscheduler hhandler =>
      have hstep := hmove.ledger s.picked (before.map Task.owner)
        (after.map Task.owner ++ p.scheduler.owners)
      have howners : p.owners
          = before.map Task.owner ++ t.owner :: (after.map Task.owner ++ p.scheduler.owners) := by
        rw [Process.owners, htasks, List.map_append, List.map_cons, List.append_assoc,
          List.cons_append]
      have howners' : p'.owners
          = before.map Task.owner
            ++ (step.next.map fun phase => Task.owner { t with phase }).toList
            ++ (after.map Task.owner ++ p.scheduler.owners) := by
        rw [Process.owners, htasks', hscheduler, List.map_append, List.map_append]
        cases step.next <;> simp
      rw [System.owners_eq hprocess, howners, System.owners_eq rfl, howners']
      exact hstep
  | handler hprocess hmove => exact hmove.ledger hprocess hrecorded

/-- The handler keeps the record of its `SUBMIT` until it is stored. -/
theorem Move.recorded (hrecorded : s.Recorded cfg) (h : Move cfg s s') :
  s'.Recorded cfg
  := by
  intro p' c work hprocess' hsubmission
  cases h with
  | start hprocess hacts =>
      cases hprocess'
      cases hsubmission
  | gone => cases hprocess'
  | stop hprocess =>
      cases hprocess'
      exact hrecorded _ c work hprocess hsubmission
  | scheduler hprocess hmove =>
      cases hmove with
      | gone => cases hprocess'
      | _ =>
          cases hprocess'
          exact hrecorded _ c work hprocess hsubmission
  | task hprocess htasks hmove htasks' hscheduler hhandler =>
      cases hprocess'
      rw [hhandler] at hsubmission
      exact hrecorded _ c work hprocess hsubmission
  | handler hprocess hmove =>
      cases hmove with
      | submit hrecord =>
          cases hprocess'
          cases hsubmission
          exact submitRecord_submits hrecord
      | writePart count hphase =>
          cases hprocess'
          apply hrecorded _ c work hprocess
          rw [hphase]
          exact hsubmission
      | write hphase =>
          cases hprocess'
          apply hrecorded _ c work hprocess
          rw [hphase]
          exact hsubmission
      | rename hphase hrename =>
          cases hprocess'
          apply hrecorded _ c work hprocess
          rw [hphase]
          exact hsubmission
      | _ =>
          cases hprocess'
          cases hsubmission

/-! ### Reachable states -/

theorem valid_initial (h : s.Initial) :
  Valid s.store s.owners
  := by
  obtain ⟨hstore, hprocess, -⟩ := h
  rw [hstore, System.owners, hprocess]
  exact ⟨fun _ => rfl, List.nodup_nil, by simp⟩

theorem reachable_valid_recorded (h : (machine cfg).Reachable s) :
  Valid s.store s.owners ∧ s.Recorded cfg
  := by
  refine Machine.Reachable.invariant (P := fun s => Valid s.store s.owners ∧ s.Recorded cfg)
    ?_ ?_ h
  · intro s hinit
    refine ⟨valid_initial hinit, ?_⟩
    intro p c work hprocess
    rw [hinit.2.1] at hprocess
    cases hprocess
  · rintro s e s' - ⟨hvalid, hrecorded⟩ hstep
    have hmove := System.step_move hstep
    exact ⟨(hmove.ledger hvalid hrecorded).valid hvalid, hmove.recorded hrecorded⟩

/-- In every reachable state the ledger is valid. -/
theorem reachable_valid (h : (machine cfg).Reachable s) :
  Valid s.store s.owners
  := (reachable_valid_recorded h).1

/-- In every reachable state every Work is accounted. -/
theorem reachable_account
    (h : (machine cfg).Reachable s) {id : CString} {w : Row} (hrow : s.store.row? id = some w) :
  WorkView.RowAccounted w (s.store.attemptsOf id)
  := ((reachable_valid h).accounted id).of_some hrow

/-- A step from a reachable state is a step of the ledger. -/
theorem reachable_step {e : System.Event} (h : (machine cfg).Reachable s)
    (hstep : s.step cfg e = some s') :
  Step s.picked s.store s.owners s'.store s'.owners
  := by
  obtain ⟨hvalid, hrecorded⟩ := reachable_valid_recorded h
  exact (System.step_move hstep).ledger hvalid hrecorded

/-! ### A sample Kernel -/

namespace Sample

def engine : EngineDescriptorFacts where
  id := Bytes.ofString "e"
  workTypes := [Bytes.ofString "t"]
  capabilities := []
  modelIds := [Bytes.ofString "m"]
  supportedEfforts := [Bytes.ofString "STANDARD"]
  placement := Bytes.ofString "LOCAL_WORKER_PROCESS"
  availability := Bytes.ofString "AVAILABLE"
  resources := ⟨1, 1, [], 0⟩
  id_nulFree := by decide +kernel
  modelIds_nulFree := by decide +kernel

def config : Config where
  dataDir := Bytes.ofString "d"
  inventory := [engine]
  capacity := ⟨1, 1, ∅⟩
  dataDir_nulFree := by decide +kernel

/-- A frame of a type with some metadata fields. -/
def frame (type : MessageType) (fields : List (String × String)) (payload : String) : Frame where
  type := type.code
  correlationId := 1
  metadata := fields.foldl
    (fun m f => m.assign (Bytes.ofString f.1) (Bytes.ofString f.2)) ∅
  payload := Bytes.ofString payload

def connection (request : Frame) : Connection := ⟨frame .status [] "", request⟩

/-- The metadata of a `SUBMIT` of a Work with two attempts. -/
def fields : List (String × String) :=
  [("work_type", "t"), ("effort", "STANDARD"), ("urgency", "NORMAL"), ("max_attempts", "2"),
    ("retry_delay_ms", "0")]

/-- The id of the first Work of a generator that draws zeros. -/
def workId : Bytes := makeWorkId (0, 0)

def start : System := ⟨Store.empty, fun _ => none, none, ⟨[], [], []⟩⟩

/-- A process starts and accepts a `SUBMIT`. -/
def submitting (request : Frame) : List System.Event :=
  [.start 0 [], .handler (.request (connection request) 0 (0, 0) []), .handler (.proceed []),
    .handler (.proceed []), .handler (.proceed [])]

/-- The scheduler dispatches a Work to a worker. -/
def dispatching : List System.Event := List.replicate 5 (.scheduler ⟨0, [], .ok ()⟩)

/-- A process accepts a Work and dispatches it. -/
def dispatched : List System.Event := submitting (frame .submit fields "in") ++ dispatching

/-- A worker answers with a result, and its task goes on to record the success. -/
def committing (payload : Bytes) : List System.Event :=
  [.task 0 (.proceed 0 []), .task 0 (.outcome (.succeeded payload)), .task 0 (.proceed 0 []),
    .task 0 (.proceed 0 []), .task 0 (.proceed 0 [])]

/-- A request about the first Work. -/
def request (type : MessageType) : Frame :=
  { frame type [] "" with
    metadata := SortedMap.assign ∅ (Bytes.ofString "work_id") workId }

/-- The state after some events of the sample Kernel, when it has a property. -/
theorem reachable (es : List System.Event) (P : System → Bool)
    (h : ((machine config).run start es).any P = true) :
  ∃ s, (machine config).Reachable s ∧ P s = true
  := by
  obtain ⟨s, hrun, hs⟩ := (Option.any_eq_true _ _).mp h
  exact ⟨s, ⟨start, es, ⟨rfl, rfl, rfl⟩, hrun⟩, hs⟩

end Sample

/-! ### The attempts of a Work -/

/-- In every reachable state the attempts of a Work are numbered from 1 to its attempt count;
the Work is running exactly when one attempt is, which is the last; the other attempts have
ended; and a Work that is running or has succeeded names the engine and the model of its last
attempt. -/
theorem attempts_accounted
    (hreach : (machine cfg).Reachable s) {id : CString} {w : Row}
    (hrow : s.store.row? id = some w) :
  (s.store.attemptsOf id).map (·.attemptNumber.toInt)
      = (List.range w.attemptCount.toInt.toNat).map (fun i : Nat => (i : Int) + 1)
    ∧ 0 ≤ w.attemptCount.toInt
    ∧ (w.state = .running ↔ ((s.store.attemptsOf id).filter (·.state = .running)).length = 1)
    ∧ (∀ a ∈ s.store.attemptsOf id, a.state = .running → a.attemptNumber = w.attemptCount)
    ∧ (∀ a ∈ s.store.attemptsOf id, ¬(w.state = .running ∧ a.attemptNumber = w.attemptCount) →
        a.state ≠ .running ∧ a.endedAtMs.isSome = true)
    ∧ (w.state = .running ∨ w.state = .succeeded →
        ∃ a ∈ s.store.attemptsOf id, a.attemptNumber = w.attemptCount
          ∧ w.selectedEngineId = a.engineId ∧ w.selectedModelId = a.modelId)
  := by
  have haccount := reachable_account hreach hrow
  exact ⟨haccount.numbers, haccount.nonneg, haccount.running_iff, haccount.number_of_running,
    haccount.others_ended, haccount.selected⟩

/-- The attempts of a Work that is running. -/
theorem attempts_accounted_running :
  ∃ s w, (machine Sample.config).Reachable s ∧ s.store.row? (bindText Sample.workId) = some w
    ∧ w.state = .running
    ∧ ((s.store.attemptsOf (bindText Sample.workId)).filter (·.state = .running)).length = 1
  := by
  obtain ⟨s, hreach, hs⟩ := Sample.reachable Sample.dispatched
    (fun s => (s.store.row? (bindText Sample.workId)).any (·.state = .running)) (by decide +kernel)
  obtain ⟨w, hrow, hw⟩ := (Option.any_eq_true _ _).mp hs
  have hrunning : w.state = .running := by simpa using hw
  exact ⟨s, w, hreach, hrow, hrunning, (attempts_accounted hreach hrow).2.2.1.mp hrunning⟩

/-- The retry budget: in every reachable state the attempt count of a Work is within its
maximum, and below it while the Work is queued.  The attempt that `begin_attempt` creates has
the next number, which does not overflow and is within the budget. -/
theorem retry_budget
    (hreach : (machine cfg).Reachable s) {id : CString} {w : Row}
    (hrow : s.store.row? id = some w) :
  1 ≤ w.maxAttempts.toInt
    ∧ w.attemptCount.toInt ≤ w.maxAttempts.toInt
    ∧ (w.state = .queued → w.attemptCount.toInt < w.maxAttempts.toInt)
    ∧ (∀ a ∈ s.store.attemptsOf id,
        1 ≤ a.attemptNumber.toInt ∧ a.attemptNumber.toInt ≤ w.maxAttempts.toInt)
    ∧ ∀ (workId engineId modelId : Bytes) (startedAtMs : Int64) (faults : List (Option Bytes))
        (number : Int32) (store : Store), bindText workId = id →
        (WorkStore.beginAttempt workId engineId modelId startedAtMs).exec faults s.store
          = (.ok number, store) →
        number = 0 ∧ store = s.store
          ∨ number.toInt = w.attemptCount.toInt + 1 ∧ number.toInt ≤ w.maxAttempts.toInt
            ∧ ∃ a, store.attemptsOf id = s.store.attemptsOf id ++ [a] ∧ a.attemptNumber = number
  := by
  have haccount := reachable_account hreach hrow
  refine ⟨Int32.le_iff_toInt_le.mp (s.store.works_checked w (Store.mem_works_of_row? hrow)).1,
    haccount.budget, fun hqueued => (haccount.queued hqueued).1, haccount.number_bounds, ?_⟩
  rintro workId engineId modelId startedAtMs faults number store rfl hexec
  rcases WorkStore.beginAttempt_acts (Session.eval_of_exec hexec) with
    ⟨rfl, rfl⟩ | ⟨w', hrow', hstart, rfl, hacts⟩
  · exact Or.inl ⟨rfl, rfl⟩
  · right
    obtain rfl : w = w' := Option.some.inj (hrow.symm.trans hrow')
    obtain ⟨hnext, -, hbudget⟩ := WorkAction.start_number haccount hstart
    refine ⟨hnext, hbudget,
      WorkAction.startAttempt (bindText engineId) (bindText modelId) startedAtMs w, ?_, rfl⟩
    have hview := (hacts (bindText workId)).trans (if_pos rfl)
    have hrow'' : (s.store.view (bindText workId)).row? = some w := hrow
    simp only [WorkAction.apply, hrow'', hstart, if_true] at hview
    exact congrArg WorkView.attempts hview

/-- A Work with two attempts, queued again after the first has failed, and its second
attempt. -/
theorem retry_budget_second :
  ∃ s w, (machine Sample.config).Reachable s ∧ s.store.row? (bindText Sample.workId) = some w
    ∧ w.state = .queued ∧ w.attemptCount = 1 ∧ w.maxAttempts = 2
    ∧ ((WorkStore.beginAttempt Sample.workId [] [] 0).eval s.store).1 = .ok 2
    ∧ (1 : Int32).toInt < (2 : Int32).toInt
  := by
  obtain ⟨s, hreach, hs⟩ := Sample.reachable
    (Sample.dispatched ++ [.task 0 (.proceed 0 []), .task 0 (.outcome (.crashed [])),
      .task 0 (.proceed 0 [])])
    (fun s => (s.store.row? (bindText Sample.workId)).any
        (fun w => w.state = .queued ∧ w.attemptCount = 1 ∧ w.maxAttempts = 2)
      && ((WorkStore.beginAttempt Sample.workId [] [] 0).eval s.store).1 = .ok 2)
    (by decide +kernel)
  rw [Bool.and_eq_true, decide_eq_true_eq] at hs
  obtain ⟨w, hrow, hw⟩ := (Option.any_eq_true _ _).mp hs.1
  obtain ⟨hqueued, hcount, hmax⟩ := of_decide_eq_true hw
  refine ⟨s, w, hreach, hrow, hqueued, hcount, hmax, hs.2, ?_⟩
  rw [← hcount, ← hmax]
  exact (retry_budget hreach hrow).2.2.1 hqueued

end Kernel
