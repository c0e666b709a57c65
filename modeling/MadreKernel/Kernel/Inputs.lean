import MadreKernel.Kernel.Results
import MadreKernel.Kernel.Submissions

/-!
# Inputs

The payload of a `SUBMIT` goes to a temporary file, from there to the input file of the Work, and
then the row is inserted.  Unless a `SUBMIT` draws the id of an existing Work, the input file of a
Work that is not acknowledged holds the payload of the `SUBMIT` that made it, in every state of
every run, and the input that an attempt executes is this payload.
-/

namespace Kernel

open WorkStore

/-- A `SUBMIT` draws an id that no Work has. -/
def System.DrawsFresh (s : System) : System.Event → Prop
  | .handler (.request c _ draws _) =>
      c.request.type = MessageType.submit.code → s.store.row? (bindText (makeWorkId draws)) = none
  | _ => True

instance (s : System) : (e : System.Event) → Decidable (s.DrawsFresh e)
  | .handler (.request c _ draws _) =>
      inferInstanceAs (Decidable (c.request.type = MessageType.submit.code →
        s.store.row? (bindText (makeWorkId draws)) = none))
  | .handler (.write _) | .handler (.proceed _) | .handler (.throw _) | .start _ _ | .crash | .stop
  | .scheduler _ | .task _ _ => inferInstanceAs (Decidable True)

/-- The input file of a Work. -/
def Config.inputFile (cfg : Config) (id : CString) : Bytes := inputPath cfg.dataDir id.toBytes

/-- The result of the Work has not been acknowledged. -/
def Needed (w : Row) : Prop := w.state = .succeeded → w.acknowledged = false

variable {cfg : Config} {s s' : System} {p p' : Process}

/-! ### The files that a step leaves alone -/

/-- A task writes to the two paths of its result. -/
theorem TaskMove.files_of_ne
    {store : Store} {files : Files} {t : Task} {input : TaskInput} {step : TaskStep}
    (h : TaskMove store files t input step) {path : Bytes} (hresult : path ≠ t.work.resultPath)
    (htemporary : path ≠ temporary t.work.resultPath) :
  step.files path = files path
  := by
  cases h with
  | writePart => exact Files.write_of_ne htemporary _
  | write => exact Files.write_of_ne htemporary _
  | rename hphase hrename => exact (Files.rename_eq_some hrename).2 path htemporary hresult
  | _ => rfl

/-- The paths of an input are not those of a result. -/
theorem inputPath_ne_resultPath (dataDir id id' : Bytes) :
  inputPath dataDir id ≠ resultPath dataDir id'
    ∧ inputPath dataDir id ≠ temporary (resultPath dataDir id')
    ∧ temporary (inputPath dataDir id) ≠ resultPath dataDir id'
    ∧ temporary (inputPath dataDir id) ≠ temporary (resultPath dataDir id')
  := by
  refine ⟨(resultPath_ne_inputPath _ _ _).symm, inputPath_ne_temporary _ _ _,
    (resultPath_ne_temporary _ _ _).symm, ?_⟩
  intro heq
  exact resultPath_ne_inputPath _ _ _ (temporary_injective heq).symm

/-- A step is one of the handler, or leaves the inputs, their temporary files and the handler
alone. -/
theorem Move.keepsInputs (hreach : (machine cfg).Reachable s) (h : Move cfg s s') :
  (∃ p, s.process = some p ∧ HandlerMove cfg s p s')
    ∨ (∀ id, s'.files (inputPath cfg.dataDir id) = s.files (inputPath cfg.dataDir id)
        ∧ s'.files (temporary (inputPath cfg.dataDir id))
          = s.files (temporary (inputPath cfg.dataDir id)))
      ∧ ∀ p', s'.process = some p' →
        p'.handler = .idle ∨ ∃ p, s.process = some p ∧ p'.handler = p.handler
  := by
  cases h with
  | start hprocess hacts =>
      right
      refine ⟨fun id => ⟨rfl, rfl⟩, ?_⟩
      rintro p' ⟨⟩
      exact Or.inl rfl
  | gone =>
      right
      refine ⟨fun id => ⟨rfl, rfl⟩, ?_⟩
      rintro p' ⟨⟩
  | stop hprocess =>
      right
      refine ⟨fun id => ⟨rfl, rfl⟩, ?_⟩
      rintro p' ⟨⟩
      exact Or.inr ⟨_, hprocess, rfl⟩
  | scheduler hprocess hmove =>
      right
      cases hmove with
      | gone =>
          refine ⟨fun id => ⟨rfl, rfl⟩, ?_⟩
          rintro p' ⟨⟩
      | _ =>
          refine ⟨fun id => ⟨rfl, rfl⟩, ?_⟩
          rintro p' ⟨⟩
          exact Or.inr ⟨_, hprocess, rfl⟩
  | @task p p' before after t input step hprocess htasks hmove htasks' hscheduler hhandler =>
      right
      have ht : t ∈ p.tasks := by
        rw [htasks]
        simp
      have hpath := reachable_resultPath hreach hprocess ht
      rw [Config.resultFile] at hpath
      constructor
      · intro id
        obtain ⟨h₁, h₂, h₃, h₄⟩ :=
          inputPath_ne_resultPath cfg.dataDir id (bindText t.work.id).toBytes
        rw [← hpath] at h₁ h₂ h₃ h₄
        exact ⟨hmove.files_of_ne h₁ h₂, hmove.files_of_ne h₃ h₄⟩
      · rintro p'' ⟨⟩
        exact Or.inr ⟨p, hprocess, hhandler⟩
  | handler hprocess hmove => exact Or.inl ⟨_, hprocess, hmove⟩

/-! ### The submission that the handler serves -/

/-- The handler begins to serve a `SUBMIT`. -/
def System.Begins (e : System.Event) (c : Connection) (work : WorkRecord) : Prop :=
  ∃ nowMs draws faults, e = .handler (.request c nowMs draws faults)
    ∧ c.request.type = MessageType.submit.code ∧ work.id = makeWorkId draws
    ∧ c.request.payload.length ≤ Wire.kMaxC1TextGenerationOpaquePayloadBytes

theorem findFirst_submits
    {c : Connection} {faults : List (Option Bytes)} {found : WorkRecord → System}
    (h : ∀ work p', (found work).process = some p' → p'.handler.submission? = none)
    (hprocess' : (s.findFirst p c faults found).process = some p') :
  p'.handler.submission? = none
  := by
  rw [System.findFirst] at hprocess'
  split at hprocess'
  · cases hprocess'
    rfl
  · split at hprocess'
    · cases hprocess'
      rfl
    · cases hprocess'
      rfl
    · exact h _ p' hprocess'

/-- The first step of another request is no submission. -/
theorem handle_other
    {c : Connection} {nowMs : Int64} {draws : UInt64 × UInt64} {faults : List (Option Bytes)}
    (hother : c.request.type ≠ MessageType.submit.code)
    (h : s.handle cfg p c nowMs draws faults = some s') (hprocess' : s'.process = some p') :
  p'.handler.submission? = none
  := by
  rw [System.handle, if_neg hother] at h
  split_ifs at h
  · cases h
    apply findFirst_submits _ hprocess'
    rintro work p' ⟨⟩
    rfl
  · cases h
    apply findFirst_submits _ hprocess'
    rintro work p' ⟨⟩
    rfl
  · cases h
    apply findFirst_submits _ hprocess'
    rintro work p' ⟨⟩
    rfl
  · split at h
    · cases h
      cases hprocess'
      rfl
    · split at h <;>
      · cases h
        cases hprocess'
        rfl
  · cases h
    cases hprocess'
    rfl

/-- The later steps of a request begin no submission. -/
theorem proceed_submits
    {faults : List (Option Bytes)} (h : s.proceed p faults = some s')
    (hprocess' : s'.process = some p') {c : Connection} {work : WorkRecord}
    (hsubmission : p'.handler.submission? = some (c, work)) :
  p.handler.submission? = some (c, work)
  := by
  cases hphase : p.handler with
  | idle =>
      simp only [System.proceed, hphase] at h
      cases h
  | submitWriting c' work' =>
      simp only [System.proceed, hphase] at h
      cases h
      cases hprocess'
      exact hsubmission
  | submitRenaming c' work' =>
      simp only [System.proceed, hphase, Option.map_eq_some_iff] at h
      obtain ⟨files, -, rfl⟩ := h
      cases hprocess'
      exact hsubmission
  | submitStoring c' work' =>
      simp only [System.proceed, hphase] at h
      split at h
      · cases h
        cases hprocess'
        cases hsubmission
      · cases h
        cases hprocess'
        cases hsubmission
  | resultFound c' work' =>
      simp only [System.proceed, hphase] at h
      split at h
      · cases h
        cases hprocess'
        cases hsubmission
      · cases h
        cases hprocess'
        cases hsubmission
  | acknowledgeFound c' work' =>
      simp only [System.proceed, hphase] at h
      split at h
      · cases h
        cases hprocess'
        cases hsubmission
      · split at h
        · cases h
          cases hprocess'
          cases hsubmission
        · cases h
          cases hprocess'
          cases hsubmission
        · cases h
          cases hprocess'
          cases hsubmission
  | removingInput c' work' =>
      simp only [System.proceed, hphase] at h
      cases h
      cases hprocess'
      cases hsubmission
  | removingResult c' work' =>
      simp only [System.proceed, hphase] at h
      cases h
      cases hprocess'
      cases hsubmission

/-- What the handler submits after a step, it submitted before, or begins to submit. -/
theorem handlerStep_submits
    {input : System.HandlerInput} (h : s.handlerStep cfg p input = some s')
    (hprocess : s.process = some p) (hprocess' : s'.process = some p') {c : Connection}
    {work : WorkRecord} (hsubmission : p'.handler.submission? = some (c, work)) :
  p.handler.submission? = some (c, work) ∨ System.Begins (.handler input) c work
  := by
  cases input with
  | request c' nowMs draws faults =>
      right
      by_cases hsubmit : c'.request.type = MessageType.submit.code
      · cases hphase : p.handler with
        | idle =>
            rcases handle_submit hphase hsubmit h with
              ⟨frame, -, rfl, -⟩ | ⟨work', hsize, hrecord, rfl⟩
            · cases hprocess'
              cases hsubmission
            · cases hprocess'
              cases hsubmission
              exact ⟨nowMs, draws, faults, rfl, hsubmit, (submission_paths hrecord).1, hsize⟩
        | _ =>
            simp only [System.handlerStep, hphase] at h
            cases h
      · rw [System.handlerStep] at h
        split at h
        next =>
          split_ifs at h
          rw [handle_other hsubmit h hprocess'] at hsubmission
          cases hsubmission
        next => cases h
  | write count =>
      left
      rw [System.handlerStep] at h
      split at h
      next =>
        cases h
        cases hprocess.symm.trans hprocess'
        exact hsubmission
      next => cases h
  | proceed faults => exact Or.inl (proceed_submits h hprocess' hsubmission)
  | throw text =>
      rw [System.handlerStep] at h
      split at h
      next =>
        cases h
        cases hprocess'
        cases hsubmission
      next =>
        cases h
        cases hprocess'
        cases hsubmission
      next =>
        cases h
        cases hprocess'
        cases hsubmission
      next =>
        cases h
        cases hprocess'
        cases hsubmission
      next => cases h

/-- What the handler submits after a step of the system. -/
theorem step_submits
    {e : System.Event} (h : s.step cfg e = some s') (hprocess' : s'.process = some p')
    {c : Connection} {work : WorkRecord} (hsubmission : p'.handler.submission? = some (c, work)) :
  (∃ p, s.process = some p ∧ p.handler.submission? = some (c, work)) ∨ System.Begins e c work
  := by
  cases hprocess : s.process with
  | none =>
      cases e with
      | start nowMs faults =>
          simp only [System.step, hprocess, Option.some.injEq, System.startStep] at h
          subst h
          split at hprocess'
          · cases hprocess'
            cases hsubmission
          · cases hprocess'
      | _ =>
          simp only [System.step, hprocess] at h
          cases h
  | some p =>
      cases e with
      | start nowMs faults =>
          simp only [System.step, hprocess] at h
          cases h
      | crash =>
          simp only [System.step, hprocess] at h
          cases h
          cases hprocess'
      | stop =>
          simp only [System.step, hprocess] at h
          cases h
          cases hprocess'
          exact Or.inl ⟨p, rfl, hsubmission⟩
      | scheduler input =>
          simp only [System.step, hprocess] at h
          left
          use p, rfl
          have hmove := System.schedulerStep_move h
          cases hmove with
          | gone => cases hprocess'
          | _ =>
              cases hprocess'
              exact hsubmission
      | task i input =>
          simp only [System.step, hprocess, System.attemptStep] at h
          split at h
          · cases h
          · obtain ⟨step, -, rfl⟩ := Option.map_eq_some_iff.mp h
            cases hprocess'
            left
            use p, rfl
            cases hnext : step.next <;> simpa [System.nextTasks, hnext] using hsubmission
      | handler input =>
          simp only [System.step, hprocess] at h
          apply (handlerStep_submits h hprocess hprocess' hsubmission).imp_left
          intro hold
          exact ⟨p, rfl, hold⟩

/-- The step that accepts a `SUBMIT` touches no file, and the handler is idle after it. -/
theorem Move.accepts (h : Move cfg s s') (hsubmitted : s'.history.submitted ≠ s.history.submitted) :
  s'.files = s.files ∧ ∀ p', s'.process = some p' → p'.handler = .idle
  := by
  cases h with
  | scheduler hprocess hmove => cases hmove <;> exact absurd rfl hsubmitted
  | handler hprocess hmove =>
      cases hmove with
      | accept =>
          refine ⟨rfl, ?_⟩
          rintro p' ⟨⟩
          rfl
      | _ => exact absurd rfl hsubmitted
  | _ => exact absurd rfl hsubmitted

/-! ### The input of an attempt -/

/-- Where a task of a process was before a step. -/
theorem step_tasks
    {e : System.Event} (h : s.step cfg e = some s') (hprocess' : s'.process = some p') {t : Task}
    (ht : t ∈ p'.tasks) :
  (∃ p, s.process = some p ∧ t ∈ p.tasks) ∨ t.phase = .starting
    ∨ ∃ p before input step, s.process = some p ∧ before ∈ p.tasks
      ∧ taskStep p.stop s.store s.files before input = some step ∧ step.next = some t.phase
      ∧ t.work = before.work ∧ t.attemptNumber = before.attemptNumber
  := by
  cases hprocess : s.process with
  | none =>
      cases e with
      | start nowMs faults =>
          simp only [System.step, hprocess, Option.some.injEq, System.startStep] at h
          subst h
          split at hprocess'
          · cases hprocess'
            cases ht
          · cases hprocess'
      | _ =>
          simp only [System.step, hprocess] at h
          cases h
  | some p =>
      cases e with
      | start nowMs faults =>
          simp only [System.step, hprocess] at h
          cases h
      | crash =>
          simp only [System.step, hprocess] at h
          cases h
          cases hprocess'
      | stop =>
          simp only [System.step, hprocess] at h
          cases h
          cases hprocess'
          exact Or.inl ⟨p, rfl, ht⟩
      | scheduler input =>
          simp only [System.step, hprocess] at h
          have hmove := System.schedulerStep_move h
          cases hmove with
          | gone => cases hprocess'
          | launch hphase =>
              cases hprocess'
              rcases List.mem_append.mp ht with ht | ht
              · exact Or.inl ⟨p, rfl, ht⟩
              · rw [List.mem_singleton.mp ht]
                exact Or.inr (Or.inl rfl)
          | _ =>
              cases hprocess'
              exact Or.inl ⟨p, rfl, ht⟩
      | task i input =>
          simp only [System.step, hprocess, System.attemptStep] at h
          split at h
          · cases h
          · rename_i before hbefore
            obtain ⟨step, hstep, rfl⟩ := Option.map_eq_some_iff.mp h
            cases hprocess'
            obtain ⟨front, back, htasks, htasks'⟩ := System.nextTasks_tasks hbefore step.next
            rw [htasks'] at ht
            simp only [List.mem_append, Option.mem_toList, Option.map_eq_some_iff] at ht
            rcases ht with (ht | ⟨phase, hnext, rfl⟩) | ht
            · exact Or.inl ⟨p, rfl, by rw [htasks]; simp [ht]⟩
            · exact Or.inr (Or.inr ⟨p, before, input, step, rfl, List.mem_of_getElem? hbefore, hstep,
                hnext, rfl, rfl⟩)
            · exact Or.inl ⟨p, rfl, by rw [htasks]; simp [ht]⟩
      | handler input =>
          simp only [System.step, hprocess] at h
          have hmove := System.handlerStep_move hprocess h
          cases hmove <;>
          · cases hprocess'
            exact Or.inl ⟨p, rfl, ht⟩

/-- A task executes what it has read from its input file. -/
theorem taskStep_executing
    {stop : Bool} {store : Store} {files : Files} {t : Task} {input : TaskInput} {step : TaskStep}
    {content : Bytes} (h : taskStep stop store files t input = some step)
    (hnext : step.next = some (.executing content)) :
  t.phase = .starting ∧ readBinaryBounded files t.work.inputPath = .ok content
  := by
  cases input with
  | proceed nowMs faults =>
      cases hphase : t.phase with
      | starting =>
          simp only [taskStep, hphase] at h
          split_ifs at h
          · cases h
            cases hnext
          · cases hread : readBinaryBounded files t.work.inputPath with
            | error e =>
                rw [hread] at h
                cases h
                cases hnext
            | ok content' =>
                rw [hread] at h
                cases h
                cases hnext
                exact ⟨rfl, rfl⟩
      | executing input =>
          simp only [taskStep, hphase] at h
          cases h
      | settling settlement =>
          rcases taskStep_settling hphase h with ⟨e, rfl⟩ | ⟨-, store', -, rfl⟩ <;> cases hnext
      | checking payload =>
          rcases taskStep_checking hphase h with ⟨e, rfl⟩ | rfl
          · cases hnext
          · split_ifs at hnext <;> cases hnext
      | writing payload =>
          simp only [taskStep, hphase] at h
          split_ifs at h
          · cases h
            cases hnext
          · cases h
            cases hnext
      | moving payload =>
          simp only [taskStep, hphase, Option.map_eq_some_iff] at h
          obtain ⟨files', -, rfl⟩ := h
          cases hnext
      | committing payload =>
          rcases taskStep_committing hphase h with ⟨e, rfl⟩ | ⟨store', -, rfl⟩ <;> cases hnext
      | handling text =>
          rcases taskStep_handling hphase h with rfl | ⟨-, -, failure, store', -, rfl⟩ <;> cases hnext
  | outcome outcome =>
      simp only [taskStep] at h
      split at h
      · cases h
        cases outcome <;> cases hnext
      · cases h
  | write count =>
      simp only [taskStep] at h
      split at h
      · rename_i payload hphase
        split_ifs at h
        cases h
        rw [hphase] at hnext
        cases hnext
      · cases h
  | throw text =>
      simp only [taskStep] at h
      split at h
      · cases h
        cases hnext
      · cases h
        cases hnext
      · cases h
        cases hnext
      · cases h

theorem files_of_readBinaryBounded
    {files : Files} {path content : Bytes} (h : readBinaryBounded files path = .ok content) :
  files path = some content
  := by
  rw [readBinaryBounded] at h
  split at h
  · cases h
  · rename_i content' hfile
    split_ifs at h
    cases h
    exact hfile

/-! ### The invariant -/

/-- The inputs are those of the accepted `SUBMIT`s. -/
structure Inputs (cfg : Config) (s : System) : Prop where
  unique : ∀ id request request', (id, request) ∈ s.history.submitted →
    (id, request') ∈ s.history.submitted → request = request'
  /-- the input file of a Work that is not acknowledged -/
  files : ∀ id request w, (id, request) ∈ s.history.submitted → s.store.row? id = some w →
    Needed w → s.files (cfg.inputFile id) = some request.payload
  /-- the `SUBMIT` that the handler serves -/
  new : ∀ p c work, s.process = some p → p.handler.submission? = some (c, work) →
    s.store.row? (bindText work.id) = none
  moving : ∀ p c work, s.process = some p → p.handler = .submitRenaming c work →
    s.files (temporary (cfg.inputFile (bindText work.id))) = some c.request.payload
  storing : ∀ p c work, s.process = some p → p.handler = .submitStoring c work →
    s.files (cfg.inputFile (bindText work.id)) = some c.request.payload
  executing : ∀ p t input, s.process = some p → t ∈ p.tasks → t.phase = .executing input →
    ∃ request, (bindText t.work.id, request) ∈ s.history.submitted ∧ input = request.payload

/-- The input path of the Work that the handler submits. -/
theorem submission_inputPath
    (hreach : (machine cfg).Reachable s) (hprocess : s.process = some p) {c : Connection}
    {work : WorkRecord} (hsubmission : p.handler.submission? = some (c, work)) :
  work.inputPath = cfg.inputFile (bindText work.id)
  := by
  have hsubmits := (reachable_valid_recorded hreach).2 p c work hprocess hsubmission
  obtain ⟨draws, hdraws⟩ := hsubmits.id
  have hnul : 0 ∉ work.id := by
    rw [hdraws]
    exact nulFree_makeWorkId draws
  rw [hsubmits.inputPath, Config.inputFile, bindText, CString.toBytes_ofBytes hnul]

theorem Config.inputFile_injective {id id' : CString} (h : cfg.inputFile id = cfg.inputFile id') :
  id = id'
  := CString.toBytes_injective (inputPath_injective h)

/-- The input file of a Work that is not acknowledged stays. -/
theorem Inputs.keeps
    (h : Inputs cfg s) (hreach : (machine cfg).Reachable s) (hmove : Move cfg s s') {id : CString}
    {w : Row} (hrow : s.store.row? id = some w) (hneeded : Needed w) :
  s'.files (cfg.inputFile id) = s.files (cfg.inputFile id)
  := by
  rcases hmove.keepsInputs hreach with ⟨p, hprocess, hhandler⟩ | ⟨hfiles, -⟩
  · -- The Work that is submitted has no row yet.
    have hother : ∀ {c work}, p.handler.submission? = some (c, work) →
        work.inputPath = cfg.inputFile (bindText work.id) ∧ id ≠ bindText work.id := by
      intro c work hsubmission
      refine ⟨submission_inputPath hreach hprocess hsubmission, ?_⟩
      rintro rfl
      rw [h.new p c work hprocess hsubmission] at hrow
      cases hrow
    have hfound : ∀ {work}, p.handler.found? = some work →
        work.resultPath = cfg.resultFile (bindText work.id)
          ∧ work.inputPath = cfg.inputFile (bindText work.id) := by
      intro work hfound
      exact reachable_paths hreach
        (reachable_holds hreach hprocess (Process.mem_records_of_handler hfound))
    cases hhandler with
    | writePart count hphase =>
        obtain ⟨hpath, -⟩ := hother (by rw [hphase]; rfl)
        exact Files.write_of_ne (inputPath_ne_temporary _ _ _) _
    | write hphase => exact Files.write_of_ne (inputPath_ne_temporary _ _ _) _
    | rename hphase hrename =>
        obtain ⟨hpath, hne⟩ := hother (by rw [hphase]; rfl)
        apply (Files.rename_eq_some hrename).2 _ (inputPath_ne_temporary _ _ _)
        rw [hpath]
        exact fun heq => hne (Config.inputFile_injective heq)
    | @removeInput c work hphase =>
        obtain ⟨-, hpath⟩ := hfound (by rw [hphase]; rfl)
        apply Files.remove_of_ne
        rw [hpath]
        intro heq
        obtain rfl := Config.inputFile_injective heq
        obtain ⟨w', hrow', hstate, hacknowledged⟩ :=
          (reachable_acknowledging hreach hprocess).removing work (by rw [hphase]; rfl)
        cases hrow.symm.trans hrow'
        rw [hneeded hstate] at hacknowledged
        cases hacknowledged
    | removeResult hphase =>
        obtain ⟨hpath, -⟩ := hfound (by rw [hphase]; rfl)
        apply Files.remove_of_ne
        rw [hpath]
        exact (inputPath_ne_resultPath _ _ _).1
    | _ => rfl
  · exact (hfiles id.toBytes).1

/-- A Work that is not acknowledged after a step was not acknowledged before it. -/
theorem Needed.before
    {picked : CString → CString → CString → Prop} {store store' : Store} {owners owners' : List Owner}
    (hstep : Ledger.Step picked store owners store' owners') {id : CString} {w w' : Row}
    (hrow : store.row? id = some w) (hrow' : store'.row? id = some w') (h : Needed w') :
  Needed w
  := by
  intro hstate
  by_contra hacknowledged
  rw [Bool.not_eq_false] at hacknowledged
  cases hrow'.symm.trans (acknowledged_stays hstep hrow hstate hacknowledged)
  rw [h hstate] at hacknowledged
  cases hacknowledged

/-- The accepted `SUBMIT`s after a step. -/
theorem Inputs.submitted
    (h : Inputs cfg s) (hreach : (machine cfg).Reachable s) (hmove : Move cfg s s') :
  (s'.history.submitted = s.history.submitted
      ∧ ∀ id, s.store.row? id = none → s'.store.row? id = none)
    ∨ ∃ p c work, s.process = some p ∧ p.handler = .submitStoring c work ∧ s'.files = s.files
      ∧ (∀ p', s'.process = some p' → p'.handler = .idle)
      ∧ s'.history.submitted = s.history.submitted ++ [(bindText work.id, c.request)]
      ∧ s.store.row? (bindText work.id) = none
      ∧ ∀ request, (bindText work.id, request) ∉ s.history.submitted
  := by
  apply hmove.submitted.imp_right
  rintro ⟨request, work, ⟨p, c, hprocess, hphase, rfl⟩, hsubmitted, -⟩
  obtain ⟨hfiles, hidle⟩ := hmove.accepts (by rw [hsubmitted]; simp)
  have hnew := h.new p c work hprocess (by rw [hphase]; rfl)
  refine ⟨p, c, work, hprocess, hphase, hfiles, hidle, hsubmitted, hnew, ?_⟩
  intro request hmem
  obtain ⟨-, w, -, -, hrow, -⟩ := (reachable_filed hreach).filed _ request hmem
  rw [hnew] at hrow
  cases hrow

/-- What the handler submits goes on from file to file. -/
theorem Inputs.handler
    (h : Inputs cfg s) (hreach : (machine cfg).Reachable s) (hmove : Move cfg s s')
    (hprocess' : s'.process = some p') {c : Connection} {work : WorkRecord} :
  (p'.handler = .submitRenaming c work →
    s'.files (temporary (cfg.inputFile (bindText work.id))) = some c.request.payload)
  ∧ (p'.handler = .submitStoring c work →
    s'.files (cfg.inputFile (bindText work.id)) = some c.request.payload)
  := by
  rcases hmove.keepsInputs hreach with ⟨p, hprocess, hhandler⟩ | ⟨hfiles, hhandler⟩
  · cases hhandler with
    | @write c' work' hphase =>
        cases hprocess'
        refine ⟨?_, nofun⟩
        rintro ⟨⟩
        rw [← submission_inputPath hreach hprocess (by rw [hphase]; rfl)]
        exact if_pos rfl
    | @rename c' work' files hphase hrename =>
        cases hprocess'
        refine ⟨nofun, ?_⟩
        rintro ⟨⟩
        have hpath := submission_inputPath hreach hprocess (by rw [hphase]; rfl)
        rw [← hpath]
        apply (Files.rename_eq_some hrename).1.trans
        rw [hpath]
        exact h.moving p c work hprocess hphase
    | _ =>
        cases hprocess'
        exact ⟨nofun, nofun⟩
  · constructor
    · intro hphase
      rcases hhandler p' hprocess' with hidle | ⟨p, hprocess, hsame⟩
      · rw [hphase] at hidle
        cases hidle
      · rw [hphase] at hsame
        exact (hfiles _).2.trans (h.moving p c work hprocess hsame.symm)
    · intro hphase
      rcases hhandler p' hprocess' with hidle | ⟨p, hprocess, hsame⟩
      · rw [hphase] at hidle
        cases hidle
      · rw [hphase] at hsame
        exact (hfiles _).1.trans (h.storing p c work hprocess hsame.symm)

/-- A task that begins to execute has read the payload of its `SUBMIT`. -/
theorem Inputs.read
    (h : Inputs cfg s) (hreach : (machine cfg).Reachable s) (hprocess : s.process = some p)
    {t : Task} (ht : t ∈ p.tasks) {content : Bytes}
    (hread : readBinaryBounded s.files t.work.inputPath = .ok content) :
  ∃ request, (bindText t.work.id, request) ∈ s.history.submitted ∧ content = request.payload
  := by
  obtain ⟨w, hrow, hrunning, -⟩ := reachable_task hreach hprocess ht
  obtain ⟨request, hsubmitted⟩ := (reachable_filed hreach).origin _ w hrow
  use request, hsubmitted
  have hneeded : Needed w := by
    intro hstate
    rw [hrunning] at hstate
    cases hstate
  have hpath := (reachable_paths hreach
    (reachable_holds hreach hprocess (Process.mem_records_of_task ht))).2
  have hfile := h.files _ request w hsubmitted hrow hneeded
  rw [Config.inputFile, ← hpath, files_of_readBinaryBounded hread] at hfile
  exact Option.some.inj hfile

theorem Inputs.step
    (h : Inputs cfg s) (hreach : (machine cfg).Reachable s) {e : System.Event}
    (hfresh : s.DrawsFresh e) (hstep : s.step cfg e = some s') :
  Inputs cfg s'
  := by
  have hmove := System.step_move hstep
  have hledger := reachable_step hreach hstep
  have hsubmitted := h.submitted hreach hmove
  have hgrows : ∀ entry ∈ s.history.submitted, entry ∈ s'.history.submitted := by
    intro entry hmem
    rcases hsubmitted with ⟨hsame, -⟩ | ⟨p, c, work, -, -, -, -, hnew, -⟩
    · rw [hsame]
      exact hmem
    · rw [hnew]
      exact List.mem_append_left _ hmem
  constructor
  · intro id request request' hmem hmem'
    rcases hsubmitted with ⟨hsame, -⟩ | ⟨p, c, work, -, -, -, -, hnew, -, hnone⟩
    · rw [hsame] at hmem hmem'
      exact h.unique id request request' hmem hmem'
    · simp only [hnew, List.mem_append, List.mem_singleton, Prod.mk.injEq] at hmem hmem'
      rcases hmem with hmem | ⟨rfl, rfl⟩
      · rcases hmem' with hmem' | ⟨rfl, rfl⟩
        · exact h.unique id request request' hmem hmem'
        · exact absurd hmem (hnone request)
      · rcases hmem' with hmem' | ⟨-, rfl⟩
        · exact absurd hmem' (hnone request')
        · rfl
  · intro id request w' hmem hrow' hneeded
    have hold : (id, request) ∈ s.history.submitted →
        s'.files (cfg.inputFile id) = some request.payload := by
      intro hmem
      obtain ⟨-, w, -, -, hrow, -⟩ := (reachable_filed hreach).filed id request hmem
      have hbefore := Needed.before hledger hrow hrow' hneeded
      rw [h.keeps hreach hmove hrow hbefore]
      exact h.files id request w hmem hrow hbefore
    rcases hsubmitted with ⟨hsame, -⟩ | ⟨p, c, work, hprocess, hphase, hfiles, -, hnew, -⟩
    · rw [hsame] at hmem
      exact hold hmem
    · rw [hnew, List.mem_append, List.mem_singleton, Prod.mk.injEq] at hmem
      rcases hmem with hmem | ⟨rfl, rfl⟩
      · exact hold hmem
      · rw [hfiles]
        exact h.storing p c work hprocess hphase
  · intro p' c work hprocess' hsubmission
    have hnone : s.store.row? (bindText work.id) = none := by
      rcases step_submits hstep hprocess' hsubmission with
        ⟨p, hprocess, hold⟩ | ⟨nowMs, draws, faults, rfl, hsubmit, hid, -⟩
      · exact h.new p c work hprocess hold
      · rw [hid]
        exact hfresh hsubmit
    rcases hsubmitted with ⟨-, hkeeps⟩ | ⟨p, c', work', -, -, -, hidle, -⟩
    · exact hkeeps _ hnone
    · rw [hidle p' hprocess'] at hsubmission
      cases hsubmission
  · intro p' c work hprocess'
    exact (h.handler hreach hmove hprocess').1
  · intro p' c work hprocess'
    exact (h.handler hreach hmove hprocess').2
  · intro p' t input hprocess' ht hphase
    rcases step_tasks hstep hprocess' ht with
      ⟨p, hprocess, hold⟩ | hstarting | ⟨p, before, taskInput, step, hprocess, hbefore, htask, hnext,
        hwork, -⟩
    · obtain ⟨request, hmem, hinput⟩ := h.executing p t input hprocess hold hphase
      exact ⟨request, hgrows _ hmem, hinput⟩
    · rw [hphase] at hstarting
      cases hstarting
    · rw [hphase] at hnext
      obtain ⟨-, hread⟩ := taskStep_executing htask hnext
      obtain ⟨request, hmem, hinput⟩ := h.read hreach hprocess hbefore hread
      rw [hwork]
      exact ⟨request, hgrows _ hmem, hinput⟩

theorem inputs_init (h : s.Initial) :
  Inputs cfg s
  := by
  obtain ⟨-, hprocess, hhistory⟩ := h
  constructor
  · intro id request request' hmem
    rw [hhistory] at hmem
    cases hmem
  · intro id request w hmem
    rw [hhistory] at hmem
    cases hmem
  all_goals
    intro p _ _ hp
    rw [hprocess] at hp
    cases hp

/-- In every run whose `SUBMIT`s draw new ids. -/
theorem inputs_run
    {s₀ : System} {es : List System.Event} (hinit : s₀.Initial)
    (hrun : (machine cfg).run s₀ es = some s)
    (hguard : (machine cfg).Within System.DrawsFresh s₀ es) :
  Inputs cfg s
  := by
  have hstart : (machine cfg).Reachable s₀ ∧ Inputs cfg s₀ :=
    ⟨⟨s₀, [], hinit, rfl⟩, inputs_init hinit⟩
  refine (hguard.preserves (P := fun s => (machine cfg).Reachable s ∧ Inputs cfg s) ?_ hstart
    hrun).2
  rintro s e s' ⟨hreach, hinputs⟩ hfresh hstep
  exact ⟨hreach.step hstep, hinputs.step hreach hfresh hstep⟩

/-- The input file of a Work whose result is not acknowledged holds the payload of the one `SUBMIT`
that made the Work, and an attempt executes this payload. -/
theorem executed_input
    {s₀ : System} {es : List System.Event} (hinit : s₀.Initial)
    (hrun : (machine cfg).run s₀ es = some s)
    (hguard : (machine cfg).Within System.DrawsFresh s₀ es) {id : CString} {w : Row}
    (hrow : s.store.row? id = some w) :
  ∃ request, (id, request) ∈ s.history.submitted
    ∧ (∀ request', (id, request') ∈ s.history.submitted → request' = request)
    ∧ (Needed w → s.files w.inputPath.toBytes = some request.payload)
    ∧ ∀ p t input, s.process = some p → t ∈ p.tasks → bindText t.work.id = id →
      t.phase = .executing input → input = request.payload
  := by
  have hinputs := inputs_run hinit hrun hguard
  have hreach : (machine cfg).Reachable s := ⟨s₀, es, hinit, hrun⟩
  obtain ⟨request, hmem⟩ := (reachable_filed hreach).origin id w hrow
  refine ⟨request, hmem, fun request' hmem' => hinputs.unique id request' request hmem' hmem, ?_, ?_⟩
  · rw [(reachable_row_paths hreach hrow).1]
    exact hinputs.files id request w hmem hrow
  · rintro p t input hprocess ht rfl hphase
    obtain ⟨request', hmem', rfl⟩ := hinputs.executing p t input hprocess ht hphase
    rw [hinputs.unique _ request' request hmem' hmem]

theorem executed_input_first :
  ∃ s w request, (machine Sample.config).Reachable s
    ∧ s.store.row? (bindText Sample.workId) = some w ∧ w.state = .running
    ∧ (bindText Sample.workId, request) ∈ s.history.submitted
    ∧ s.files w.inputPath.toBytes = some request.payload
  := by
  have hcheck : ((machine Sample.config).runWithin (fun s e => s.DrawsFresh e) Sample.start
      (Sample.dispatched ++ [.task 0 (.proceed 0 [])])).any
      (fun s => (s.store.row? (bindText Sample.workId)).any (·.state = .running)) = true := by
    decide +kernel
  obtain ⟨s, hrunWithin, hs⟩ := (Option.any_eq_true _ _).mp hcheck
  obtain ⟨hguard, hrun⟩ := Machine.within_of_runWithin hrunWithin
  obtain ⟨w, hrow, hw⟩ := (Option.any_eq_true _ _).mp hs
  have hrunning : w.state = .running := by simpa using hw
  have hinit : Sample.start.Initial := ⟨rfl, rfl, rfl⟩
  obtain ⟨request, hmem, -, hfile, -⟩ := executed_input hinit hrun
    (hguard.mono fun _ _ h => of_decide_eq_true h) hrow
  refine ⟨s, w, request, ⟨Sample.start, _, hinit, hrun⟩, hrow, hrunning, hmem, hfile ?_⟩
  intro hstate
  rw [hrunning] at hstate
  cases hstate

end Kernel
