import MadreKernel.Kernel.Paths

/-!
# The effect of `SUBMIT`

The handler of a `SUBMIT` writes the input file before it inserts the row.  What a whole request
does to the data directory is what these steps do one after the other: whatever the id, nothing
else of an existing Work changes, and only an id that is already in use makes the handler touch
the input file of an existing Work.
-/

namespace Kernel

open WorkStore

/-- The handler waits for a request. -/
def System.handlerIdle (s : System) : Bool := s.process.any (·.handler = .idle)

/-- The handler serves a request: the state after its steps, the last of which makes it idle
again. -/
def System.serve (cfg : Config) (s : System) : List System.HandlerInput → Option System
  | [] => none
  | input :: inputs =>
      match s.process with
      | none => none
      | some p =>
          (s.handlerStep cfg p input).bind fun t =>
            if t.handlerIdle then if inputs.isEmpty then some t else none
            else serve cfg t inputs

/-- An existing Work has the same row, and its two files have the same content. -/
def Untouched (s s' : System) (id : CString) (w : Row) : Prop :=
  s'.store.row? id = some w
    ∧ s'.files w.inputPath.toBytes = s.files w.inputPath.toBytes
    ∧ s'.files w.resultPath.toBytes = s.files w.resultPath.toBytes

/-- A `SUBMIT` is accepted whole or has no effect on existing Works. -/
structure AllOrNothing (request : Frame) (s s' : System) (reply : Frame) : Prop where
  answered : reply.type = MessageType.error.code ∨ reply.type = MessageType.submitResponse.code
  refused : reply.type = MessageType.error.code →
    ∀ id w, s.store.row? id = some w → Untouched s s' id w
  accepted : reply.type = MessageType.submitResponse.code →
    ∃ id row, metadataValue reply "work_id" = .ok id.toBytes ∧ s.store.row? id = none
      ∧ row.state = .queued
      ∧ (∀ j, s'.store.row? j = if j = id then some row else s.store.row? j)
      ∧ s'.files row.inputPath.toBytes = some request.payload
      ∧ ∀ j w, s.store.row? j = some w → Untouched s s' j w

/-- The input throws. -/
def System.HandlerInput.throws : System.HandlerInput → Bool
  | .throw _ => true
  | _ => false

/-- The handler gets as far as the input file of an existing Work, whose content is another
one: the request passes the checks, its id is in use, and no file operation throws. -/
def Collides (cfg : Config) (s : System) (request : Frame) (nowMs : Int64)
    (draws : UInt64 × UInt64) (inputs : List System.HandlerInput) : Prop :=
  request.payload.length ≤ Wire.kMaxC1TextGenerationOpaquePayloadBytes
    ∧ (∃ work, submitRecord cfg.dataDir request nowMs draws = .ok work)
    ∧ (∃ w, s.store.row? (bindText (makeWorkId draws)) = some w)
    ∧ s.files (inputPath cfg.dataDir (makeWorkId draws)) ≠ some request.payload
    ∧ inputs.all (!·.throws)

/-! ### The steps of a submission -/

/-- The files agree away from some paths. -/
def Files.AgreeOff (paths : List Bytes) (files files' : Files) : Prop :=
  ∀ path, path ∉ paths → files' path = files path

/-- The files at a point of a submission. -/
inductive Submitting (s : System) (c : Connection) (work : WorkRecord) :
    HandlerPhase → Files → Prop where
  | opened {files : Files} (h : s.files.AgreeOff [temporary work.inputPath] files) :
      Submitting s c work (.submitWriting c work) files
  | written {files : Files} (h : s.files.AgreeOff [temporary work.inputPath] files)
      (hcontent : files (temporary work.inputPath) = some c.request.payload) :
      Submitting s c work (.submitRenaming c work) files
  | renamed {files : Files}
      (h : s.files.AgreeOff [temporary work.inputPath, work.inputPath] files)
      (hcontent : files work.inputPath = some c.request.payload) :
      Submitting s c work (.submitStoring c work) files

/-- What a submission comes to, from the steps that are left of it. -/
inductive Submitted (s : System) (p : Process) (c : Connection) (work : WorkRecord)
    (inputs : List System.HandlerInput) : System → Prop where
  /-- a file operation threw -/
  | thrown {files : Files} {text : Bytes} (hthrow : .throw text ∈ inputs)
      (h : s.files.AgreeOff [temporary work.inputPath] files) :
      Submitted s p c work inputs (s.reply p s.store files c (throwResponse c.hello text))
  /-- the row was not inserted -/
  | refused {files : Files} {text : Bytes} (hquiet : inputs.all (!·.throws))
      (h : s.files.AgreeOff [temporary work.inputPath, work.inputPath] files)
      (hcontent : files work.inputPath = some c.request.payload) :
      Submitted s p c work inputs (s.reply p s.store files c (throwResponse c.hello text))
  | accepted {files : Files} {store : Store} {submitted : List (CString × Frame)}
      (hquiet : inputs.all (!·.throws))
      (h : s.files.AgreeOff [temporary work.inputPath, work.inputPath] files)
      (hcontent : files work.inputPath = some c.request.payload)
      (hnew : s.store.row? (bindText work.id) = none)
      (hrows : ∀ j, store.row? j
        = if j = bindText work.id then some (submittedRow work) else s.store.row? j) :
      Submitted s p c work inputs
        { s.reply p store files c (System.submitReply c.request work) with
          history :=
            { s.history with
              submitted
              replies := s.history.replies ++ [(c.request, System.submitReply c.request work)] } }

variable {cfg : Config} {s s' t : System} {p : Process} {c : Connection} {work : WorkRecord}

/-- The system at a point of a submission. -/
def System.submittingAt (s : System) (p : Process) (files : Files) (handler : HandlerPhase) :
    System :=
  { s with files, process := some { p with handler } }

theorem Files.AgreeOff.write
    {files files' : Files} {paths : List Bytes} (h : files.AgreeOff paths files') {path : Bytes}
    (hpath : path ∈ paths) (content : Bytes) :
  files.AgreeOff paths (files'.write path content)
  := by
  intro other hother
  have hne : other ≠ path := fun heq => hother (heq ▸ hpath)
  rw [Files.write_of_ne hne]
  apply h other hother

/-- The step that writes the temporary file. -/
theorem submitting_writing
    {files : Files} (h : s.files.AgreeOff [temporary work.inputPath] files)
    {input : System.HandlerInput}
    (hstep : (s.submittingAt p files (.submitWriting c work)).handlerStep cfg
      { p with handler := .submitWriting c work } input = some t) :
  (∃ handler files', t = s.submittingAt p files' handler ∧ Submitting s c work handler files'
      ∧ input.throws = false)
    ∨ Submitted s p c work [input] t
  := by
  cases input with
  | request c nowMs draws faults => cases hstep
  | write count =>
      cases hstep
      apply Or.inl
      exact ⟨_, _, rfl, .opened (h.write List.mem_cons_self _), rfl⟩
  | proceed faults =>
      cases hstep
      apply Or.inl
      exact ⟨_, _, rfl, .written (h.write List.mem_cons_self _) (if_pos rfl), rfl⟩
  | throw text =>
      cases hstep
      apply Or.inr
      exact .thrown List.mem_cons_self h

/-- The step that renames the temporary file. -/
theorem submitting_renaming
    {files : Files} (h : s.files.AgreeOff [temporary work.inputPath] files)
    (hcontent : files (temporary work.inputPath) = some c.request.payload)
    {input : System.HandlerInput}
    (hstep : (s.submittingAt p files (.submitRenaming c work)).handlerStep cfg
      { p with handler := .submitRenaming c work } input = some t) :
  (∃ handler files', t = s.submittingAt p files' handler ∧ Submitting s c work handler files'
      ∧ input.throws = false)
    ∨ Submitted s p c work [input] t
  := by
  cases input with
  | request c nowMs draws faults => cases hstep
  | write count => cases hstep
  | proceed faults =>
      simp only [System.handlerStep, System.proceed, System.submittingAt,
        Option.map_eq_some_iff] at hstep
      obtain ⟨files', hrename, rfl⟩ := hstep
      obtain ⟨htarget, hother⟩ := Files.rename_eq_some hrename
      apply Or.inl
      refine ⟨_, files', rfl, .renamed ?_ (htarget.trans hcontent), rfl⟩
      intro path hpath
      simp only [List.mem_cons, List.not_mem_nil, or_false, not_or] at hpath
      rw [hother path hpath.1 hpath.2]
      apply h path
      simpa using hpath.1
  | throw text =>
      cases hstep
      apply Or.inr
      exact .thrown List.mem_cons_self h

/-- The step that inserts the row. -/
theorem submitting_storing
    {files : Files} (h : s.files.AgreeOff [temporary work.inputPath, work.inputPath] files)
    (hcontent : files work.inputPath = some c.request.payload) {input : System.HandlerInput}
    (hstep : (s.submittingAt p files (.submitStoring c work)).handlerStep cfg
      { p with handler := .submitStoring c work } input = some t) :
  Submitted s p c work [input] t
  := by
  cases input with
  | request c nowMs draws faults => cases hstep
  | write count => cases hstep
  | proceed faults =>
      simp only [System.handlerStep, System.proceed, System.submittingAt] at hstep
      rcases (submit_atomic work).exec_cases faults s.store with
        ⟨e, hexec⟩ | ⟨⟨⟩, store, hexec, heval⟩
      · rw [hexec] at hstep
        cases hstep
        exact .refused rfl h hcontent
      · rw [hexec] at hstep
        cases hstep
        obtain ⟨hnew, -, hview⟩ := submit_acts heval
        apply Submitted.accepted rfl h hcontent hnew
        intro j
        have hrow := congrArg WorkView.row? (hview j)
        rw [apply_ite WorkView.row?] at hrow
        exact hrow
  | throw text => cases hstep

theorem Submitting.step
    {handler : HandlerPhase} {files : Files} (h : Submitting s c work handler files)
    {input : System.HandlerInput}
    (hstep : (s.submittingAt p files handler).handlerStep cfg { p with handler } input = some t) :
  (∃ handler files', t = s.submittingAt p files' handler ∧ Submitting s c work handler files'
      ∧ input.throws = false)
    ∨ Submitted s p c work [input] t
  := by
  cases h with
  | opened h => exact submitting_writing h hstep
  | written h hcontent => exact submitting_renaming h hcontent hstep
  | renamed h hcontent => exact Or.inr (submitting_storing h hcontent hstep)

/-- A step that does not throw, before what the submission comes to. -/
theorem Submitted.cons
    {input : System.HandlerInput} {inputs : List System.HandlerInput}
    (h : Submitted s p c work inputs t) (hinput : input.throws = false) :
  Submitted s p c work (input :: inputs) t
  := by
  have hall : inputs.all (!·.throws) → (input :: inputs).all (!·.throws) := by
    intro hquiet
    rw [List.all_cons, hinput, hquiet]
    rfl
  cases h with
  | thrown hthrow h => exact .thrown (List.mem_cons_of_mem _ hthrow) h
  | refused hquiet h hcontent => exact .refused (hall hquiet) h hcontent
  | accepted hquiet h hcontent hnew hrows => exact .accepted (hall hquiet) h hcontent hnew hrows

/-- The handler is idle after what a submission comes to. -/
theorem Submitted.idle
    {inputs : List System.HandlerInput} (h : Submitted s p c work inputs t) :
  t.handlerIdle = true
  := by
  cases h <;> rfl

theorem System.serve_cons
    {input : System.HandlerInput} {inputs : List System.HandlerInput}
    (hprocess : s.process = some p) (h : s.serve cfg (input :: inputs) = some s') :
  ∃ t, s.handlerStep cfg p input = some t
    ∧ (t.handlerIdle = true ∧ inputs = [] ∧ s' = t
      ∨ t.handlerIdle = false ∧ t.serve cfg inputs = some s')
  := by
  simp only [serve, hprocess, Option.bind_eq_some_iff] at h
  obtain ⟨t, hstep, h⟩ := h
  use t, hstep
  cases hidle : t.handlerIdle with
  | true =>
      rw [hidle, if_pos rfl] at h
      split_ifs at h with hlast
      cases h
      exact Or.inl ⟨rfl, List.isEmpty_iff.mp hlast, rfl⟩
  | false =>
      rw [hidle, if_neg Bool.false_ne_true] at h
      exact Or.inr ⟨rfl, h⟩

theorem Submitting.not_idle
    {handler : HandlerPhase} {files : Files} (h : Submitting s c work handler files) :
  (s.submittingAt p files handler).handlerIdle = false
  := by
  cases h <;> rfl

theorem Submitting.serve
    {inputs : List System.HandlerInput} {handler : HandlerPhase} {files : Files}
    (h : Submitting s c work handler files)
    (hserve : (s.submittingAt p files handler).serve cfg inputs = some s') :
  Submitted s p c work inputs s'
  := by
  induction inputs generalizing handler files with
  | nil => cases hserve
  | cons input inputs ih =>
      obtain ⟨t, hstep, hnext⟩ := System.serve_cons rfl hserve
      rcases h.step hstep with ⟨handler', files', rfl, h', hinput⟩ | hdone
      · rcases hnext with ⟨hidle, -⟩ | ⟨-, hserve⟩
        · rw [h'.not_idle] at hidle
          cases hidle
        · apply (ih h' hserve).cons hinput
      · rcases hnext with ⟨-, rfl, rfl⟩ | ⟨hbusy, -⟩
        · exact hdone
        · rw [hdone.idle] at hbusy
          cases hbusy

/-- The first step of a `SUBMIT`: the request does not pass the checks, or the handler goes on to
the input file. -/
theorem handle_submit
    {nowMs : Int64} {draws : UInt64 × UInt64} {faults : List (Option Bytes)}
    (hidle : p.handler = .idle) (hsubmit : c.request.type = MessageType.submit.code)
    (hstep : s.handlerStep cfg p (.request c nowMs draws faults) = some t) :
  (∃ frame, frame.type = MessageType.error.code ∧ t = s.reply p s.store s.files c frame
      ∧ ¬(c.request.payload.length ≤ Wire.kMaxC1TextGenerationOpaquePayloadBytes
        ∧ ∃ work, submitRecord cfg.dataDir c.request nowMs draws = .ok work))
    ∨ (∃ work, c.request.payload.length ≤ Wire.kMaxC1TextGenerationOpaquePayloadBytes
      ∧ submitRecord cfg.dataDir c.request nowMs draws = .ok work
      ∧ t = s.submittingAt p s.files (.submitWriting c work))
  := by
  simp only [System.handlerStep, hidle] at hstep
  split_ifs at hstep with hstop
  rw [System.handle, if_pos hsubmit] at hstep
  split_ifs at hstep with hsize
  · cases hstep
    apply Or.inl
    refine ⟨_, rfl, rfl, ?_⟩
    rintro ⟨hle, -⟩
    omega
  · cases hrecord : submitRecord cfg.dataDir c.request nowMs draws with
    | error e =>
        rw [hrecord] at hstep
        cases hstep
        apply Or.inl
        refine ⟨_, rfl, rfl, ?_⟩
        rintro ⟨-, work, hwork⟩
        cases hwork
    | ok work =>
        rw [hrecord] at hstep
        cases hstep
        apply Or.inr
        exact ⟨work, by omega, rfl, rfl⟩

/-! ### What a submission touches -/

theorem inputPath_injective {dataDir id id' : Bytes} (h : inputPath dataDir id = inputPath dataDir id') :
  id = id'
  := workDir_injective (List.append_cancel_right h)

/-- The paths in the row of a Work. -/
theorem reachable_row_paths
    (h : (machine cfg).Reachable s) {id : CString} {w : Row} (hrow : s.store.row? id = some w) :
  w.inputPath.toBytes = inputPath cfg.dataDir id.toBytes
    ∧ w.resultPath.toBytes = resultPath cfg.dataDir id.toBytes
  := by
  obtain ⟨hresult, hinput⟩ := reachable_paths h (Store.Holds.of_row? hrow)
  rw [bindText_readWork_id, Store.id_of_row? hrow] at hresult hinput
  exact ⟨hinput, hresult⟩

/-- Files that agree away from the paths of a submission agree on those of another Work. -/
theorem untouched_of_agreeOff
    (h : (machine cfg).Reachable s) {id : CString} {w : Row} (hrow : s.store.row? id = some w)
    {paths : List Bytes} (other : Bytes)
    (hfiles : s.files.AgreeOff paths s'.files) (hstore : s'.store.row? id = some w)
    (hpaths : ∀ path ∈ paths, path = temporary (inputPath cfg.dataDir other)
      ∨ path = inputPath cfg.dataDir other ∧ id.toBytes ≠ other) :
  Untouched s s' id w
  := by
  obtain ⟨hinput, hresult⟩ := reachable_row_paths h hrow
  refine ⟨hstore, hfiles _ ?_, hfiles _ ?_⟩
  · intro hmem
    rw [hinput] at hmem
    rcases hpaths _ hmem with heq | ⟨heq, hne⟩
    · exact inputPath_ne_temporary _ _ _ heq
    · exact hne (inputPath_injective heq)
  · intro hmem
    rw [hresult] at hmem
    rcases hpaths _ hmem with heq | ⟨heq, -⟩
    · exact resultPath_ne_temporary _ _ _ heq
    · exact resultPath_ne_inputPath _ _ _ heq

/-- The id of a submission, and its paths. -/
theorem submission_paths
    {request : Frame} {nowMs : Int64} {draws : UInt64 × UInt64}
    (hrecord : submitRecord cfg.dataDir request nowMs draws = .ok work) :
  work.id = makeWorkId draws ∧ (bindText work.id).toBytes = work.id
    ∧ work.inputPath = inputPath cfg.dataDir work.id
    ∧ (submittedRow work).inputPath.toBytes = work.inputPath ∧ work.state = .queued
  := by
  have hsubmits := submitRecord_submits hrecord
  obtain ⟨hid, -⟩ := submitRecord_times hrecord
  have hnul : 0 ∉ work.id := by
    rw [hid]
    apply nulFree_makeWorkId
  have hpath : 0 ∉ work.inputPath := by
    rw [hsubmits.inputPath]
    apply nulFree_inputPath cfg.dataDir_nulFree hnul
  exact ⟨hid, CString.toBytes_ofBytes hnul, hsubmits.inputPath, CString.toBytes_ofBytes hpath,
    hsubmits.state⟩

/-- A submission that does not insert its row leaves a Work untouched when it does not get to the
input file of that Work, or finds the payload there. -/
theorem untouched_of_refused
    (h : (machine cfg).Reachable s) {id : CString} {w : Row} (hrow : s.store.row? id = some w)
    (hpath : work.inputPath = inputPath cfg.dataDir work.id)
    (hfiles : s.files.AgreeOff [temporary work.inputPath, work.inputPath] s'.files)
    (hcontent : s'.files work.inputPath = some payload)
    (hsame : id.toBytes = work.id → s.files work.inputPath = some payload)
    (hstore : s'.store.row? id = some w) :
  Untouched s s' id w
  := by
  by_cases hid : id.toBytes = work.id
  · obtain ⟨hinput, hresult⟩ := reachable_row_paths h hrow
    rw [hid, ← hpath] at hinput
    refine ⟨hstore, ?_, hfiles _ ?_⟩
    · rw [hinput, hcontent, hsame hid]
    · rw [hresult, hpath]
      simp only [List.mem_cons, List.not_mem_nil, or_false, not_or]
      exact ⟨resultPath_ne_temporary _ _ _, resultPath_ne_inputPath _ _ _⟩
  · apply untouched_of_agreeOff h hrow work.id hfiles hstore
    intro path hmem
    rw [hpath] at hmem
    simp only [List.mem_cons, List.not_mem_nil, or_false] at hmem
    apply hmem.imp_right
    intro heq
    exact ⟨heq, hid⟩

theorem error_ne_submitResponse :
  MessageType.error.code ≠ MessageType.submitResponse.code
  := by
  decide

/-- A refusal that leaves the existing Works untouched. -/
theorem allOrNothing_of_untouched
    {request reply : Frame} (htype : reply.type = MessageType.error.code)
    (h : ∀ id w, s.store.row? id = some w → Untouched s s' id w) :
  AllOrNothing request s s' reply
  := by
  refine ⟨Or.inl htype, fun _ => h, ?_⟩
  intro hother
  exact absurd (htype.symm.trans hother) error_ne_submitResponse

section Submitted

variable {nowMs : Int64} {draws : UInt64 × UInt64} {inputs : List System.HandlerInput}
  {files : Files} {text : Bytes}

theorem thrown_allOrNothing
    (h : (machine cfg).Reachable s)
    (hrecord : submitRecord cfg.dataDir c.request nowMs draws = .ok work)
    (hfiles : s.files.AgreeOff [temporary work.inputPath] files) :
  AllOrNothing c.request s (s.reply p s.store files c (throwResponse c.hello text))
    (throwResponse c.hello text)
  := by
  obtain ⟨-, -, hpath, -⟩ := submission_paths hrecord
  apply allOrNothing_of_untouched rfl
  intro id w hrow
  apply untouched_of_agreeOff h hrow work.id
  · exact hfiles
  · exact hrow
  · intro path hmem
    rw [hpath, List.mem_singleton] at hmem
    exact Or.inl hmem

/-- A submission whose row is not inserted has changed the input file of an existing Work, when
its id is in use and the file had another content. -/
theorem refused_allOrNothing_iff
    (h : (machine cfg).Reachable s)
    (hsize : c.request.payload.length ≤ Wire.kMaxC1TextGenerationOpaquePayloadBytes)
    (hrecord : submitRecord cfg.dataDir c.request nowMs draws = .ok work)
    (hquiet : inputs.all (!·.throws))
    (hfiles : s.files.AgreeOff [temporary work.inputPath, work.inputPath] files)
    (hcontent : files work.inputPath = some c.request.payload) :
  AllOrNothing c.request s (s.reply p s.store files c (throwResponse c.hello text))
      (throwResponse c.hello text)
    ↔ ¬Collides cfg s c.request nowMs draws inputs
  := by
  obtain ⟨hid, hbytes, hpath, -⟩ := submission_paths hrecord
  constructor
  · rintro hall ⟨-, -, ⟨w, hrow⟩, hdifferent, -⟩
    have hinput := (hall.refused rfl _ w hrow).2.1
    rw [(reachable_row_paths h hrow).1, ← hid, hbytes, ← hpath] at hinput
    rw [← hid, ← hpath] at hdifferent
    exact hdifferent (hinput.symm.trans hcontent)
  · intro hfree
    apply allOrNothing_of_untouched rfl
    intro id w hrow
    apply untouched_of_refused h hrow hpath
    · exact hfiles
    · exact hcontent
    · intro hsame
      by_contra hdifferent
      apply hfree
      refine ⟨hsize, ⟨work, hrecord⟩, ⟨w, ?_⟩, ?_, hquiet⟩
      · rw [← hid, ← hsame, bindText, CString.ofBytes_toBytes]
        exact hrow
      · rw [← hid, ← hpath]
        exact hdifferent
    · exact hrow

theorem accepted_allOrNothing
    (h : (machine cfg).Reachable s)
    (hrecord : submitRecord cfg.dataDir c.request nowMs draws = .ok work)
    (hfiles : s.files.AgreeOff [temporary work.inputPath, work.inputPath] s'.files)
    (hcontent : s'.files work.inputPath = some c.request.payload)
    (hnew : s.store.row? (bindText work.id) = none)
    (hrows : ∀ j, s'.store.row? j
      = if j = bindText work.id then some (submittedRow work) else s.store.row? j) :
  AllOrNothing c.request s s' (System.submitReply c.request work)
  := by
  obtain ⟨-, hbytes, hpath, hrowPath, hqueued⟩ := submission_paths hrecord
  refine ⟨Or.inr rfl, fun htype => absurd htype error_ne_submitResponse.symm, ?_⟩
  intro
  refine ⟨bindText work.id, submittedRow work, ?_, hnew, hqueued, hrows, ?_, ?_⟩
  · rw [hbytes, metadataValue, System.submitReply, withField, SortedMap.find?_assign, if_pos rfl]
  · rw [hrowPath]
    exact hcontent
  · intro j w hrow
    have hne : j ≠ bindText work.id := by
      rintro rfl
      rw [hnew] at hrow
      cases hrow
    apply untouched_of_refused h hrow hpath hfiles hcontent
    · intro hsame
      apply absurd _ hne
      rw [← hsame, bindText, CString.ofBytes_toBytes]
    · exact (hrows j).trans ((if_neg hne).trans hrow)

/-- What a submission comes to is all or nothing, unless it gets to the input file of an existing
Work. -/
theorem Submitted.allOrNothing_iff
    (h : (machine cfg).Reachable s)
    (hsize : c.request.payload.length ≤ Wire.kMaxC1TextGenerationOpaquePayloadBytes)
    (hrecord : submitRecord cfg.dataDir c.request nowMs draws = .ok work)
    (hdone : Submitted s p c work inputs s') :
  ∃ reply, s'.history.replies = s.history.replies ++ [(c.request, reply)]
    ∧ (AllOrNothing c.request s s' reply ↔ ¬Collides cfg s c.request nowMs draws inputs)
  := by
  cases hdone with
  | thrown hthrow hfiles =>
      refine ⟨_, rfl, iff_of_true (thrown_allOrNothing h hrecord hfiles) ?_⟩
      rintro ⟨-, -, -, -, hquiet⟩
      cases List.all_eq_true.mp hquiet _ hthrow
  | refused hquiet hfiles hcontent =>
      exact ⟨_, rfl, refused_allOrNothing_iff h hsize hrecord hquiet hfiles hcontent⟩
  | accepted hquiet hfiles hcontent hnew hrows =>
      refine ⟨_, rfl, iff_of_true (accepted_allOrNothing h hrecord hfiles hcontent hnew hrows) ?_⟩
      rintro ⟨-, -, ⟨w, hrow⟩, -⟩
      rw [← (submission_paths hrecord).1, hnew] at hrow
      cases hrow

end Submitted

/-- A `SUBMIT` is all or nothing if and only if it does not get as far as the input file of an
existing Work with another content. -/
theorem submit_all_or_nothing
    (h : (machine cfg).Reachable s) (hprocess : s.process = some p) (hidle : p.handler = .idle)
    (hsubmit : c.request.type = MessageType.submit.code) {nowMs : Int64}
    {draws : UInt64 × UInt64} {faults : List (Option Bytes)} {inputs : List System.HandlerInput}
    (hserve : s.serve cfg (.request c nowMs draws faults :: inputs) = some s') :
  ∃ reply, s'.history.replies = s.history.replies ++ [(c.request, reply)]
    ∧ (AllOrNothing c.request s s' reply ↔ ¬Collides cfg s c.request nowMs draws inputs)
  := by
  obtain ⟨t, hstep, hnext⟩ := System.serve_cons hprocess hserve
  rcases handle_submit hidle hsubmit hstep with
    ⟨frame, htype, rfl, hchecks⟩ | ⟨work, hsize, hrecord, rfl⟩
  · rcases hnext with ⟨-, -, rfl⟩ | ⟨hbusy, -⟩
    · refine ⟨frame, rfl, iff_of_true ?_ ?_⟩
      · apply allOrNothing_of_untouched htype
        intro id w hrow
        exact ⟨hrow, rfl, rfl⟩
      · rintro ⟨hsize, hrecord, -⟩
        exact hchecks ⟨hsize, hrecord⟩
    · cases hbusy
  · rcases hnext with ⟨hidle, -⟩ | ⟨-, hserve⟩
    · cases hidle
    · have hstart : Submitting s c work (.submitWriting c work) s.files := .opened fun _ _ => rfl
      apply (hstart.serve hserve).allOrNothing_iff h hsize hrecord

/-- The steps of a `SUBMIT` whose file operations succeed. -/
def Sample.served (request : Frame) (draws : UInt64 × UInt64) : List System.HandlerInput :=
  [.request (connection request) 0 draws [], .proceed [], .proceed [], .proceed []]

/-- The input file of the first Work. -/
def Sample.inputFile : Bytes := inputPath config.dataDir workId

/-- A second Work with another id is all or nothing. -/
theorem submit_all_or_nothing_second :
  ∃ s p s' reply, (machine Sample.config).Reachable s ∧ s.process = some p ∧ p.handler = .idle
    ∧ s.serve Sample.config (Sample.served (Sample.frame .submit Sample.fields "other") (1, 1))
      = some s'
    ∧ AllOrNothing (Sample.frame .submit Sample.fields "other") s s' reply
  := by
  obtain ⟨s, hreach, hs⟩ := Sample.reachable
    (Sample.submitting (Sample.frame .submit Sample.fields "in"))
    (fun s => s.handlerIdle && (s.store.row? (bindText (makeWorkId (1, 1)))).isNone
      && (s.serve Sample.config
        (Sample.served (Sample.frame .submit Sample.fields "other") (1, 1))).isSome)
    (by decide +kernel)
  simp only [Bool.and_eq_true, Option.isNone_iff_eq_none] at hs
  obtain ⟨p, hprocess, hp⟩ := (Option.any_eq_true _ _).mp hs.1.1
  obtain ⟨s', hserve⟩ := Option.isSome_iff_exists.mp hs.2
  have hidle : p.handler = .idle := by simpa using hp
  obtain ⟨reply, -, hiff⟩ := submit_all_or_nothing hreach hprocess hidle rfl hserve
  refine ⟨s, p, s', reply, hreach, hprocess, hidle, hserve, hiff.mpr ?_⟩
  rintro ⟨-, -, ⟨w, hrow⟩, -⟩
  rw [hs.1.2] at hrow
  cases hrow

/-- A second Work with the id of the first is refused, and the input file of the first has
changed. -/
theorem submit_overwrites :
  ∃ s p s' reply, (machine Sample.config).Reachable s ∧ s.process = some p ∧ p.handler = .idle
    ∧ s.serve Sample.config (Sample.served (Sample.frame .submit Sample.fields "other") (0, 0))
      = some s'
    ∧ s'.history.replies
      = s.history.replies ++ [(Sample.frame .submit Sample.fields "other", reply)]
    ∧ s.files Sample.inputFile = some (Bytes.ofString "in")
    ∧ s'.files Sample.inputFile = some (Bytes.ofString "other")
    ∧ ¬AllOrNothing (Sample.frame .submit Sample.fields "other") s s' reply
  := by
  obtain ⟨s, hreach, hs⟩ := Sample.reachable
    (Sample.submitting (Sample.frame .submit Sample.fields "in"))
    (fun s => s.handlerIdle
      && (s.store.row? (bindText Sample.workId)).any (·.inputPath.toBytes = Sample.inputFile)
      && s.files Sample.inputFile = some (Bytes.ofString "in")
      && (s.serve Sample.config
        (Sample.served (Sample.frame .submit Sample.fields "other") (0, 0))).any fun s' =>
          s'.files Sample.inputFile = some (Bytes.ofString "other")
            && s.history.replies.length = 1
            && s'.history.replies.take 1 = s.history.replies
            && (s'.history.replies.drop 1).map (fun r => (r.1, r.2.type))
              = [(Sample.frame .submit Sample.fields "other", MessageType.error.code)])
    (by decide +kernel)
  simp only [Bool.and_eq_true, decide_eq_true_eq] at hs
  obtain ⟨⟨⟨hs, hrow⟩, hbefore⟩, hserved⟩ := hs
  obtain ⟨p, hprocess, hp⟩ := (Option.any_eq_true _ _).mp hs
  obtain ⟨w, hrow, hpath⟩ := (Option.any_eq_true _ _).mp hrow
  obtain ⟨s', hserve, hs'⟩ := (Option.any_eq_true _ _).mp hserved
  simp only [Bool.and_eq_true, decide_eq_true_eq] at hs' hpath
  obtain ⟨⟨⟨hafter, -⟩, hold⟩, hnew⟩ := hs'
  obtain ⟨⟨request, reply⟩, hreply, hnew⟩ := List.map_eq_singleton_iff.mp hnew
  obtain ⟨rfl, htype⟩ := Prod.mk.inj hnew
  refine ⟨s, p, s', reply, hreach, hprocess, by simpa using hp, hserve, ?_, hbefore, hafter, ?_⟩
  · rw [← hold, ← hreply, List.take_append_drop]
  · intro hall
    have hinput := (hall.refused htype _ w hrow).2.1
    rw [hpath, hbefore, hafter] at hinput
    revert hinput
    decide +kernel

end Kernel
