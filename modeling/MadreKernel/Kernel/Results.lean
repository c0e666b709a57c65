import MadreKernel.Kernel.Paths

/-!
# Results

The payload of a worker result goes to a temporary file, from there to the result file, and then
the success is recorded.  In every reachable state an attempt task that is about to record its
success has its payload in the result file of its Work, and the result file of a Work that has
succeeded and is not acknowledged holds the payload that its last attempt accepted.
-/

namespace Kernel

open WorkStore

/-! ### Success and acknowledgement in the store -/

/-- The action records a success. -/
def Succeeds : WorkAction → Prop
  | .finish _ workState _ _ _ => workState = .succeeded
  | _ => False

/-- A Work has succeeded after an action that records no success only if it had succeeded
before. -/
theorem apply_succeeded
    {a : WorkAction} (hlawful : a.Lawful) (ha : ¬Succeeds a) {v : WorkView} {w' : Row}
    (hrow' : (a.apply v).row? = some w') (hstate : w'.state = .succeeded) :
  ∃ w, v.row? = some w ∧ w.state = .succeeded ∧ w'.attemptCount = w.attemptCount
    ∧ (w'.acknowledged = false → w.acknowledged = false)
  := by
  cases hrow : v.row? with
  | none =>
      rw [a.apply_row?_eq_none hrow] at hrow'
      cases hrow'
  | some w =>
      obtain ⟨w₁, hrow₁, hfollows⟩ := WorkAction.apply_follows hlawful hrow
      obtain rfl : w' = w₁ := Option.some.inj (hrow'.symm.trans hrow₁)
      refine ⟨w, rfl, ?_⟩
      have hsucceeded : w.state = .succeeded := by
        rcases hfollows.state with hsame | htransition
        · exact hsame.symm.trans hstate
        · have hrunning : w.state = .running := by
            rw [hstate] at htransition
            revert htransition
            cases w.state <;> decide
          obtain ⟨w₂, hrow₂, hcases⟩ := a.apply_running hrow hrunning
          obtain rfl : w' = w₂ := Option.some.inj (hrow'.symm.trans hrow₂)
          rw [hstate] at hcases
          rcases hcases with hother | ⟨attemptState, text, number, endedAtMs, rfl⟩ | hother | hother
          · cases hother
          · exact absurd rfl ha
          · cases hother
          · simp at hother
      refine ⟨hsucceeded, ?_⟩
      have hterminal : w.state.terminal = true := by
        rw [hsucceeded]
        rfl
      rcases hfollows.finished hterminal with rfl | ⟨-, hfalse, rfl⟩
      · exact ⟨rfl, fun h => h⟩
      · exact ⟨rfl, fun _ => hfalse⟩

/-- No Work succeeds between two databases. -/
def NoneSucceeds (s s' : Store) : Prop :=
  ∀ id w', s'.row? id = some w' → w'.state = .succeeded →
    ∃ w, s.row? id = some w ∧ w.state = .succeeded ∧ w'.attemptCount = w.attemptCount
      ∧ (w'.acknowledged = false → w.acknowledged = false)

theorem NoneSucceeds.refl (s : Store) :
  NoneSucceeds s s
  := fun _ w hrow hstate => ⟨w, hrow, hstate, rfl, fun h => h⟩

theorem NoneSucceeds.of_actsAt {a : WorkAction} {id : CString} {s s' : Store} (h : a.ActsAt id s s')
    (hlawful : a.Lawful) (ha : ¬Succeeds a) :
  NoneSucceeds s s'
  := by
  intro j w' hrow' hstate
  have hview := congrArg WorkView.row? (h j)
  split_ifs at hview
  · exact apply_succeeded hlawful ha (hview.symm.trans hrow') hstate
  · exact NoneSucceeds.refl s j w' (hview.symm.trans hrow') hstate

theorem NoneSucceeds.of_actsEverywhere {a : WorkAction} {s s' : Store} (h : a.ActsEverywhere s s')
    (hlawful : a.Lawful) (ha : ¬Succeeds a) :
  NoneSucceeds s s'
  := by
  intro j w' hrow' hstate
  exact apply_succeeded hlawful ha ((congrArg WorkView.row? (h j)).symm.trans hrow') hstate

/-- An acknowledged Work stays as it is. -/
theorem acknowledged_stays
    {picked : CString → CString → CString → Prop} {s s' : Store} {owners owners' : List Owner}
    (h : Ledger.Step picked s owners s' owners') {id : CString} {w : Row}
    (hrow : s.row? id = some w) (hstate : w.state = .succeeded) (hacknowledged : w.acknowledged = true) :
  s'.row? id = some w
  := by
  obtain ⟨w', hrow', hfollows⟩ := h.follows hrow
  have hterminal : w.state.terminal = true := by
    rw [hstate]
    rfl
  rcases hfollows.finished hterminal with rfl | ⟨-, hfalse, -⟩
  · exact hrow'
  · rw [hacknowledged] at hfalse
    cases hfalse

/-! ### Removing files -/

/-- The Work whose files the handler is removing. -/
def HandlerPhase.removing? : HandlerPhase → Option WorkRecord
  | .removingInput _ work | .removingResult _ work => some work
  | _ => none

/-- An `ACKNOWLEDGE` has found the Work that its request names, and has its files removed after the
Work is acknowledged. -/
structure Acknowledging (store : Store) (handler : HandlerPhase) : Prop where
  found : ∀ c work, handler = .acknowledgeFound c work →
    ∃ id, metadataValue c.request "work_id" = .ok id ∧ bindText id = bindText work.id
  removing : ∀ work, handler.removing? = some work →
    ∃ w, store.row? (bindText work.id) = some w ∧ w.state = .succeeded ∧ w.acknowledged = true

theorem Acknowledging.of_none {store : Store} {handler : HandlerPhase}
    (hfound : ∀ c work, handler ≠ .acknowledgeFound c work) (hremoving : handler.removing? = none) :
  Acknowledging store handler
  := by
  refine ⟨fun c work h => absurd h (hfound c work), ?_⟩
  intro work hwork
  rw [hremoving] at hwork
  cases hwork

theorem Acknowledging.step
    {picked : CString → CString → CString → Prop} {store store' : Store}
    {owners owners' : List Owner} {handler : HandlerPhase} (h : Acknowledging store handler)
    (hstep : Ledger.Step picked store owners store' owners') :
  Acknowledging store' handler
  := by
  refine ⟨h.found, ?_⟩
  intro work hwork
  obtain ⟨w, hrow, hstate, hacknowledged⟩ := h.removing work hwork
  exact ⟨w, acknowledged_stays hstep hrow hstate hacknowledged, hstate, hacknowledged⟩

variable {cfg : Config} {s s' : System} {p p' : Process}

theorem HandlerMove.acknowledging
    (hold : Acknowledging s.store p.handler) (h : HandlerMove cfg s p s')
    (hprocess' : s'.process = some p') :
  Acknowledging s'.store p'.handler
  := by
  cases h with
  | findAcknowledge hid hrow =>
      cases hprocess'
      refine ⟨?_, fun work hwork => by cases hwork⟩
      rintro c work ⟨⟩
      refine ⟨_, hid, ?_⟩
      rw [bindText_readWork_id, Store.id_of_row? hrow]
  | @acknowledge c work id w store hphase hid hrow hstate hacts =>
      cases hprocess'
      refine ⟨fun c work h => (by cases h), ?_⟩
      rintro work' ⟨⟩
      obtain ⟨id', hid', hwork⟩ := hold.found c work hphase
      rw [hid] at hid'
      cases hid'
      rw [← hwork]
      have hview := congrArg WorkView.row? ((hacts (bindText id)).trans (if_pos rfl))
      have hrow' : (s.store.view (bindText id)).row? = some w := hrow
      simp only [WorkAction.apply, hrow', Option.map_some, hstate, true_and] at hview
      refine ⟨_, hview, ?_⟩
      split_ifs with hfalse
      · exact ⟨rfl, rfl⟩
      · exact ⟨hstate, by simpa using hfalse⟩
  | removeInput hphase =>
      cases hprocess'
      refine ⟨fun c work h => (by cases h), ?_⟩
      intro work hwork
      exact hold.removing work (by rw [hphase]; exact hwork)
  | keepInput hphase =>
      cases hprocess'
      refine ⟨fun c work h => (by cases h), ?_⟩
      intro work hwork
      exact hold.removing work (by rw [hphase]; exact hwork)
  | _ =>
      cases hprocess'
      exact .of_none (fun c work h => by cases h) rfl

theorem Move.acknowledging
    (hstep : Ledger.Step s.picked s.store s.owners s'.store s'.owners)
    (hold : ∀ p, s.process = some p → Acknowledging s.store p.handler) (h : Move cfg s s')
    (hprocess' : s'.process = some p') :
  Acknowledging s'.store p'.handler
  := by
  cases h with
  | start hprocess hacts =>
      cases hprocess'
      exact .of_none (fun c work h => by cases h) rfl
  | gone => cases hprocess'
  | stop hprocess =>
      cases hprocess'
      exact (hold _ hprocess).step hstep
  | scheduler hprocess hmove =>
      cases hmove with
      | gone => cases hprocess'
      | _ =>
          cases hprocess'
          exact (hold _ hprocess).step hstep
  | task hprocess htasks hmove htasks' hscheduler hhandler =>
      cases hprocess'
      rw [hhandler]
      exact (hold _ hprocess).step hstep
  | handler hprocess hmove => exact hmove.acknowledging (hold _ hprocess) hprocess'

/-- In every reachable state files are removed only for acknowledged Works. -/
theorem reachable_acknowledging (h : (machine cfg).Reachable s) (hprocess : s.process = some p) :
  Acknowledging s.store p.handler
  := by
  refine Machine.Reachable.invariant
    (P := fun s => ∀ p, s.process = some p → Acknowledging s.store p.handler) ?_ ?_ h p hprocess
  · intro s hinit p hprocess
    rw [hinit.2.1] at hprocess
    cases hprocess
  · intro s e s' hreach hold hstep p' hprocess'
    exact (System.step_move hstep).acknowledging (reachable_step hreach hstep) hold hprocess'

/-! ### Payloads -/

/-- The attempt has accepted no payload. -/
def Fresh (accepted : List (CString × Int32 × Bytes)) (id : CString) (number : Int32) : Prop :=
  ∀ payload, (id, number, payload) ∉ accepted

/-- The result file of the Work holds the payload. -/
def Config.Stored (cfg : Config) (files : Files) (id : CString) (payload : Bytes) : Prop :=
  files (cfg.resultFile id) = some payload
    ∧ payload.length ≤ Wire.kMaxC1TextGenerationOpaquePayloadBytes

/-- The payload of an attempt task is one that it accepted, and is in the file that its phase
says. -/
def Task.Backed (cfg : Config) (files : Files) (accepted : List (CString × Int32 × Bytes))
    (t : Task) : Prop :=
  match t.phase with
  | .starting | .executing _ => Fresh accepted (bindText t.work.id) t.attemptNumber
  | .checking payload | .writing payload => (bindText t.work.id, t.attemptNumber, payload) ∈ accepted
  | .moving payload =>
      (bindText t.work.id, t.attemptNumber, payload) ∈ accepted
        ∧ files (temporary (cfg.resultFile (bindText t.work.id))) = some payload
        ∧ payload.length ≤ Wire.kMaxC1TextGenerationOpaquePayloadBytes
  | .committing payload =>
      (bindText t.work.id, t.attemptNumber, payload) ∈ accepted
        ∧ cfg.Stored files (bindText t.work.id) payload
  | .settling _ | .handling _ => True

theorem Task.Backed.of_idle {files : Files} {accepted : List (CString × Int32 × Bytes)} {t : Task}
    (h : t.phase.Idle) :
  t.Backed cfg files accepted
  := by
  rw [Backed]
  cases hphase : t.phase with
  | settling settlement => trivial
  | handling text => trivial
  | _ =>
      rw [hphase] at h
      cases h

/-- What happens to the files and the payloads of other Works is nothing to a task. -/
theorem Task.Backed.frame
    {files files' : Files} {accepted added : List (CString × Int32 × Bytes)} {t : Task}
    (h : t.Backed cfg files accepted) (hfiles : cfg.KeepsResult (bindText t.work.id) files files')
    (hadded : ∀ a ∈ added, a.1 ≠ bindText t.work.id) :
  t.Backed cfg files' (accepted ++ added)
  := by
  have hfresh : ∀ {number : Int32}, Fresh accepted (bindText t.work.id) number →
      Fresh (accepted ++ added) (bindText t.work.id) number := by
    intro number hfresh payload hmem
    rcases List.mem_append.mp hmem with hmem | hmem
    · exact hfresh payload hmem
    · exact hadded _ hmem rfl
  rw [Backed] at h ⊢
  cases hphase : t.phase with
  | starting =>
      simp only [hphase] at h ⊢
      exact hfresh h
  | executing input =>
      simp only [hphase] at h ⊢
      exact hfresh h
  | checking payload =>
      simp only [hphase] at h ⊢
      exact List.mem_append_left _ h
  | writing payload =>
      simp only [hphase] at h ⊢
      exact List.mem_append_left _ h
  | moving payload =>
      simp only [hphase] at h ⊢
      exact ⟨List.mem_append_left _ h.1, hfiles.2.trans h.2.1, h.2.2⟩
  | committing payload =>
      simp only [hphase] at h ⊢
      exact ⟨List.mem_append_left _ h.1, hfiles.1.trans h.2.1, h.2.2⟩
  | settling settlement => trivial
  | handling text => trivial

/-- Results are durable: the tasks and the Works that have succeeded have their payloads, each
accepted once. -/
structure Durable (cfg : Config) (s : System) : Prop where
  tasks : ∀ p, s.process = some p → ∀ t ∈ p.tasks, t.Backed cfg s.files s.history.accepted
  begun : ∀ p work number, s.process = some p → p.scheduler.begun? = some (work, number) →
    Fresh s.history.accepted (bindText work.id) number
  rows : ∀ id w, s.store.row? id = some w → w.state = .succeeded → w.acknowledged = false →
    ∃ payload, cfg.Stored s.files id payload ∧ (id, w.attemptCount, payload) ∈ s.history.accepted
  bound : ∀ id number payload, (id, number, payload) ∈ s.history.accepted →
    ∃ w, s.store.row? id = some w ∧ number.toInt ≤ w.attemptCount.toInt
  unique : ∀ id number payload payload', (id, number, payload) ∈ s.history.accepted →
    (id, number, payload') ∈ s.history.accepted → payload = payload'

/-! ### Steps of tasks -/

section TaskMove

variable {store : Store} {files : Files} {t : Task} {input : TaskInput} {step : TaskStep}

/-- A task leaves the result files of the other Works alone. -/
theorem TaskMove.keepsResult
    (h : TaskMove store files t input step)
    (hpath : t.work.resultPath = cfg.resultFile (bindText t.work.id)) {id : CString}
    (hid : id ≠ bindText t.work.id) :
  cfg.KeepsResult id files step.files
  := by
  obtain ⟨h₁, h₂, h₃, h₄⟩ := cfg.resultFile_ne_result hid
  cases h with
  | writePart count hphase haccepted =>
      rw [hpath]
      exact Config.keepsResult_write h₃ h₄ _
  | write hphase hsize haccepted =>
      rw [hpath]
      exact Config.keepsResult_write h₃ h₄ _
  | rename hphase hrename haccepted =>
      rw [hpath] at hrename
      exact Config.keepsResult_rename hrename h₁ h₂
  | _ => exact Config.KeepsResult.refl id files

/-- A task that goes on has its payload. -/
theorem TaskMove.backed
    (h : TaskMove store files t input step)
    (hpath : t.work.resultPath = cfg.resultFile (bindText t.work.id))
    {accepted : List (CString × Int32 × Bytes)} (hbacked : t.Backed cfg files accepted)
    {phase : TaskPhase} (hnext : step.next = some phase) :
  Task.Backed cfg step.files (accepted ++ System.acceptedPayload t input) { t with phase }
  := by
  rw [Task.Backed] at hbacked
  cases h with
  | leave haccepted => cases hnext
  | turn hidle haccepted =>
      cases hnext
      exact .of_idle hidle
  | read hphase haccepted =>
      cases hnext
      rw [haccepted, List.append_nil]
      simp only [hphase] at hbacked
      exact hbacked
  | accept hphase haccepted =>
      cases hnext
      rw [haccepted]
      exact List.mem_append_right _ (List.mem_singleton_self _)
  | check hphase hcancel haccepted =>
      cases hnext
      rw [haccepted, List.append_nil]
      simp only [hphase] at hbacked
      exact hbacked
  | writePart count hphase haccepted =>
      cases hnext
      rw [haccepted, List.append_nil]
      simp only [hphase] at hbacked
      exact hbacked
  | write hphase hsize haccepted =>
      cases hnext
      rw [haccepted, List.append_nil]
      simp only [hphase] at hbacked
      refine ⟨hbacked, ?_, hsize⟩
      rw [hpath]
      exact if_pos rfl
  | rename hphase hrename haccepted =>
      cases hnext
      rw [haccepted, List.append_nil]
      simp only [hphase] at hbacked
      obtain ⟨hmem, hfile, hsize⟩ := hbacked
      rw [hpath] at hrename
      exact ⟨hmem, (Files.rename_eq_some hrename).1.trans hfile, hsize⟩
  | commit hphase hacts haccepted => cases hnext
  | settle ha hacts haccepted => cases hnext

/-- A payload is accepted once. -/
theorem TaskMove.accepted
    (h : TaskMove store files t input step) {accepted : List (CString × Int32 × Bytes)}
    (hbacked : t.Backed cfg files accepted) :
  System.acceptedPayload t input = []
    ∨ Fresh accepted (bindText t.work.id) t.attemptNumber
      ∧ ∃ payload, System.acceptedPayload t input
        = [(bindText t.work.id, t.attemptNumber, payload)]
  := by
  rw [Task.Backed] at hbacked
  cases h with
  | accept hphase haccepted =>
      simp only [hphase] at hbacked
      exact Or.inr ⟨hbacked, _, haccepted⟩
  | leave haccepted => exact Or.inl haccepted
  | turn hidle haccepted => exact Or.inl haccepted
  | read hphase haccepted => exact Or.inl haccepted
  | check hphase hcancel haccepted => exact Or.inl haccepted
  | writePart count hphase haccepted => exact Or.inl haccepted
  | write hphase hsize haccepted => exact Or.inl haccepted
  | rename hphase hrename haccepted => exact Or.inl haccepted
  | commit hphase hacts haccepted => exact Or.inl haccepted
  | settle ha hacts haccepted => exact Or.inl haccepted

theorem Task.Settles.not_succeeds {a : WorkAction} (h : t.Settles a) :
  a.Lawful ∧ ¬Succeeds a
  := by
  cases a with
  | finish attemptState workState text number endedAtMs =>
      obtain ⟨-, -, rfl⟩ := h
      exact ⟨Or.inr rfl, by simp [Succeeds]⟩
  | failAttempt attemptState text number endedAtMs => exact ⟨trivial, fun h => h⟩
  | _ => cases h

/-- No Work succeeds but by the step of a task that has its payload stored. -/
theorem TaskMove.succeeds
    (h : TaskMove store files t input step) {accepted : List (CString × Int32 × Bytes)}
    (hbacked : t.Backed cfg files accepted) :
  NoneSucceeds store step.store
    ∨ step.files = files
      ∧ (∃ payload, (bindText t.work.id, t.attemptNumber, payload) ∈ accepted
        ∧ cfg.Stored files (bindText t.work.id) payload)
      ∧ ∀ id, id ≠ bindText t.work.id → step.store.row? id = store.row? id
  := by
  rw [Task.Backed] at hbacked
  cases h with
  | commit hphase hacts haccepted =>
      right
      simp only [hphase] at hbacked
      refine ⟨rfl, ⟨_, hbacked⟩, ?_⟩
      intro id hid
      exact congrArg WorkView.row? ((hacts id).trans (if_neg hid))
  | settle ha hacts haccepted =>
      obtain ⟨hlawful, hsucceeds⟩ := ha.not_succeeds
      exact Or.inl (.of_actsAt hacts hlawful hsucceeds)
  | _ => exact Or.inl (.refl store)

end TaskMove

/-! ### Steps of the system -/

/-- The Work of an attempt task is running, at the attempt of the task. -/
theorem reachable_task
    (h : (machine cfg).Reachable s) (hprocess : s.process = some p) {t : Task} (ht : t ∈ p.tasks) :
  ∃ w, s.store.row? (bindText t.work.id) = some w ∧ w.state = .running
    ∧ w.attemptCount = t.attemptNumber
  := by
  apply (reachable_valid h).owned t.owner
  rw [System.owners_eq hprocess, Process.owners]
  exact List.mem_append_left _ (List.mem_map_of_mem ht)

/-- Two owners of attempts are about different Works. -/
theorem reachable_distinct
    (h : (machine cfg).Reachable s) (hprocess : s.process = some p) {before after : List Task}
    {t : Task} (htasks : p.tasks = before ++ t :: after) :
  (∀ t' ∈ before ++ after, bindText t.work.id ≠ bindText t'.work.id)
    ∧ ∀ work number, p.scheduler.begun? = some (work, number) →
      bindText t.work.id ≠ bindText work.id
  := by
  have hdistinct := (reachable_valid h).distinct
  have howners : p.owners.map Owner.id = before.map (bindText ·.work.id)
      ++ bindText t.work.id :: (after.map (bindText ·.work.id) ++ p.scheduler.owners.map Owner.id) := by
    rw [Process.owners, htasks]
    simp [Function.comp_def, Task.owner]
  rw [System.owners_eq hprocess, howners, List.nodup_middle, List.nodup_cons] at hdistinct
  refine ⟨?_, ?_⟩
  · intro t' ht' heq
    apply hdistinct.1
    rw [heq]
    rcases List.mem_append.mp ht' with ht' | ht'
    · exact List.mem_append_left _ (List.mem_map_of_mem (f := fun t : Task => bindText t.work.id) ht')
    · exact List.mem_append_right _ (List.mem_append_left _
        (List.mem_map_of_mem (f := fun t : Task => bindText t.work.id) ht'))
  · intro work number hbegun heq
    apply hdistinct.1
    rw [heq]
    simp [SchedulerPhase.owners, hbegun]

/-- The attempt count of a Work does not go back. -/
theorem reachable_count
    (h : (machine cfg).Reachable s) {e : System.Event} (hstep : s.step cfg e = some s') {id : CString}
    {w : Row} (hrow : s.store.row? id = some w) :
  ∃ w', s'.store.row? id = some w' ∧ w.attemptCount.toInt ≤ w'.attemptCount.toInt
  := by
  obtain ⟨w', hrow', hkept⟩ := (reachable_step h hstep).kept hrow
  refine ⟨w', hrow', ?_⟩
  rcases hkept.attemptCount with hcount | ⟨hstart, hcount⟩
  · rw [hcount]
  · rw [hcount, (WorkAction.start_number (reachable_account h hrow) hstart).1]
    omega

section TaskStep

variable {before after : List Task} {t : Task} {input : TaskInput} {step : TaskStep}

/-- The result path of the Work of a task. -/
theorem reachable_resultPath
    (h : (machine cfg).Reachable s) (hprocess : s.process = some p) (ht : t ∈ p.tasks) :
  t.work.resultPath = cfg.resultFile (bindText t.work.id)
  := by
  apply (reachable_paths h (reachable_holds h hprocess (Process.mem_records_of_task ht))).1

/-- A task accepts payloads of its own Work. -/
theorem acceptedPayload_id :
  ∀ a ∈ System.acceptedPayload t input, a.1 = bindText t.work.id
  := by
  intro a ha
  unfold System.acceptedPayload at ha
  split at ha
  · rw [List.mem_singleton.mp ha]
  · cases ha

/-- The tasks have their payloads after the step of one of them. -/
theorem Durable.task_tasks
    (hreach : (machine cfg).Reachable s) (hdurable : Durable cfg s)
    (hprocess : s.process = some p) (htasks : p.tasks = before ++ t :: after)
    (hmove : TaskMove s.store s.files t input step) :
  ∀ t' ∈ before ++ (step.next.map fun phase => { t with phase }).toList ++ after,
    t'.Backed cfg step.files (s.history.accepted ++ System.acceptedPayload t input)
  := by
  have hmem : ∀ t', t' = t ∨ t' ∈ before ++ after → t' ∈ p.tasks := by
    intro t' ht'
    rw [htasks]
    simp only [List.mem_append, List.mem_cons] at ht' ⊢
    tauto
  have hpath := reachable_resultPath hreach hprocess (hmem t (Or.inl rfl))
  have hother : ∀ t' ∈ before ++ after, t'.Backed cfg step.files
      (s.history.accepted ++ System.acceptedPayload t input) := by
    intro t' ht'
    have hne := (reachable_distinct hreach hprocess htasks).1 t' ht'
    apply (hdurable.tasks p hprocess t' (hmem t' (Or.inr ht'))).frame
      (hmove.keepsResult hpath hne.symm)
    intro a ha
    rw [acceptedPayload_id a ha]
    exact hne
  intro t' ht'
  rw [List.mem_append, List.mem_append] at ht'
  rcases ht' with (ht' | ht') | ht'
  · apply hother t' (List.mem_append_left _ ht')
  · rw [Option.mem_toList, Option.map_eq_some_iff] at ht'
    obtain ⟨phase, hnext, rfl⟩ := ht'
    apply hmove.backed hpath (hdurable.tasks p hprocess t (hmem t (Or.inl rfl))) hnext
  · apply hother t' (List.mem_append_right _ ht')

/-- The Works that have succeeded have their payloads after the step of a task. -/
theorem Durable.task_rows
    (hreach : (machine cfg).Reachable s) {e : System.Event} (hstep : s.step cfg e = some s')
    (hdurable : Durable cfg s) (hprocess : s.process = some p) (ht : t ∈ p.tasks)
    (hmove : TaskMove s.store s.files t input step) (hstore : s'.store = step.store) {id : CString}
    {w' : Row} (hrow' : s'.store.row? id = some w') (hstate : w'.state = .succeeded)
    (hacknowledged : w'.acknowledged = false) :
  ∃ payload, cfg.Stored step.files id payload
    ∧ (id, w'.attemptCount, payload) ∈ s.history.accepted
  := by
  have hpath := reachable_resultPath hreach hprocess ht
  obtain ⟨w, hrow, hrunning, hcount⟩ := reachable_task hreach hprocess ht
  rw [hstore] at hrow'
  rcases hmove.succeeds (hdurable.tasks p hprocess t ht) with
    hnone | ⟨hfiles, ⟨payload, hmem, hstored⟩, hsame⟩
  · obtain ⟨w₀, hrow₀, hstate₀, hcount₀, hacknowledged₀⟩ := hnone id w' hrow' hstate
    obtain ⟨payload, hstored, hmem⟩ :=
      hdurable.rows id w₀ hrow₀ hstate₀ (hacknowledged₀ hacknowledged)
    have hne : id ≠ bindText t.work.id := by
      rintro rfl
      obtain rfl : w = w₀ := Option.some.inj (hrow.symm.trans hrow₀)
      rw [hrunning] at hstate₀
      cases hstate₀
    refine ⟨payload, ⟨(hmove.keepsResult hpath hne).1.trans hstored.1, hstored.2⟩, ?_⟩
    rw [hcount₀]
    exact hmem
  · rw [hfiles]
    by_cases hid : id = bindText t.work.id
    · subst hid
      obtain ⟨w₁, hrow₁, hkept⟩ := (reachable_step hreach hstep).kept hrow
      rw [hstore] at hrow₁
      obtain rfl : w' = w₁ := Option.some.inj (hrow'.symm.trans hrow₁)
      rcases hkept.attemptCount with hcount' | ⟨hstart, -⟩
      · refine ⟨payload, hstored, ?_⟩
        rw [hcount', hcount]
        exact hmem
      · rw [WorkAction.state_of_startable hstart] at hrunning
        cases hrunning
    · rw [hsame id hid] at hrow'
      apply hdurable.rows id w' hrow' hstate hacknowledged

/-- What a task accepts is a payload of an attempt of a Work. -/
theorem Durable.task_bound
    (hreach : (machine cfg).Reachable s) (hdurable : Durable cfg s)
    (hprocess : s.process = some p) (ht : t ∈ p.tasks)
    (hmove : TaskMove s.store s.files t input step) {id : CString} {number : Int32}
    {payload : Bytes}
    (hmem : (id, number, payload) ∈ s.history.accepted ++ System.acceptedPayload t input) :
  ∃ w, s.store.row? id = some w ∧ number.toInt ≤ w.attemptCount.toInt
  := by
  rcases List.mem_append.mp hmem with hmem | hmem
  · apply hdurable.bound id number payload hmem
  · obtain ⟨w, hrow, -, hcount⟩ := reachable_task hreach hprocess ht
    rcases hmove.accepted (hdurable.tasks p hprocess t ht) with hnil | ⟨-, payload', hone⟩
    · rw [hnil] at hmem
      cases hmem
    · rw [hone] at hmem
      cases List.mem_singleton.mp hmem
      refine ⟨w, hrow, ?_⟩
      rw [hcount]

/-- An attempt accepts one payload. -/
theorem Durable.task_unique
    (hdurable : Durable cfg s) (hprocess : s.process = some p) (ht : t ∈ p.tasks)
    (hmove : TaskMove s.store s.files t input step) {id : CString} {number : Int32}
    {payload payload' : Bytes}
    (hmem : (id, number, payload) ∈ s.history.accepted ++ System.acceptedPayload t input)
    (hmem' : (id, number, payload') ∈ s.history.accepted ++ System.acceptedPayload t input) :
  payload = payload'
  := by
  rcases hmove.accepted (hdurable.tasks p hprocess t ht) with hnil | ⟨hfresh, accepted, hone⟩
  · simp only [hnil, List.append_nil] at hmem hmem'
    apply hdurable.unique id number payload payload' hmem hmem'
  · simp only [hone, List.mem_append, List.mem_singleton, Prod.mk.injEq] at hmem hmem'
    rcases hmem with hmem | ⟨rfl, rfl, rfl⟩
    · rcases hmem' with hmem' | ⟨rfl, rfl, rfl⟩
      · apply hdurable.unique id number payload payload' hmem hmem'
      · apply absurd hmem (hfresh payload)
    · rcases hmem' with hmem' | ⟨-, -, rfl⟩
      · apply absurd hmem' (hfresh payload')
      · rfl

/-- Results stay durable in the step of a task. -/
theorem Durable.task_step
    (hreach : (machine cfg).Reachable s) {e : System.Event} (hstep : s.step cfg e = some s')
    (hdurable : Durable cfg s) (hprocess : s.process = some p)
    (htasks : p.tasks = before ++ t :: after) (hmove : TaskMove s.store s.files t input step)
    (htasks' : p'.tasks = before ++ (step.next.map fun phase => { t with phase }).toList ++ after)
    (hscheduler : p'.scheduler = p.scheduler)
    (hs' : s' = ⟨step.store, step.files, some p', { s.history with
      accepted := s.history.accepted ++ System.acceptedPayload t input }⟩) :
  Durable cfg s'
  := by
  have ht : t ∈ p.tasks := by
    rw [htasks]
    simp
  subst hs'
  constructor
  · rintro p₁ ⟨⟩ t' ht'
    rw [htasks'] at ht'
    apply hdurable.task_tasks hreach hprocess htasks hmove t' ht'
  · rintro p₁ work number ⟨⟩ hscheduled payload hmem
    rw [hscheduler] at hscheduled
    rcases List.mem_append.mp hmem with hmem | hmem
    · apply hdurable.begun p work number hprocess hscheduled payload hmem
    · apply (reachable_distinct hreach hprocess htasks).2 work number hscheduled
      apply (acceptedPayload_id _ hmem).symm
  · intro id w' hrow' hstate hacknowledged
    obtain ⟨payload, hstored, hmem⟩ :=
      hdurable.task_rows hreach hstep hprocess ht hmove rfl hrow' hstate hacknowledged
    exact ⟨payload, hstored, List.mem_append_left _ hmem⟩
  · intro id number payload hmem
    obtain ⟨w, hrow, hle⟩ := hdurable.task_bound hreach hprocess ht hmove hmem
    obtain ⟨w', hrow', hle'⟩ := reachable_count hreach hstep hrow
    exact ⟨w', hrow', hle.trans hle'⟩
  · intro id number payload payload' hmem hmem'
    apply hdurable.task_unique hprocess ht hmove hmem hmem'

end TaskStep

/-- What a step of another thread does: no Work succeeds, the result files of the Works that are
not acknowledged stay, and the tasks stay or start with an attempt that is fresh. -/
structure Undisturbed (cfg : Config) (s s' : System) : Prop where
  succeeds : NoneSucceeds s.store s'.store
  accepted : s'.history.accepted = s.history.accepted
  files : ∀ id, (∀ w, s.store.row? id = some w → w.state = .succeeded → w.acknowledged = false) →
    cfg.KeepsResult id s.files s'.files
  tasks : ∀ p', s'.process = some p' → ∀ t ∈ p'.tasks,
    (∃ p, s.process = some p ∧ t ∈ p.tasks)
      ∨ t.phase = .starting ∧ Fresh s.history.accepted (bindText t.work.id) t.attemptNumber
  begun : ∀ p' work number, s'.process = some p' → p'.scheduler.begun? = some (work, number) →
    Fresh s.history.accepted (bindText work.id) number

theorem Durable.other_step
    (hreach : (machine cfg).Reachable s) {e : System.Event} (hstep : s.step cfg e = some s')
    (hdurable : Durable cfg s) (h : Undisturbed cfg s s') :
  Durable cfg s'
  := by
  refine ⟨?_, ?_, ?_, ?_, ?_⟩
  · intro p' hprocess' t ht
    rw [h.accepted]
    rcases h.tasks p' hprocess' t ht with ⟨p, hprocess, hold⟩ | ⟨hphase, hfresh⟩
    · obtain ⟨w, hrow, hrunning, -⟩ := reachable_task hreach hprocess hold
      have hfiles : cfg.KeepsResult (bindText t.work.id) s.files s'.files := by
        apply h.files
        intro w₀ hrow₀ hstate
        obtain rfl : w = w₀ := Option.some.inj (hrow.symm.trans hrow₀)
        rw [hrunning] at hstate
        cases hstate
      have hbacked := (hdurable.tasks p hprocess t hold).frame hfiles
        (show ∀ a ∈ ([] : List (CString × Int32 × Bytes)), a.1 ≠ bindText t.work.id by simp)
      rwa [List.append_nil] at hbacked
    · rw [Task.Backed, hphase]
      exact hfresh
  · rw [h.accepted]
    exact h.begun
  · intro id w' hrow' hstate hacknowledged
    obtain ⟨w, hrow, hstate₀, hcount, hacknowledged₀⟩ := h.succeeds id w' hrow' hstate
    obtain ⟨payload, hstored, hmem⟩ :=
      hdurable.rows id w hrow hstate₀ (hacknowledged₀ hacknowledged)
    have hfiles : cfg.KeepsResult id s.files s'.files := by
      apply h.files
      intro w₀ hrow₀ _
      obtain rfl : w = w₀ := Option.some.inj (hrow.symm.trans hrow₀)
      exact hacknowledged₀ hacknowledged
    rw [hcount, h.accepted]
    exact ⟨payload, ⟨hfiles.1.trans hstored.1, hstored.2⟩, hmem⟩
  · intro id number payload hmem
    rw [h.accepted] at hmem
    obtain ⟨w, hrow, hle⟩ := hdurable.bound id number payload hmem
    obtain ⟨w', hrow', hle'⟩ := reachable_count hreach hstep hrow
    exact ⟨w', hrow', hle.trans hle'⟩
  · rw [h.accepted]
    exact hdurable.unique

theorem SchedulerMove.undisturbed
    (hreach : (machine cfg).Reachable s) (hprocess : s.process = some p) (hdurable : Durable cfg s)
    (h : SchedulerMove cfg s p s') :
  Undisturbed cfg s s'
  := by
  have hturn : ∀ {store : Store} {scheduler : SchedulerPhase} {resources : ResourceManager},
      NoneSucceeds s.store store →
      (∀ work number, scheduler.begun? = some (work, number) →
        Fresh s.history.accepted (bindText work.id) number) →
      Undisturbed cfg s (s.update store (some { p with scheduler, resources })) := by
    intro store scheduler resources hnone hbegun
    refine ⟨hnone, rfl, fun id _ => .refl id s.files, ?_, ?_⟩
    · rintro p' ⟨⟩ t ht
      exact Or.inl ⟨p, hprocess, ht⟩
    · rintro p' work number ⟨⟩
      exact hbegun work number
  cases h with
  | gone =>
      refine ⟨.refl _, rfl, fun id _ => .refl id s.files, ?_, ?_⟩
      · rintro p' ⟨⟩
      · rintro p' work number ⟨⟩
  | turn resources hidle =>
      apply hturn (.refl _)
      intro work number hbegun
      rw [hidle.begun?] at hbegun
      cases hbegun
  | expire schedulerNow hbegun hacts =>
      exact hturn (.of_actsEverywhere hacts trivial fun h => h) (by rintro work number ⟨⟩)
  | fail resources hbegun hacts =>
      exact hturn (.of_actsAt hacts trivial fun h => h) (by rintro work number ⟨⟩)
  | pick schedulerNow hrow => exact hturn (.refl _) (by rintro work number ⟨⟩)
  | reserve resources hphase hselect => exact hturn (.refl _) (by rintro work number ⟨⟩)
  | @begin store work selection w nowMs hphase hrow hstart hnumber hacts =>
      apply hturn (.of_actsAt hacts trivial fun h => h)
      -- The new number is beyond the attempts that have accepted a payload.
      rintro work' number ⟨⟩ payload hmem
      obtain ⟨w₀, hrow₀, hle⟩ := hdurable.bound _ _ payload hmem
      obtain rfl : w = w₀ := Option.some.inj (hrow.symm.trans hrow₀)
      rw [(WorkAction.start_number (reachable_account hreach hrow) hstart).1] at hle
      omega
  | lose resources hrow hstart hnumber hacts =>
      have hpositive := (WorkAction.start_number (reachable_account hreach hrow) hstart).2.1
      rw [hnumber] at hpositive
      cases hpositive
  | launch hphase =>
      refine ⟨.refl _, rfl, fun id _ => .refl id s.files, ?_, by rintro p' work number ⟨⟩ ⟨⟩⟩
      rintro p' ⟨⟩ t ht
      rcases List.mem_append.mp ht with ht | ht
      · exact Or.inl ⟨p, hprocess, ht⟩
      · rw [List.mem_singleton.mp ht]
        exact Or.inr ⟨rfl, hdurable.begun p _ _ hprocess (by rw [hphase]; rfl)⟩
  | drop resources hphase hacts =>
      exact hturn (.of_actsAt hacts trivial fun h => h) (by rintro work number ⟨⟩)

/-- The handler leaves the result files alone but for the result of an acknowledged Work. -/
theorem HandlerMove.keepsResult
    (hreach : (machine cfg).Reachable s) (hprocess : s.process = some p)
    (h : HandlerMove cfg s p s') {id : CString}
    (hid : ∀ w, s.store.row? id = some w → w.state = .succeeded → w.acknowledged = false) :
  cfg.KeepsResult id s.files s'.files
  := by
  have hsubmission : ∀ {c work}, p.handler.submission? = some (c, work) →
      work.inputPath = inputPath cfg.dataDir work.id := by
    intro c work hsubmission
    exact ((reachable_valid_recorded hreach).2 p c work hprocess hsubmission).inputPath
  have hfound : ∀ {work}, p.handler.found? = some work →
      work.resultPath = cfg.resultFile (bindText work.id)
        ∧ work.inputPath = inputPath cfg.dataDir (bindText work.id).toBytes := by
    intro work hfound
    exact reachable_paths hreach
      (reachable_holds hreach hprocess (Process.mem_records_of_handler hfound))
  cases h with
  | writePart count hphase =>
      have hpath := hsubmission (by rw [hphase]; rfl)
      simp only [System.await]
      rw [hpath]
      obtain ⟨-, -, h₃, h₄⟩ := cfg.resultFile_ne_input id _
      exact Config.keepsResult_write h₃ h₄ _
  | write hphase =>
      have hpath := hsubmission (by rw [hphase]; rfl)
      simp only [System.await]
      rw [hpath]
      obtain ⟨-, -, h₃, h₄⟩ := cfg.resultFile_ne_input id _
      exact Config.keepsResult_write h₃ h₄ _
  | rename hphase hrename =>
      have hpath := hsubmission (by rw [hphase]; rfl)
      rw [hpath] at hrename
      obtain ⟨h₁, h₂, -, -⟩ := cfg.resultFile_ne_input id _
      exact Config.keepsResult_rename hrename h₁ h₂
  | removeInput hphase =>
      obtain ⟨-, hpath⟩ := hfound (by rw [hphase]; rfl)
      simp only [System.await]
      rw [hpath]
      obtain ⟨h₁, h₂, -, -⟩ := cfg.resultFile_ne_input id _
      exact Config.keepsResult_remove h₁ h₂
  | @removeResult c work frame hphase =>
      obtain ⟨hpath, -⟩ := hfound (by rw [hphase]; rfl)
      obtain ⟨w, hrow, hstate, hacknowledged⟩ :=
        (reachable_acknowledging hreach hprocess).removing work (by rw [hphase]; rfl)
      have hne : id ≠ bindText work.id := by
        rintro rfl
        have hfalse := hid w hrow hstate
        rw [hacknowledged] at hfalse
        cases hfalse
      simp only [System.reply]
      rw [hpath]
      obtain ⟨h₁, h₂, -, -⟩ := cfg.resultFile_ne_result hne
      exact Config.keepsResult_remove h₁ h₂
  | _ => exact Config.KeepsResult.refl id s.files

/-- The handler records no success. -/
theorem HandlerMove.succeeds
    (hrecorded : s.Recorded cfg) (hprocess : s.process = some p) (h : HandlerMove cfg s p s') :
  NoneSucceeds s.store s'.store ∧ s'.history.accepted = s.history.accepted
  := by
  cases h with
  | @accept c work store hphase hnew hchecked hview =>
      refine ⟨?_, rfl⟩
      have hqueued := (hrecorded p c work hprocess (by rw [hphase]; rfl)).state
      intro id w' hrow' hstate
      have hrow := congrArg WorkView.row? (hview id)
      split_ifs at hrow
      · cases hrow'.symm.trans hrow
        rw [show (submittedRow work).state = work.state from rfl, hqueued] at hstate
        cases hstate
      · exact NoneSucceeds.refl _ id w' (hrow.symm.trans hrow') hstate
  | act ha hacts =>
      refine ⟨?_, rfl⟩
      rcases ha with rfl | rfl <;> exact .of_actsAt hacts trivial fun h => h
  | acknowledge hphase hid hrow hstate hacts =>
      exact ⟨.of_actsAt hacts trivial fun h => h, rfl⟩
  | _ => exact ⟨.refl _, rfl⟩

theorem HandlerMove.undisturbed
    (hreach : (machine cfg).Reachable s) (hprocess : s.process = some p) (hdurable : Durable cfg s)
    (h : HandlerMove cfg s p s') :
  Undisturbed cfg s s'
  := by
  obtain ⟨hnone, haccepted⟩ := h.succeeds (reachable_valid_recorded hreach).2 hprocess
  have hthreads : ∃ handler, s'.process = some { p with handler } := by
    cases h <;> exact ⟨_, rfl⟩
  obtain ⟨handler, hprocess'⟩ := hthreads
  refine ⟨hnone, haccepted, fun id hid => h.keepsResult hreach hprocess hid, ?_, ?_⟩
  · intro p' hp' t ht
    cases hprocess'.symm.trans hp'
    exact Or.inl ⟨p, hprocess, ht⟩
  · intro p' work number hp' hbegun
    cases hprocess'.symm.trans hp'
    exact hdurable.begun p work number hprocess hbegun

/-- In every reachable state results are durable. -/
theorem reachable_durable (h : (machine cfg).Reachable s) :
  Durable cfg s
  := by
  refine Machine.Reachable.invariant (P := Durable cfg) ?_ ?_ h
  · rintro s ⟨hstore, hprocess, hhistory⟩
    have hnone : ∀ a, a ∉ s.history.accepted := by
      intro a
      rw [hhistory]
      simp
    refine ⟨?_, ?_, ?_, ?_, ?_⟩
    · intro p hp
      rw [hprocess] at hp
      cases hp
    · intro p work number hp
      rw [hprocess] at hp
      cases hp
    · intro id w hrow
      rw [hstore] at hrow
      cases hrow
    · intro id number payload hmem
      exact absurd hmem (hnone _)
    · intro id number payload payload' hmem
      exact absurd hmem (hnone _)
  · intro s e s' hreach hdurable hstep
    have hquiet : ∀ {store : Store}, NoneSucceeds s.store store →
        Undisturbed cfg s (s.update store none)
          ∧ Undisturbed cfg s (s.update store (some (System.freshProcess cfg))) := by
      intro store hnone
      refine ⟨⟨hnone, rfl, fun id _ => .refl id s.files, ?_, ?_⟩,
        ⟨hnone, rfl, fun id _ => .refl id s.files, ?_, ?_⟩⟩
      · rintro p' ⟨⟩
      · rintro p' work number ⟨⟩
      · rintro p' ⟨⟩ t ⟨⟩
      · rintro p' work number ⟨⟩ ⟨⟩
    cases System.step_move hstep with
    | start hprocess hacts =>
        exact hdurable.other_step hreach hstep
          (hquiet (.of_actsEverywhere hacts trivial fun h => h)).2
    | gone => exact hdurable.other_step hreach hstep (hquiet (.refl _)).1
    | @stop p hprocess =>
        refine hdurable.other_step hreach hstep
          ⟨.refl _, rfl, fun id _ => .refl id s.files, ?_, ?_⟩
        · rintro p' ⟨⟩ t ht
          exact Or.inl ⟨p, hprocess, ht⟩
        · rintro p' work number ⟨⟩ hbegun
          exact hdurable.begun p work number hprocess hbegun
    | scheduler hprocess hmove =>
        exact hdurable.other_step hreach hstep (hmove.undisturbed hreach hprocess hdurable)
    | task hprocess htasks hmove htasks' hscheduler hhandler =>
        exact hdurable.task_step hreach hstep hprocess htasks hmove htasks' hscheduler rfl
    | handler hprocess hmove =>
        exact hdurable.other_step hreach hstep (hmove.undisturbed hreach hprocess hdurable)

end Kernel
