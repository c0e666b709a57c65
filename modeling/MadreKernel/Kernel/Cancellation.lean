import MadreKernel.Kernel.Results

/-!
# Cancellation

A `CANCEL` request takes effect at its store call.  From then on the Work is never queued and no
attempt of it is started, whatever the scheduler has picked before.

The Work ends as cancelled, unless an attempt task has already asked whether it is cancelled and
is on its way to record a success: `finish_success` does not look at the request.
-/

namespace Kernel

open WorkStore

/-- The event is a `CANCEL` request that executes `cancel` on a Work that exists. -/
def System.Cancels (s : System) (e : System.Event) (id : CString) : Prop :=
  ∃ c nowMs draws faults workId state store, e = .handler (.request c nowMs draws faults)
    ∧ c.request.type = MessageType.cancel.code
    ∧ metadataValue c.request "work_id" = .ok workId ∧ bindText workId = id
    ∧ (cancel workId).exec faults s.store = (.ok (some state), store)

variable {cfg : Config} {s s' : System} {e : System.Event} {id : CString}

/-- The step of a `CANCEL` request acts by `cancel` alone. -/
theorem System.Cancels.acts (h : s.Cancels e id) (hstep : s.step cfg e = some s') :
  (∃ w, s.store.row? id = some w) ∧ WorkAction.ActsAt .cancel id s.store s'.store
    ∧ ∃ p, s.process = some p ∧ s'.process = some { p with handler := .idle }
  := by
  obtain ⟨c, nowMs, draws, faults, workId, state, store, rfl, htype, hid, rfl, hexec⟩ := h
  have heval := Session.eval_of_exec hexec
  have hacts := cancel_acts workId s.store
  have hresult := cancel_result workId s.store
  rw [heval] at hacts hresult
  have hrow : ∃ w, s.store.row? (bindText workId) = some w := by
    cases hrow : s.store.row? (bindText workId) with
    | none =>
        rw [hrow] at hresult
        cases hresult
    | some w => exact ⟨w, rfl⟩
  refine ⟨hrow, ?_⟩
  cases hprocess : s.process with
  | none =>
      simp only [System.step, hprocess] at hstep
      cases hstep
  | some p =>
      simp only [System.step, hprocess, System.handlerStep] at hstep
      cases hhandler : p.handler with
      | idle =>
          simp only [hhandler] at hstep
          split_ifs at hstep
          rw [System.handle, htype, if_neg (by decide), if_neg (by decide), if_neg (by decide),
            if_neg (by decide), if_pos rfl] at hstep
          simp only [hid, hexec, Option.some.injEq] at hstep
          subst hstep
          exact ⟨hacts, p, rfl, rfl⟩
      | _ =>
          simp only [hhandler] at hstep
          cases hstep

/-! ### A `CANCEL` of the sample Work -/

def Sample.cancelling : System.Event :=
  .handler (.request (Sample.connection (Sample.request .cancel)) 0 (0, 0) [])

theorem Sample.cancels
    {state : WorkState}
    (h : ((cancel Sample.workId).eval s.store).1 = .ok (some state)) :
  s.Cancels Sample.cancelling (bindText Sample.workId)
  := by
  refine ⟨_, _, _, _, Sample.workId, state, ((cancel Sample.workId).eval s.store).2, rfl, rfl, ?_,
    rfl, ?_⟩
  · decide +kernel
  · rw [← h]
    rfl

/-! ### No new attempts -/

/-- The Work is not queued, and while it is running there is a request to cancel it. -/
def Stopped (s : Store) (id : CString) : Prop :=
  ∃ w, s.row? id = some w ∧ w.state ≠ .queued ∧ (w.state = .running → w.cancelRequested = true)

/-- `cancel` stops a Work. -/
theorem stopped_of_cancel {s s' : Store} {w : Row} (hrow : s.row? id = some w)
    (h : WorkAction.ActsAt .cancel id s s') :
  Stopped s' id
    ∧ ∃ w', s'.row? id = some w' ∧ w'.attemptCount = w.attemptCount
      ∧ (w.state = .queued ∨ w.state = .running →
        w'.cancelRequested = true ∧ (w'.state = .running ∨ w'.state = .cancelled))
  := by
  have hview := congrArg WorkView.row? ((h id).trans (if_pos rfl))
  have hrow' : (s.view id).row? = some w := hrow
  simp only [WorkAction.apply, WorkView.editIn, hrow', Option.map_some] at hview
  cases hstate : w.state with
  | queued =>
      simp only [hstate, reduceCtorEq, if_false, if_true] at hview
      exact ⟨⟨_, hview, by simp [cancelQueued], by simp [cancelQueued]⟩, _, hview, rfl,
        fun _ => ⟨rfl, Or.inr rfl⟩⟩
  | running =>
      simp only [hstate, if_true, requestCancel, reduceCtorEq, if_false] at hview
      exact ⟨⟨_, hview, by simp, fun _ => rfl⟩, _, hview, rfl, fun _ => ⟨rfl, Or.inl rfl⟩⟩
  | _ =>
      simp only [hstate, reduceCtorEq, if_false] at hview
      refine ⟨⟨_, hview, by simp [hstate], by simp [hstate]⟩, _, hview, rfl, ?_⟩
      rintro (hother | hother) <;> cases hother

/-- A stopped Work stays stopped, at the same attempt count. -/
theorem Stopped.step
    {picked : CString → CString → CString → Prop} {s s' : Store} {owners owners' : List Owner}
    (h : Stopped s id) (hstep : Ledger.Step picked s owners s' owners') :
  Stopped s' id
    ∧ ∀ w w', s.row? id = some w → s'.row? id = some w' → w'.attemptCount = w.attemptCount
  := by
  obtain ⟨w, hrow, hqueued, hrunning⟩ := h
  obtain ⟨w', hrow', hkept⟩ := hstep.kept hrow
  obtain ⟨w₁, hrow₁, hfollows⟩ := hstep.follows hrow
  obtain rfl : w' = w₁ := Option.some.inj (hrow'.symm.trans hrow₁)
  refine ⟨⟨w', hrow', ?_⟩, ?_⟩
  · by_cases hstate : w.state = .running
    · have hflag := hrunning hstate
      refine ⟨?_, fun _ => hkept.cancelRequested hflag⟩
      intro hqueued'
      obtain ⟨w₂, hrow₂, hcases⟩ := hstep.running hrow hstate
      obtain rfl : w' = w₂ := Option.some.inj (hrow'.symm.trans hrow₂)
      rw [hqueued', hflag] at hcases
      simp at hcases
    · have hterminal : w.state.terminal = true := by
        cases hw : w.state with
        | queued => exact absurd hw hqueued
        | running => exact absurd hw hstate
        | _ => rfl
      rcases hfollows.finished hterminal with rfl | ⟨hsucceeded, -, rfl⟩
      · exact ⟨hqueued, hrunning⟩
      · exact ⟨hqueued, hrunning⟩
  · intro v v' hv hv'
    obtain rfl : w = v := Option.some.inj (hrow.symm.trans hv)
    obtain rfl : w' = v' := Option.some.inj (hrow'.symm.trans hv')
    rcases hkept.attemptCount with hcount | ⟨hstart, -⟩
    · exact hcount
    · exact absurd (WorkAction.state_of_startable hstart) hqueued

/-- A run from a reachable state keeps a Work stopped, at the same attempt count. -/
theorem Stopped.run
    {es : List System.Event} (hreach : (machine cfg).Reachable s) (h : Stopped s.store id)
    {w : Row} (hrow : s.store.row? id = some w) (hrun : (machine cfg).run s es = some s') :
  Stopped s'.store id ∧ ∃ w', s'.store.row? id = some w' ∧ w'.attemptCount = w.attemptCount
  := by
  induction es generalizing s w with
  | nil =>
      cases hrun
      exact ⟨h, w, hrow, rfl⟩
  | cons e es ih =>
      obtain ⟨t, hstep, hrun⟩ := Machine.run_cons hrun
      obtain ⟨hstopped, hcount⟩ := h.step (reachable_step hreach hstep)
      have hstopped' := hstopped
      obtain ⟨w₁, hrow₁, -⟩ := hstopped'
      obtain ⟨hstopped₂, w₂, hrow₂, hcount₂⟩ := ih (hreach.step hstep) hstopped hrow₁ hrun
      exact ⟨hstopped₂, w₂, hrow₂, hcount₂.trans (hcount w w₁ hrow hrow₁)⟩

/-- A queued Work has no request to cancel it.  Once `cancel` has been executed on a Work, in
every later state the Work is not queued, its attempt count is what it was, and its attempt rows
are those that it had. -/
theorem no_dispatch_after_cancel (cfg : Config) :
  (∀ s, (machine cfg).Reachable s → ∀ id w, s.store.row? id = some w → w.state = .queued →
    w.cancelRequested = false)
  ∧ ∀ s e s₁ es s₂ id, (machine cfg).Reachable s → s.Cancels e id →
    (machine cfg).step s e = some s₁ → (machine cfg).run s₁ es = some s₂ →
    ∃ w w₂, s.store.row? id = some w ∧ s₂.store.row? id = some w₂ ∧ w₂.state ≠ .queued
      ∧ w₂.attemptCount = w.attemptCount
      ∧ (s₂.store.attemptsOf id).map (·.attemptNumber)
        = (s.store.attemptsOf id).map (·.attemptNumber)
  := by
  refine ⟨?_, ?_⟩
  · intro s hreach id w hrow hqueued
    exact ((reachable_account hreach hrow).queued hqueued).2
  · intro s e s₁ es s₂ id hreach hcancels hstep hrun
    obtain ⟨⟨w, hrow⟩, hacts, -⟩ := hcancels.acts hstep
    obtain ⟨hstopped, w₁, hrow₁, hcount₁, -⟩ := stopped_of_cancel hrow hacts
    obtain ⟨⟨w₂', hrow₂', hqueued, -⟩, w₂, hrow₂, hcount₂⟩ :=
      hstopped.run (hreach.step hstep) hrow₁ hrun
    obtain rfl : w₂' = w₂ := Option.some.inj (hrow₂'.symm.trans hrow₂)
    refine ⟨w, w₂', hrow, hrow₂, hqueued, hcount₂.trans hcount₁, ?_⟩
    have hbefore := (reachable_account hreach hrow).numbers
    have hafter := (reachable_account ((hreach.step hstep).run hrun) hrow₂).numbers
    rw [hcount₂.trans hcount₁, ← hbefore] at hafter
    have hinjective : Function.Injective Int32.toInt := fun _ _ h => Int32.toInt_inj.mp h
    apply List.map_injective_iff.mpr hinjective
    rw [List.map_map, List.map_map]
    exact hafter

/-- A `CANCEL` after the scheduler has picked the Work and reserved its resources: the scheduler
goes on without an attempt. -/
theorem no_dispatch_after_cancel_reserved :
  ∃ s s₁ s₂ w₂, (machine Sample.config).Reachable s
    ∧ (s.process.any fun p => p.scheduler matches .reserved ..) = true
    ∧ s.Cancels Sample.cancelling (bindText Sample.workId)
    ∧ (machine Sample.config).step s Sample.cancelling = some s₁
    ∧ (machine Sample.config).run s₁ Sample.dispatching = some s₂
    ∧ s₂.store.row? (bindText Sample.workId) = some w₂ ∧ w₂.attemptCount = 0
  := by
  obtain ⟨s, hreach, hs⟩ := Sample.reachable
    (Sample.submitting (Sample.frame .submit Sample.fields "in") ++ Sample.dispatching.take 3)
    (fun s => (s.process.any fun p => p.scheduler matches .reserved ..)
      && (s.store.row? (bindText Sample.workId)).any (·.attemptCount = 0)
      && ((cancel Sample.workId).eval s.store).1 = .ok (some .cancelled)
      && ((machine Sample.config).step s Sample.cancelling).any
        (fun s₁ => ((machine Sample.config).run s₁ Sample.dispatching).isSome))
    (by decide +kernel)
  simp only [Bool.and_eq_true, decide_eq_true_eq] at hs
  obtain ⟨⟨⟨hreserved, hrow⟩, hcancel⟩, hrun⟩ := hs
  obtain ⟨w, hrow, hcount⟩ := (Option.any_eq_true _ _).mp hrow
  obtain ⟨s₁, hstep, hrun⟩ := (Option.any_eq_true _ _).mp hrun
  obtain ⟨s₂, hrun⟩ := Option.isSome_iff_exists.mp hrun
  have hcancels := Sample.cancels hcancel
  obtain ⟨w', w₂, hrow', hrow₂, -, hcount₂, -⟩ :=
    (no_dispatch_after_cancel Sample.config).2 s _ s₁ _ s₂ _ hreach hcancels hstep hrun
  obtain rfl : w = w' := Option.some.inj (hrow.symm.trans hrow')
  exact ⟨s, s₁, s₂, w₂, hreach, hreserved, hcancels, hstep, hrun, hrow₂,
    hcount₂.trans (of_decide_eq_true hcount)⟩

/-! ### The end of a cancelled Work -/

/-- The Work is cancelled, or is running with a request to cancel it and without an owner that is
checked. -/
structure Doomed (s : Store) (owners : List Owner) (id : CString) : Prop where
  row : ∃ w, s.row? id = some w ∧ w.cancelRequested = true
    ∧ (w.state = .running ∨ w.state = .cancelled)
  unchecked : ∀ o ∈ owners, o.id = id → o.checked = false

theorem Doomed.step
    {picked : CString → CString → CString → Prop} {s s' : Store} {owners owners' : List Owner}
    (h : Doomed s owners id) (hstep : Ledger.Step picked s owners s' owners') :
  Doomed s' owners' id
  := by
  obtain ⟨w, hrow, hflag, hstate⟩ := h.row
  obtain ⟨w', hrow', hkept⟩ := hstep.kept hrow
  refine ⟨⟨w', hrow', hkept.cancelRequested hflag, ?_⟩, ?_⟩
  · rcases hstate with hrunning | hcancelled
    · obtain ⟨w₁, hrow₁, hcases⟩ := hstep.running hrow hrunning
      obtain rfl : w' = w₁ := Option.some.inj (hrow'.symm.trans hrow₁)
      rcases hcases with hstate | ⟨-, o, ho, hid, hchecked⟩ | hstate | ⟨hfalse, -⟩
      · exact Or.inl hstate
      · rw [h.unchecked o ho hid] at hchecked
        cases hchecked
      · exact Or.inr hstate
      · rw [hflag] at hfalse
        cases hfalse
    · obtain ⟨w₁, hrow₁, hfollows⟩ := hstep.follows hrow
      obtain rfl : w' = w₁ := Option.some.inj (hrow'.symm.trans hrow₁)
      have hterminal : w.state.terminal = true := by
        rw [hcancelled]
        rfl
      rcases hfollows.finished hterminal with rfl | ⟨hsucceeded, -⟩
      · exact Or.inr hcancelled
      · rw [hcancelled] at hsucceeded
        cases hsucceeded
  · intro o ho hid
    by_contra hchecked
    rcases hstep.checked ho (by simpa using hchecked) with hold | hcancel
    · exact hchecked (h.unchecked o hold hid)
    · have hfalse := hcancel w (by rw [hid]; exact hrow)
      rw [hflag] at hfalse
      cases hfalse

/-- No attempt task of the Work is between its question whether the Work is cancelled and the
record of its success, with a payload that it can write. -/
def System.Uncommitted (s : System) (id : CString) : Prop :=
  ∀ p, s.process = some p → ∀ t ∈ p.tasks, bindText t.work.id = id → t.phase.checked = false

/-- A `CANCEL` while no task is about to record a success dooms the Work. -/
theorem System.Cancels.doomed
    {w : Row} (h : s.Cancels e id) (hstep : s.step cfg e = some s')
    (hrow : s.store.row? id = some w) (hstate : w.state = .queued ∨ w.state = .running) (huncommitted : s.Uncommitted id) :
  Doomed s'.store s'.owners id
  := by
  obtain ⟨-, hacts, p, hprocess, hprocess'⟩ := h.acts hstep
  obtain ⟨-, w', hrow', -, hverdict⟩ := stopped_of_cancel hrow hacts
  refine ⟨⟨w', hrow', hverdict hstate⟩, ?_⟩
  intro o ho hid
  rw [System.owners_eq hprocess', Process.owners] at ho
  rcases List.mem_append.mp ho with ho | ho
  · obtain ⟨t, ht, rfl⟩ := List.mem_map.mp ho
    exact huncommitted p hprocess t ht hid
  · rw [SchedulerPhase.owners, Option.mem_toList, Option.map_eq_some_iff] at ho
    obtain ⟨begun, -, rfl⟩ := ho
    rfl

theorem Doomed.run
    {es : List System.Event} (hreach : (machine cfg).Reachable s)
    (h : Doomed s.store s.owners id) (hrun : (machine cfg).run s es = some s') :
  Doomed s'.store s'.owners id
  := by
  refine (Machine.run_preserves
    (P := fun s => (machine cfg).Reachable s ∧ Doomed s.store s.owners id) ?_ ⟨hreach, h⟩ hrun).2
  rintro s e s' ⟨hreach, hdoomed⟩ hstep
  exact ⟨hreach.step hstep, hdoomed.step (reachable_step hreach hstep)⟩

/-! ### A success after the cancellation -/

/-- Some run records the success of the Work. -/
def CanSucceed (cfg : Config) (s : System) (id : CString) : Prop :=
  ∃ es s' w, (machine cfg).run s es = some s' ∧ s'.store.row? id = some w ∧ w.state = .succeeded

theorem CanSucceed.of_step (hstep : s.step cfg e = some s') (h : CanSucceed cfg s' id) :
  CanSucceed cfg s id
  := by
  obtain ⟨es, s₂, w, hrun, hrow, hstate⟩ := h
  refine ⟨e :: es, s₂, w, ?_, hrow, hstate⟩
  have hstep' : (machine cfg).step s e = some s' := hstep
  rw [Machine.run, hstep']
  exact hrun

variable {p : Process} {i : Nat} {t : Task}

/-- The step of the task at a place. -/
theorem step_task
    (hprocess : s.process = some p) (ht : p.tasks[i]? = some t) {input : TaskInput}
    {step : TaskStep} (hstep : taskStep p.stop s.store s.files t input = some step) :
  s.step cfg (.task i input)
    = some ⟨step.store, step.files, some (System.nextTasks p i t step.next),
        { s.history with
          accepted := s.history.accepted ++ System.acceptedPayload t input }⟩
  := by
  simp only [System.step, hprocess, System.attemptStep, ht, hstep, Option.map_some]

/-- A task that goes on stays at its place. -/
theorem nextTasks_get (ht : p.tasks[i]? = some t) (phase : TaskPhase) :
  (System.nextTasks p i t (some phase)).tasks[i]? = some { t with phase }
  := by
  obtain ⟨hi, -⟩ := List.getElem?_eq_some_iff.mp ht
  simp [System.nextTasks, hi]

theorem canSucceed_of_committing
    (hreach : (machine cfg).Reachable s) (hprocess : s.process = some p)
    (ht : p.tasks[i]? = some t) {payload : Bytes} (hphase : t.phase = .committing payload) :
  CanSucceed cfg s (bindText t.work.id)
  := by
  obtain ⟨w, hrow, hrunning, -⟩ := reachable_task hreach hprocess (List.mem_of_getElem? ht)
  have hstep : taskStep p.stop s.store s.files t (.proceed 0 [])
      = some ⟨((finishSuccess t.work.id t.attemptNumber 0).eval s.store).2, s.files, none⟩ := by
    simp only [taskStep, hphase]
    rfl
  have hacts := finish_acts .succeeded .succeeded (sqlText "") t.work.id t.attemptNumber 0 s.store
  have hview := congrArg WorkView.row? ((hacts (bindText t.work.id)).trans (if_pos rfl))
  have hrow' : (s.store.view (bindText t.work.id)).row? = some w := hrow
  simp only [WorkAction.apply, WorkView.editIn, WorkView.endAttempt, hrow', Option.map_some,
    hrunning, if_true] at hview
  exact CanSucceed.of_step (step_task hprocess ht hstep) ⟨[], _, _, rfl, hview, rfl⟩

theorem canSucceed_of_moving
    (hreach : (machine cfg).Reachable s) (hprocess : s.process = some p)
    (ht : p.tasks[i]? = some t) {payload : Bytes} (hphase : t.phase = .moving payload) :
  CanSucceed cfg s (bindText t.work.id)
  := by
  have hmem := List.mem_of_getElem? ht
  have hbacked := (reachable_durable hreach).tasks p hprocess t hmem
  simp only [Task.Backed, hphase] at hbacked
  have hpath := reachable_resultPath hreach hprocess hmem
  have hstep : taskStep p.stop s.store s.files t (.proceed 0 [])
      = some ⟨s.store,
          (s.files.remove (temporary t.work.resultPath)).write t.work.resultPath payload,
          some (.committing payload)⟩ := by
    simp only [taskStep, hphase, Files.rename, hpath, hbacked.2.1, Option.map_some]
  have hstep' : s.step cfg (.task i (.proceed 0 [])) = some _ := step_task hprocess ht hstep
  exact CanSucceed.of_step hstep'
    (canSucceed_of_committing (t := { t with phase := .committing payload })
      (hreach.step hstep') rfl (nextTasks_get ht _) rfl)

theorem canSucceed_of_writing
    (hreach : (machine cfg).Reachable s) (hprocess : s.process = some p)
    (ht : p.tasks[i]? = some t) {payload : Bytes} (hphase : t.phase = .writing payload)
    (hsize : payload.length ≤ Wire.kMaxC1TextGenerationOpaquePayloadBytes) :
  CanSucceed cfg s (bindText t.work.id)
  := by
  have hstep : taskStep p.stop s.store s.files t (.proceed 0 [])
      = some ⟨s.store, s.files.write (temporary t.work.resultPath) payload,
          some (.moving payload)⟩ := by
    simp only [taskStep, hphase]
    exact if_neg (Nat.not_lt.mpr hsize)
  have hstep' : s.step cfg (.task i (.proceed 0 [])) = some _ := step_task hprocess ht hstep
  exact CanSucceed.of_step hstep'
    (canSucceed_of_moving (t := { t with phase := .moving payload })
      (hreach.step hstep') rfl (nextTasks_get ht _) rfl)

/-- A task that is checked can record its success, whatever is requested. -/
theorem canSucceed_of_checked
    (hreach : (machine cfg).Reachable s) (hprocess : s.process = some p) (ht : t ∈ p.tasks)
    (hchecked : t.phase.checked = true) :
  CanSucceed cfg s (bindText t.work.id)
  := by
  obtain ⟨i, hi⟩ := List.getElem?_of_mem ht
  cases hphase : t.phase with
  | writing payload =>
      rw [hphase] at hchecked
      exact canSucceed_of_writing hreach hprocess hi hphase (of_decide_eq_true hchecked)
  | moving payload => exact canSucceed_of_moving hreach hprocess hi hphase
  | committing payload => exact canSucceed_of_committing hreach hprocess hi hphase
  | _ =>
      rw [hphase] at hchecked
      cases hchecked

/-- Cancellation wins over every later end of the Work exactly when `cancel` is executed while no
attempt task of the Work is about to record its success. -/
theorem cancellation_wins
    (hreach : (machine cfg).Reachable s) {s₁ : System} {w : Row} (hcancels : s.Cancels e id)
    (hstep : (machine cfg).step s e = some s₁) (hrow : s.store.row? id = some w)
    (hstate : w.state = .queued ∨ w.state = .running) :
  (∀ es s₂, (machine cfg).run s₁ es = some s₂ →
      ∃ w₂, s₂.store.row? id = some w₂ ∧ (w₂.state.terminal = true → w₂.state = .cancelled))
    ↔ s.Uncommitted id
  := by
  constructor
  · intro hwins p hprocess t ht hid
    by_contra hchecked
    obtain ⟨-, -, p₀, hprocess₀, hprocess₁⟩ := hcancels.acts hstep
    cases hprocess.symm.trans hprocess₀
    obtain ⟨es, s₂, w₂, hrun, hrow₂, hsucceeded⟩ := canSucceed_of_checked (hreach.step hstep)
      hprocess₁ ht (by simpa using hchecked)
    obtain ⟨w₂', hrow₂', hcancelled⟩ := hwins es s₂ hrun
    rw [hid] at hrow₂
    obtain rfl : w₂ = w₂' := Option.some.inj (hrow₂.symm.trans hrow₂')
    rw [hsucceeded] at hcancelled
    cases hcancelled rfl
  · intro huncommitted es s₂ hrun
    have hdoomed := hcancels.doomed hstep hrow hstate huncommitted
    obtain ⟨w₂, hrow₂, -, hstate₂⟩ := (hdoomed.run (hreach.step hstep) hrun).row
    refine ⟨w₂, hrow₂, ?_⟩
    rcases hstate₂ with hrunning | hcancelled
    · rw [hrunning]
      rintro ⟨⟩
    · exact fun _ => hcancelled

/-- A `CANCEL` while a worker runs, which then answers with a result. -/
theorem cancellation_wins_executing :
  ∃ s s₁ s₂ w₂, (machine Sample.config).Reachable s
    ∧ s.Cancels Sample.cancelling (bindText Sample.workId)
    ∧ (machine Sample.config).step s Sample.cancelling = some s₁
    ∧ (machine Sample.config).run s₁ [.task 0 (.outcome (.succeeded (Bytes.ofString "out"))),
        .task 0 (.proceed 0 []), .task 0 (.proceed 0 [])] = some s₂
    ∧ s₂.store.row? (bindText Sample.workId) = some w₂ ∧ w₂.state = .cancelled
  := by
  obtain ⟨s, hreach, hs⟩ := Sample.reachable (Sample.dispatched ++ [.task 0 (.proceed 0 [])])
    (fun s => (s.process.any fun p => p.tasks.all fun t => t.phase.checked = false)
      && (s.store.row? (bindText Sample.workId)).any (·.state = .running)
      && ((cancel Sample.workId).eval s.store).1 = .ok (some .running)
      && ((machine Sample.config).step s Sample.cancelling).any fun s₁ =>
        ((machine Sample.config).run s₁ [.task 0 (.outcome (.succeeded (Bytes.ofString "out"))),
          .task 0 (.proceed 0 []), .task 0 (.proceed 0 [])]).any
          fun s₂ => (s₂.store.row? (bindText Sample.workId)).any (·.state.terminal))
    (by decide +kernel)
  simp only [Bool.and_eq_true, decide_eq_true_eq] at hs
  obtain ⟨⟨⟨htasks, hrow⟩, hcancel⟩, hrun⟩ := hs
  obtain ⟨p, hprocess, htasks⟩ := (Option.any_eq_true _ _).mp htasks
  obtain ⟨w, hrow, hrunning⟩ := (Option.any_eq_true _ _).mp hrow
  obtain ⟨s₁, hstep, hrun⟩ := (Option.any_eq_true _ _).mp hrun
  obtain ⟨s₂, hrun, hrow₂⟩ := (Option.any_eq_true _ _).mp hrun
  obtain ⟨w₂, hrow₂, hterminal⟩ := (Option.any_eq_true _ _).mp hrow₂
  have hcancels := Sample.cancels hcancel
  have huncommitted : s.Uncommitted (bindText Sample.workId) := by
    intro p' hprocess' t ht _
    cases hprocess.symm.trans hprocess'
    exact of_decide_eq_true (List.all_eq_true.mp htasks t ht)
  obtain ⟨w', hrow', hcancelled⟩ := (cancellation_wins hreach hcancels hstep hrow
    (Or.inr (of_decide_eq_true hrunning))).mpr huncommitted _ s₂ hrun
  obtain rfl : w₂ = w' := Option.some.inj (hrow₂.symm.trans hrow')
  exact ⟨s, s₁, s₂, w₂, hreach, hcancels, hstep, hrun, hrow₂, hcancelled hterminal⟩

/-- A `CANCEL` of a running Work, after its task has asked whether it is cancelled: the Work
succeeds. -/
theorem cancellation_loses :
  ∃ s s₁ s₂ w w₂, (machine Sample.config).Reachable s
    ∧ s.store.row? (bindText Sample.workId) = some w ∧ w.state = .running
    ∧ s.Cancels Sample.cancelling (bindText Sample.workId)
    ∧ (machine Sample.config).step s Sample.cancelling = some s₁
    ∧ (machine Sample.config).run s₁ [.task 0 (.proceed 0 [])] = some s₂
    ∧ s₂.store.row? (bindText Sample.workId) = some w₂ ∧ w₂.state = .succeeded
    ∧ w₂.cancelRequested = true
  := by
  obtain ⟨s, hreach, hs⟩ := Sample.reachable
    (Sample.dispatched ++ Sample.committing (Bytes.ofString "out"))
    (fun s => (s.store.row? (bindText Sample.workId)).any (·.state = .running)
      && ((cancel Sample.workId).eval s.store).1 = .ok (some .running)
      && ((machine Sample.config).step s Sample.cancelling).any fun s₁ =>
        ((machine Sample.config).run s₁ [.task 0 (.proceed 0 [])]).any fun s₂ =>
          (s₂.store.row? (bindText Sample.workId)).any
            fun w => w.state = .succeeded ∧ w.cancelRequested = true)
    (by decide +kernel)
  simp only [Bool.and_eq_true, decide_eq_true_eq] at hs
  obtain ⟨⟨hrow, hcancel⟩, hrun⟩ := hs
  obtain ⟨w, hrow, hrunning⟩ := (Option.any_eq_true _ _).mp hrow
  obtain ⟨s₁, hstep, hrun⟩ := (Option.any_eq_true _ _).mp hrun
  obtain ⟨s₂, hrun, hrow₂⟩ := (Option.any_eq_true _ _).mp hrun
  obtain ⟨w₂, hrow₂, hw₂⟩ := (Option.any_eq_true _ _).mp hrow₂
  exact ⟨s, s₁, s₂, w, w₂, hreach, hrow, of_decide_eq_true hrunning, Sample.cancels hcancel, hstep,
    hrun, hrow₂, of_decide_eq_true hw₂⟩

end Kernel
