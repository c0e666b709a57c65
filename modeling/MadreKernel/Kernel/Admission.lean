import MadreKernel.Kernel.Choice
import MadreKernel.Kernel.Eligibility
import MadreKernel.Kernel.Reservations

/-!
# Works that fail for their engine

The scheduler selects an engine for a Work and then asks whether its requirement can ever be
reserved.  A queued Work fails for its engine when none can be selected, or when the selected one
exceeds the configured capacity.  Only the first engine that may be selected is asked about: a Work
fails although an engine after it fits.
-/

namespace WorkAction

open WorkStore

/-- What makes a queued Work fail. -/
theorem failed_of_queued
    {a : WorkAction} {v : WorkView} {w w' : Row} (hrow : v.row? = some w)
    (hqueued : w.state = .queued) (hrow' : (a.apply v).row? = some w')
    (hfailed : w'.state = .failed) :
  (∃ nowMs, a = .expire nowMs ∧ w'.technicalFailure = bindText Kernel.deadlineText)
    ∨ a = .fail w'.technicalFailure
  := by
  have hne : w ≠ w' := by
    rintro rfl
    rw [hqueued] at hfailed
    cases hfailed
  cases a with
  | expire nowMs =>
      simp only [apply, hrow, Option.map_some, Option.some.injEq] at hrow'
      split_ifs at hrow'
      · cases hrow'
        exact Or.inl ⟨nowMs, rfl, rfl⟩
      · exact absurd hrow' hne
  | fail technicalFailure =>
      simp only [apply, WorkView.editIn, hrow, Option.map_some, hqueued, if_true,
        Option.some.injEq] at hrow'
      cases hrow'
      exact Or.inr rfl
  | start engineId modelId startedAtMs =>
      simp only [apply, hrow] at hrow'
      split_ifs at hrow'
      · cases hrow'
        cases hfailed
      · exact absurd (Option.some.inj (hrow.symm.trans hrow')) hne
  | finish =>
      simp only [apply, WorkView.editIn, WorkView.endAttempt, hrow, Option.map_some, hqueued,
        reduceCtorEq, if_false, Option.some.injEq] at hrow'
      exact absurd hrow' hne
  | failAttempt =>
      simp only [apply, endRunning, hrow, hqueued, reduceCtorEq, if_false, Option.some.injEq]
        at hrow'
      exact absurd hrow' hne
  | recover =>
      simp only [apply, endRunning, hrow, hqueued, reduceCtorEq, if_false, Option.some.injEq]
        at hrow'
      exact absurd hrow' hne
  | cancel =>
      simp only [apply, WorkView.editIn, hrow, Option.map_some, hqueued, reduceCtorEq, if_false,
        if_true, Option.some.injEq] at hrow'
      cases hrow'
      cases hfailed
  | acknowledge =>
      simp only [apply, hrow, Option.map_some, hqueued, reduceCtorEq, false_and, if_false,
        Option.some.injEq] at hrow'
      exact absurd hrow' hne

end WorkAction

namespace Kernel

open WorkStore

variable {cfg : Config} {s s' : System} {p : Process}

/-! ### Failing a queued Work -/

/-- A step fails a queued Work with a text. -/
def System.Fails (s s' : System) (id : CString) (text : CString) : Prop :=
  ∃ w w', s.store.row? id = some w ∧ w.state = .queued ∧ s'.store.row? id = some w'
    ∧ w'.state = .failed ∧ w'.technicalFailure = text

/-- The scheduler fails a Work with a text for its engine: no engine can be selected, or the
selected one exceeds the capacity. -/
def Process.Refuses (cfg : Config) (p : Process) (work : WorkRecord) (text : Bytes) : Prop :=
  selectEngine work cfg.inventory = .error text
    ∨ text = capacityText ∧ ∃ selection, selectEngine work cfg.inventory = .ok selection
      ∧ p.resources.canEverReserve selection.engine.resources = .ok false

/-- A step that leaves the database as it is fails no Work. -/
theorem System.not_fails_of_store_eq {id text : CString} (h : s'.store = s.store) :
  ¬ s.Fails s' id text
  := by
  rintro ⟨w, w', hrow, hqueued, hrow', hfailed, -⟩
  rw [h, hrow] at hrow'
  cases hrow'
  rw [hqueued] at hfailed
  cases hfailed

/-- The action that fails a Work. -/
theorem System.Fails.action
    {a : WorkAction} {id text : CString} (h : s.Fails s' id text)
    (hview : s'.store.view id = a.apply (s.store.view id)) :
  (∃ nowMs, a = .expire nowMs ∧ text = bindText deadlineText) ∨ a = .fail text
  := by
  obtain ⟨w, w', hrow, hqueued, hrow', hfailed, rfl⟩ := h
  have happly := (congrArg WorkView.row? hview).symm.trans hrow'
  exact WorkAction.failed_of_queued hrow hqueued happly hfailed

/-- An action on one Work fails no other. -/
theorem System.Fails.of_actsAt
    {a : WorkAction} {id id' text : CString} (h : s.Fails s' id text)
    (hacts : a.ActsAt id' s.store s'.store) :
  id = id' ∧ ((∃ nowMs, a = .expire nowMs ∧ text = bindText deadlineText) ∨ a = .fail text)
  := by
  have hview := hacts id
  split_ifs at hview with hid
  · exact ⟨hid, h.action hview⟩
  · obtain ⟨w, w', hrow, hqueued, hrow', hfailed, -⟩ := h
    have hsame : some w' = some w := hrow'.symm.trans ((congrArg WorkView.row? hview).trans hrow)
    cases hsame
    rw [hqueued] at hfailed
    cases hfailed

/-- A store call of the scheduler leaves the database as it is, or it is what the program makes
of it. -/
theorem schedulerCall_store
    {α : Type} {program : StoreProgram α} (hatomic : program.Atomic) (faults : List (Option Bytes))
    (next : α → Process) :
  (s.schedulerCall program faults next).store = s.store
    ∨ ∃ a, program.eval s.store = (.ok a, (s.schedulerCall program faults next).store)
  := by
  rw [System.schedulerCall]
  rcases hatomic.exec_cases faults s.store with ⟨text, hexec⟩ | ⟨a, store, hexec, heval⟩
  · rw [hexec]
    exact Or.inl rfl
  · rw [hexec]
    exact Or.inr ⟨a, heval⟩

/-- A call of `fail_queued` fails no other Work, and with no other text. -/
theorem fails_of_failQueued
    {workId failure : Bytes} {faults : List (Option Bytes)} {next : Unit → Process}
    {id text : CString}
    (h : s.Fails (s.schedulerCall (failQueued workId failure) faults next) id text) :
  id = bindText workId ∧ text = bindText failure
  := by
  rcases schedulerCall_store (s := s) (failQueued_atomic workId failure) faults next with
    hstore | ⟨_, heval⟩
  · exact absurd h (System.not_fails_of_store_eq hstore)
  · have hacts := failQueued_acts workId failure s.store
    rw [heval] at hacts
    obtain ⟨hid, ⟨nowMs, hexpire, -⟩ | hfail⟩ := h.of_actsAt hacts
    · cases hexpire
    · cases hfail
      exact ⟨hid, rfl⟩

/-- A step of the scheduler fails a queued Work because its deadline has passed, or because it is
about to dispatch the Work and refuses it. -/
theorem schedulerStep_fails
    {input : SchedulerInput} (h : s.schedulerStep cfg p input = some s') {id text : CString}
    (hfails : s.Fails s' id text) :
  text = bindText deadlineText
    ∨ ∃ now work failure, p.scheduler = .dispatching now work ∧ deadlinePassed work now = false
      ∧ bindText work.id = id ∧ text = bindText failure ∧ p.Refuses cfg work failure
  := by
  cases hphase : p.scheduler with
  | sweeping =>
      left
      simp only [System.schedulerStep, hphase] at h
      split_ifs at h
      · cases h
        exact absurd hfails (System.not_fails_of_store_eq rfl)
      · cases h
        rcases schedulerCall_store (s := s) (expireQueuedDeadlines_atomic input.nowMs) input.faults
          (fun _ => { p with scheduler := .picking input.nowMs }) with hstore | ⟨_, heval⟩
        · exact absurd hfails (System.not_fails_of_store_eq hstore)
        · have hacts := expireQueuedDeadlines_acts input.nowMs s.store
          rw [heval] at hacts
          rcases hfails.action (hacts id) with ⟨_, -, htext⟩ | hfail
          · exact htext
          · cases hfail
  | picking schedulerNow =>
      simp only [System.schedulerStep, hphase] at h
      cases h
      rcases schedulerCall_store (s := s) (nextEligible_atomic schedulerNow) input.faults _ with
        hstore | ⟨found, heval⟩
      · exact absurd hfails (System.not_fails_of_store_eq hstore)
      · rw [nextEligible, Session.eval_query] at heval
        exact absurd hfails (System.not_fails_of_store_eq (congrArg Prod.snd heval).symm)
  | dispatching schedulerNow work =>
      simp only [System.schedulerStep, hphase] at h
      split_ifs at h with hdeadline
      · cases h
        exact Or.inl (fails_of_failQueued hfails).2
      · have hpassed : deadlinePassed work schedulerNow = false := by
          simpa using hdeadline
        cases hselect : selectEngine work cfg.inventory with
        | error failure =>
            rw [hselect] at h
            cases h
            obtain ⟨rfl, rfl⟩ := fails_of_failQueued hfails
            exact Or.inr ⟨_, _, _, rfl, hpassed, rfl, rfl, Or.inl hselect⟩
        | ok selection =>
            rw [hselect] at h
            simp only at h
            cases hever : p.resources.canEverReserve selection.engine.resources with
            | error e =>
                rw [hever] at h
                cases h
                exact absurd hfails (System.not_fails_of_store_eq rfl)
            | ok fits =>
                rw [hever] at h
                cases fits with
                | false =>
                    cases h
                    obtain ⟨rfl, rfl⟩ := fails_of_failQueued hfails
                    exact Or.inr ⟨_, _, _, rfl, hpassed, rfl, rfl,
                      Or.inr ⟨rfl, selection, hselect, hever⟩⟩
                | true =>
                    simp only at h
                    split at h
                    all_goals
                      cases h
                      exact absurd hfails (System.not_fails_of_store_eq rfl)
  | reserved work selection =>
      left
      simp only [System.schedulerStep, hphase] at h
      split_ifs at h
      · cases h
        exact (fails_of_failQueued hfails).2
      · cases h
        rcases schedulerCall_store (s := s) (beginAttempt_atomic _ _ _ _) input.faults _ with
          hstore | ⟨number, heval⟩
        · exact absurd hfails (System.not_fails_of_store_eq hstore)
        · rcases beginAttempt_acts heval with ⟨-, hstore⟩ | ⟨w, -, -, -, hacts⟩
          · exact absurd hfails (System.not_fails_of_store_eq hstore)
          · obtain ⟨-, ⟨_, hstart, -⟩ | hstart⟩ := hfails.of_actsAt hacts
            · cases hstart
            · cases hstart
  | launching work selection number startedAtMs =>
      left
      simp only [System.schedulerStep, hphase] at h
      split at h
      · cases h
        rcases schedulerCall_store (s := s) (finishRetryableFailure_atomic _ _ _ _ _) input.faults _
          with hstore | ⟨_, heval⟩
        · exact absurd hfails (System.not_fails_of_store_eq hstore)
        · obtain ⟨-, ⟨_, hend, -⟩ | hend⟩ :=
            hfails.of_actsAt (finishRetryableFailure_settles heval).2
          · cases hend
          · cases hend
      · cases h
        exact absurd hfails (System.not_fails_of_store_eq rfl)
  | left =>
      simp only [System.schedulerStep, hphase] at h
      cases h

/-! ### The configured capacity -/

theorem tryReserve_capacity
    {m m' : ResourceManager} {r : ResourceRequirement} {granted : Bool}
    (h : m.tryReserve r = .ok (granted, m')) :
  m'.capacity = m.capacity
  := by
  cases granted with
  | false => exact (ResourceManager.tryReserve_false h).1
  | true => exact (ResourceManager.tryReserve_true h).2.2.2.2.1

/-- A process after a store call of the scheduler is one that the call goes on with. -/
theorem schedulerCall_continues
    {α : Type} {program : StoreProgram α} {faults : List (Option Bytes)} {next : α → Process}
    {p' : Process} (h : (s.schedulerCall program faults next).process = some p') :
  ∃ a, p' = next a
  := by
  rw [System.schedulerCall] at h
  split at h
  next a store hexec =>
    cases h
    exact ⟨a, rfl⟩
  next => cases h

theorem schedulerStep_capacity
    {input : SchedulerInput} (h : s.schedulerStep cfg p input = some s') {p' : Process}
    (hprocess' : s'.process = some p') :
  p'.resources.capacity = p.resources.capacity
  := by
  cases hphase : p.scheduler with
  | sweeping =>
      simp only [System.schedulerStep, hphase] at h
      split_ifs at h
      · cases h
        cases hprocess'
        rfl
      · cases h
        obtain ⟨_, rfl⟩ := schedulerCall_continues hprocess'
        rfl
  | picking schedulerNow =>
      simp only [System.schedulerStep, hphase] at h
      cases h
      obtain ⟨found, rfl⟩ := schedulerCall_continues hprocess'
      cases found with
      | none => rfl
      | some work => rfl
  | dispatching schedulerNow work =>
      simp only [System.schedulerStep, hphase] at h
      split_ifs at h
      · cases h
        obtain ⟨_, rfl⟩ := schedulerCall_continues hprocess'
        rfl
      · split at h
        · cases h
          obtain ⟨_, rfl⟩ := schedulerCall_continues hprocess'
          rfl
        · split at h
          · cases h
            cases hprocess'
          · cases h
            obtain ⟨_, rfl⟩ := schedulerCall_continues hprocess'
            rfl
          · split at h
            · cases h
              cases hprocess'
            next hcall =>
              cases h
              cases hprocess'
              exact tryReserve_capacity hcall
            next hcall =>
              cases h
              cases hprocess'
              exact tryReserve_capacity hcall
  | reserved work selection =>
      simp only [System.schedulerStep, hphase] at h
      split_ifs at h
      · cases h
        obtain ⟨_, rfl⟩ := schedulerCall_continues hprocess'
        rfl
      · cases h
        obtain ⟨number, rfl⟩ := schedulerCall_continues hprocess'
        split_ifs
        · rfl
        · rfl
  | launching work selection number startedAtMs =>
      simp only [System.schedulerStep, hphase] at h
      split at h
      · cases h
        obtain ⟨_, rfl⟩ := schedulerCall_continues hprocess'
        rfl
      · cases h
        cases hprocess'
        rfl
  | left =>
      simp only [System.schedulerStep, hphase] at h
      cases h

theorem attemptStep_capacity
    {i : Nat} {input : TaskInput} (h : s.attemptStep p i input = some s') {p' : Process}
    (hprocess' : s'.process = some p') :
  p'.resources.capacity = p.resources.capacity
  := by
  rw [System.attemptStep] at h
  split at h
  · cases h
  next t ht =>
    obtain ⟨step, -, rfl⟩ := Option.map_eq_some_iff.mp h
    cases hprocess'
    cases step.next with
    | none => rfl
    | some phase => rfl

theorem HandlerMove.capacity
    (h : HandlerMove cfg s p s') {p' : Process} (hprocess' : s'.process = some p') :
  p'.resources.capacity = p.resources.capacity
  := by
  cases h <;> cases hprocess' <;> rfl

/-- The resources of a process are those of the configured capacity. -/
theorem reachable_capacity
    (h : (machine cfg).Reachable s) (hprocess : s.process = some p) :
  p.resources.capacity = cfg.capacity
  := by
  refine Machine.Reachable.invariant
    (P := fun s => ∀ p, s.process = some p → p.resources.capacity = cfg.capacity) ?_ ?_ h p hprocess
  · intro s hinit p hprocess
    rw [hinit.2.1] at hprocess
    cases hprocess
  · intro s e s' _ hcapacity hstep p' hprocess'
    have hstep' : s.step cfg e = some s' := hstep
    cases hprocess : s.process with
    | none =>
        cases e with
        | start nowMs faults =>
            simp only [System.step, hprocess, Option.some.injEq] at hstep'
            subst hstep'
            rw [System.startStep] at hprocess'
            split at hprocess'
            · cases hprocess'
              rfl
            · cases hprocess'
        | _ =>
            simp only [System.step, hprocess] at hstep'
            cases hstep'
    | some p =>
        rw [← hcapacity p hprocess]
        cases e with
        | start nowMs faults =>
            simp only [System.step, hprocess] at hstep'
            cases hstep'
        | crash =>
            simp only [System.step, hprocess] at hstep'
            cases hstep'
            cases hprocess'
        | stop =>
            simp only [System.step, hprocess] at hstep'
            cases hstep'
            cases hprocess'
            rfl
        | scheduler input =>
            simp only [System.step, hprocess] at hstep'
            exact schedulerStep_capacity hstep' hprocess'
        | task i input =>
            simp only [System.step, hprocess] at hstep'
            exact attemptStep_capacity hstep' hprocess'
        | handler input =>
            simp only [System.step, hprocess] at hstep'
            exact (System.handlerStep_move hprocess hstep').capacity hprocess'

/-- `can_ever_reserve` of a process that has just started. -/
def everFits (capacity : ResourceCapacity) (r : ResourceRequirement) : Except Bytes Bool :=
  (ResourceManager.ofCapacity capacity).canEverReserve r

/-- The answer of `can_ever_reserve` is about the capacity alone. -/
theorem reachable_canEverReserve
    (h : (machine cfg).Reachable s) (hprocess : s.process = some p) (r : ResourceRequirement) :
  p.resources.canEverReserve r = everFits cfg.capacity r
  := by
  rw [everFits, ← reachable_capacity h hprocess]
  rfl

/-! ### The texts of the failures -/

/-- The texts with which a Work fails for its engine. -/
def engineFailures (work : WorkRecord) : List Bytes :=
  capacityText :: SelectionStage.order.map fun stage => stage.failure work

theorem head?_bindText (text : Bytes) :
  (bindText text).toBytes.head? = text.head?.filter (· != 0)
  := by
  have htaken : (bindText text).toBytes = text.takeWhile (· != 0) := rfl
  rw [htaken]
  cases text with
  | nil => rfl
  | cons b rest =>
      rw [List.takeWhile_cons, List.head?_cons, Option.filter_some]
      split_ifs
      · rfl
      · rfl

/-- The first octets of the texts. -/
theorem head?_engineFailures {work : WorkRecord} {text : Bytes} (h : text ∈ engineFailures work) :
  text.head? ∈ [some 73, some 78, some 69]
  := by
  have hliterals : capacityText.head? = some 73
      ∧ (Bytes.ofString "NO_ELIGIBLE_ENGINE: no engine supports Work type ").head? = some 78
      ∧ (Bytes.ofString "NO_ELIGIBLE_ENGINE: required capabilities are not satisfied").head?
        = some 78
      ∧ (Bytes.ofString
        "NO_ELIGIBLE_ENGINE: eligible engine allowlist excluded all compatible engines").head?
        = some 78
      ∧ (Bytes.ofString
        "EXACT_SELECTION_UNSATISFIED: exact engine/model constraint did not match").head? = some 69
      ∧ (Bytes.ofString "NO_ELIGIBLE_ENGINE: requested effort ").head? = some 78
      ∧ (Bytes.ofString "NO_ELIGIBLE_ENGINE: compatible engines are unavailable").head?
        = some 78 := by
    decide +kernel
  rw [engineFailures, List.mem_cons] at h
  rcases h with rfl | h
  · rw [hliterals.1]
    simp
  · obtain ⟨stage, -, rfl⟩ := List.mem_map.mp h
    cases stage
    all_goals
      simp only [SelectionStage.failure, List.head?_append, hliterals, Option.some_or]
      simp

/-- The text about a deadline is none of them. -/
theorem deadlineText_ne {work : WorkRecord} {text : Bytes} (h : text ∈ engineFailures work) :
  bindText deadlineText ≠ bindText text
  := by
  have hhead := head?_engineFailures h
  intro heq
  have hheads := congrArg (fun text : CString => text.toBytes.head?) heq
  simp only [head?_bindText] at hheads
  have hdeadline : deadlineText.head?.filter (· != 0) = some 68 := by
    decide +kernel
  rw [hdeadline] at hheads
  simp only [List.mem_cons, List.not_mem_nil, or_false] at hhead
  rcases hhead with hhead | hhead | hhead
  all_goals
    rw [hhead] at hheads
    revert hheads
    decide

/-! ### Constants -/

section

variable {work work' : WorkRecord}

theorem selectable_of_constants
    (h : work.constants = work'.constants) (engine : EngineDescriptorFacts) :
  Selectable work engine ↔ Selectable work' engine
  := by
  have hsuits : Suits work engine ↔ Suits work' engine := by
    rw [← suits_constants work, h, suits_constants]
  constructor
  · intro hselectable
    exact ⟨hsuits.mp hselectable.toSuits, hselectable.available⟩
  · intro hselectable
    exact ⟨hsuits.mpr hselectable.toSuits, hselectable.available⟩

theorem firstSelectable_of_constants
    (h : work.constants = work'.constants) {inventory : List EngineDescriptorFacts}
    (engine : EngineDescriptorFacts) :
  FirstSelectable work inventory engine ↔ FirstSelectable work' inventory engine
  := by
  simp only [FirstSelectable, selectable_of_constants h]

end

/-! ### Works that an engine fits -/

/-- The scheduler is about to select an engine for a Work. -/
def System.Selecting (s : System) (id : CString) : Prop :=
  ∃ p now work, s.process = some p ∧ p.scheduler = .dispatching now work ∧ bindText work.id = id
    ∧ deadlinePassed work now = false

/-- Some engine that may be selected for a Work fits the configured capacity. -/
def EngineFits (cfg : Config) (work : WorkRecord) : Prop :=
  ∃ engine ∈ cfg.inventory, Selectable work engine
    ∧ everFits cfg.capacity engine.resources = .ok true

theorem failQueued_fails
    {workId : Bytes} {w : Row} (hrow : s.store.row? (bindText workId) = some w)
    (hqueued : w.state = .queued) (failure : Bytes) (next : Unit → Process) :
  s.Fails (s.schedulerCall (failQueued workId failure) [] next) (bindText workId)
    (bindText failure)
  := by
  have hview := (failQueued_acts workId failure s.store (bindText workId)).trans (if_pos rfl)
  have hrow' : (s.store.view (bindText workId)).row? = some w := hrow
  have happly := congrArg WorkView.row? hview
  simp only [WorkAction.apply, WorkView.editIn, hrow', Option.map_some, hqueued, if_true] at happly
  exact ⟨w, _, hrow, hqueued, happly, rfl, rfl⟩

/-- The Work that the scheduler is about to dispatch has the constants of its row. -/
theorem dispatching_constants
    (h : (machine cfg).Reachable s) (hprocess : s.process = some p) {now : Int64}
    {work : WorkRecord} (hphase : p.scheduler = .dispatching now work) {w : Row}
    (hrow : s.store.row? (bindText work.id) = some w) :
  (readWork w).constants = work.constants
  := by
  have hwork : p.scheduler.work? = some work := by
    rw [hphase]
    rfl
  obtain ⟨w', hrow', hconstants⟩ :=
    reachable_holds h hprocess (Process.mem_records_of_scheduler hwork)
  obtain rfl : w = w' := Option.some.inj (hrow.symm.trans hrow')
  exact hconstants

/-- A Work that some engine fits is failed for its engine exactly when the scheduler is about to
select one for it, and the first engine that may be selected does not fit. -/
theorem capacity_failure_iff
    (h : (machine cfg).Reachable s) {id : CString} {w : Row} (hrow : s.store.row? id = some w)
    (hqueued : w.state = .queued) :
  (EngineFits cfg (readWork w) → ∀ input s', (machine cfg).step s (.scheduler input) = some s' →
      ∀ text ∈ engineFailures (readWork w), ¬ s.Fails s' id (bindText text))
    ↔ (EngineFits cfg (readWork w) → s.Selecting id →
      ∀ first, FirstSelectable (readWork w) cfg.inventory first →
        everFits cfg.capacity first.resources ≠ .ok false)
  := by
  apply imp_congr_right
  rintro ⟨engine, hengine, hselectable, -⟩
  constructor
  · rintro hspared ⟨p, now, work, hprocess, hphase, rfl, hdeadline⟩ first hfirst hlarge
    have hconstants := dispatching_constants h hprocess hphase hrow
    have hselect : selectEngine work cfg.inventory = .ok ⟨first, modelFor work first⟩ :=
      (selectEngine_eq_ok_iff _).mpr
        ⟨(firstSelectable_of_constants hconstants first).mp hfirst, rfl⟩
    have hstep : (machine cfg).step s (.scheduler ⟨0, [], .ok ()⟩)
        = some (s.schedulerCall (failQueued work.id capacityText) [] fun _ =>
          { p with scheduler := .sweeping }) := by
      have hever := (reachable_canEverReserve h hprocess first.resources).trans hlarge
      simp only [machine, System.step, hprocess, System.schedulerStep, hphase, hdeadline, hselect,
        hever, Bool.false_eq_true, if_false]
    exact hspared _ _ hstep _ List.mem_cons_self (failQueued_fails hrow hqueued _ _)
  · intro hfits input s' hstep text htext hfails
    cases hprocess : s.process with
    | none =>
        simp only [machine, System.step, hprocess] at hstep
        cases hstep
    | some p =>
        simp only [machine, System.step, hprocess] at hstep
        rcases schedulerStep_fails hstep hfails with hdeadline
          | ⟨now, work, failure, hphase, hdeadline, rfl, -, hrefuses⟩
        · exact deadlineText_ne htext hdeadline.symm
        · have hconstants := dispatching_constants h hprocess hphase hrow
          have hexists := exists_firstSelectable_iff.mpr
            ⟨engine, hengine, (selectable_of_constants hconstants engine).mp hselectable⟩
          obtain ⟨first, hfirst⟩ := hexists
          have hselect : selectEngine work cfg.inventory = .ok ⟨first, modelFor work first⟩ :=
            (selectEngine_eq_ok_iff _).mpr ⟨hfirst, rfl⟩
          rcases hrefuses with herror | ⟨-, selection, hselection, hlarge⟩
          · rw [hselect] at herror
            cases herror
          · rw [hselect] at hselection
            cases hselection
            apply hfits ⟨p, now, work, hprocess, hphase, rfl, hdeadline⟩ first
              ((firstSelectable_of_constants hconstants first).mpr hfirst)
            rw [← reachable_canEverReserve h hprocess]
            exact hlarge

/-- An engine that is larger than the sample Kernel. -/
def Sample.largeEngine : EngineDescriptorFacts :=
  { Sample.engine with
    id := Bytes.ofString "l"
    resources := ⟨2, 1, [], 0⟩
    id_nulFree := by decide +kernel }

/-- The events until the scheduler is about to select an engine for the first Work. -/
def Sample.selecting : List System.Event :=
  Sample.submitting (Sample.frame .submit Sample.fields "in")
    ++ List.replicate 2 (.scheduler ⟨0, [], .ok ()⟩)

/-- The sample Kernel with other engines. -/
def Sample.configOf (inventory : List EngineDescriptorFacts) : Config :=
  { Sample.config with inventory }

/-- The large engine is the second one, and the first one fits. -/
theorem capacity_failure_none :
  ∃ s w, (machine (Sample.configOf [Sample.engine, Sample.largeEngine])).Reachable s
    ∧ s.store.row? (bindText Sample.workId) = some w
    ∧ ∀ input s', (machine (Sample.configOf [Sample.engine, Sample.largeEngine])).step s
        (.scheduler input) = some s' →
      ∀ text ∈ engineFailures (readWork w), ¬ s.Fails s' (bindText Sample.workId) (bindText text)
  := by
  let cfg : Config := Sample.configOf [Sample.engine, Sample.largeEngine]
  have hrun : ((machine cfg).run Sample.start Sample.selecting).any (fun s =>
      (s.store.row? (bindText Sample.workId)).any fun w => w.state = .queued
        && (selectEngine (readWork w) cfg.inventory).toOption.any fun selection =>
          everFits cfg.capacity selection.engine.resources = .ok true) = true := by
    decide +kernel
  obtain ⟨s, hrun, hs⟩ := (Option.any_eq_true _ _).mp hrun
  obtain ⟨w, hrow, hw⟩ := (Option.any_eq_true _ _).mp hs
  rw [Bool.and_eq_true, decide_eq_true_eq] at hw
  obtain ⟨hqueued, hselect⟩ := hw
  obtain ⟨selection, hselection, hfits⟩ := (Option.any_eq_true _ _).mp hselect
  rw [decide_eq_true_eq] at hfits
  have hreach : (machine cfg).Reachable s :=
    ⟨Sample.start, Sample.selecting, ⟨rfl, rfl, rfl⟩, hrun⟩
  use s, w, hreach, hrow
  cases hselect : selectEngine (readWork w) cfg.inventory with
  | error e =>
      rw [hselect] at hselection
      cases hselection
  | ok selection' =>
      rw [hselect] at hselection
      cases hselection
      have hfirst := ((selectEngine_eq_ok_iff selection).mp hselect).1
      have hsome : EngineFits cfg (readWork w) := by
        obtain ⟨before, after, hinventory, hselectable, -⟩ := hfirst
        refine ⟨selection.engine, ?_, hselectable, hfits⟩
        rw [hinventory]
        simp
      apply (capacity_failure_iff hreach hrow hqueued).mpr _ hsome
      intro _ _ first hfirst' hlarge
      have hselect' := (selectEngine_eq_ok_iff ⟨first, modelFor (readWork w) first⟩).mpr
        ⟨hfirst', rfl⟩
      rw [hselect] at hselect'
      cases hselect'
      rw [hfits] at hlarge
      cases hlarge

/-- The large engine is the first one, and a Work fails that the second one fits. -/
theorem capacity_failure_large :
  ¬ ∀ cfg s id w, (machine cfg).Reachable s → s.store.row? id = some w → w.state = .queued →
    EngineFits cfg (readWork w) → ∀ input s', (machine cfg).step s (.scheduler input) = some s' →
      ∀ text ∈ engineFailures (readWork w), ¬ s.Fails s' id (bindText text)
  := by
  intro hall
  let cfg : Config := Sample.configOf [Sample.largeEngine, Sample.engine]
  have hrun : ((machine cfg).run Sample.start Sample.selecting).any (fun s =>
      (s.store.row? (bindText Sample.workId)).any fun w => w.state = .queued
        && SelectionStage.order.all (fun stage => stage.keep (readWork w) Sample.engine)
        && ((machine cfg).step s (.scheduler ⟨0, [], .ok ()⟩)).any fun s' =>
          (s'.store.row? (bindText Sample.workId)).any fun w' => w'.state = .failed
            && w'.technicalFailure = bindText capacityText) = true := by
    decide +kernel
  obtain ⟨s, hrun, hs⟩ := (Option.any_eq_true _ _).mp hrun
  obtain ⟨w, hrow, hw⟩ := (Option.any_eq_true _ _).mp hs
  rw [Bool.and_eq_true, Bool.and_eq_true, decide_eq_true_eq] at hw
  obtain ⟨⟨hqueued, hkeep⟩, hstep⟩ := hw
  obtain ⟨s', hstep, hs'⟩ := (Option.any_eq_true _ _).mp hstep
  obtain ⟨w', hrow', hw'⟩ := (Option.any_eq_true _ _).mp hs'
  rw [Bool.and_eq_true, decide_eq_true_eq, decide_eq_true_eq] at hw'
  have hselectable : Selectable (readWork w) Sample.engine := by
    rw [selectable_iff]
    intro stage hstage
    exact (SelectionStage.keep_iff _ _ stage).mp (List.all_eq_true.mp hkeep stage hstage)
  have hfits : EngineFits cfg (readWork w) := by
    use Sample.engine, by simp [cfg, Sample.configOf], hselectable
    rfl
  exact hall cfg s _ w ⟨Sample.start, Sample.selecting, ⟨rfl, rfl, rfl⟩, hrun⟩ hrow hqueued hfits _
    s' hstep capacityText List.mem_cons_self ⟨w, w', hrow, hqueued, hrow', hw'.1, hw'.2⟩

end Kernel
