import MadreKernel.Kernel.Refinement
import MadreKernel.Store.Course

/-!
# The records that threads hold

Between two store calls a thread holds a Work record that it has read before.  The record may
be out of date, but its constant columns are those of the row: they are the ones that the
`SUBMIT` frame of the Work asked for, as far as the store keeps them.
-/

/-- The store has a row for the record, with the same constants. -/
def Store.Holds (s : Store) (work : WorkRecord) : Prop :=
  ∃ w, s.row? (bindText work.id) = some w ∧ (readWork w).constants = work.constants

theorem Store.Holds.of_row? {s : Store} {id : CString} {w : Row} (h : s.row? id = some w) :
  s.Holds (readWork w)
  := by
  refine ⟨w, ?_, rfl⟩
  rw [bindText_readWork_id, Store.id_of_row? h]
  exact h

/-- A step of the ledger keeps what the store holds. -/
theorem Store.Holds.step
    {picked : CString → CString → CString → Prop} {s s' : Store} {owners owners' : List Owner}
    {work : WorkRecord} (h : s.Holds work) (hstep : Ledger.Step picked s owners s' owners') :
  s'.Holds work
  := by
  obtain ⟨w, hrow, hconstants⟩ := h
  obtain ⟨w', hrow', hkept⟩ := hstep.kept hrow
  exact ⟨w', hrow', hkept.constants.trans hconstants⟩

namespace Kernel

def SchedulerPhase.work? : SchedulerPhase → Option WorkRecord
  | .dispatching _ work | .reserved work _ | .launching work _ _ _ => some work
  | _ => none

/-- The Work that a request has found. -/
def HandlerPhase.found? : HandlerPhase → Option WorkRecord
  | .resultFound _ work | .acknowledgeFound _ work | .removingInput _ work
  | .removingResult _ work => some work
  | _ => none

/-- The records of the threads of a process. -/
def Process.records (p : Process) : List WorkRecord :=
  p.tasks.map Task.work ++ p.scheduler.work?.toList ++ p.handler.found?.toList

/-- A record that a process has after a step was there before, or is a row of the store. -/
def System.Knows (s : System) (work : WorkRecord) : Prop :=
  (∃ p, s.process = some p ∧ work ∈ p.records)
    ∨ ∃ id w, s.store.row? id = some w ∧ work = readWork w

variable {cfg : Config} {s s' : System} {p p' : Process}

/-- The records of a process that goes on with other phases. -/
theorem System.knows_of_records
    (hprocess : s.process = some p) {work : WorkRecord} (hmem : work ∈ p'.records)
    (htasks : ∀ t ∈ p'.tasks, t.work ∈ p.records)
    (hscheduler : ∀ work, p'.scheduler.work? = some work → s.Knows work)
    (hhandler : ∀ work, p'.handler.found? = some work → s.Knows work) :
  s.Knows work
  := by
  simp only [Process.records, List.mem_append, List.mem_map, Option.mem_toList] at hmem
  rcases hmem with (⟨t, ht, rfl⟩ | hwork) | hwork
  · exact Or.inl ⟨p, hprocess, htasks t ht⟩
  · exact hscheduler work hwork
  · exact hhandler work hwork

theorem Process.mem_records_of_task {t : Task} (h : t ∈ p.tasks) :
  t.work ∈ p.records
  := by
  simp only [records, List.mem_append]
  exact Or.inl (Or.inl (List.mem_map_of_mem h))

theorem Process.mem_records_of_scheduler {work : WorkRecord} (h : p.scheduler.work? = some work) :
  work ∈ p.records
  := by
  simp [records, h]

theorem Process.mem_records_of_handler {work : WorkRecord} (h : p.handler.found? = some work) :
  work ∈ p.records
  := by
  simp [records, h]

theorem SchedulerPhase.Idle.work? {scheduler : SchedulerPhase} (h : scheduler.Idle) :
  scheduler.work? = none
  := by
  cases scheduler with
  | sweeping => rfl
  | picking schedulerNow => rfl
  | left => rfl
  | _ => cases h

theorem SchedulerMove.knows
    (hprocess : s.process = some p) (h : SchedulerMove cfg s p s') (hprocess' : s'.process = some p')
    {work : WorkRecord} (hmem : work ∈ p'.records) :
  s.Knows work
  := by
  have hhandler : ∀ work, p.handler.found? = some work → s.Knows work := by
    intro work hwork
    exact Or.inl ⟨p, hprocess, Process.mem_records_of_handler hwork⟩
  have htasks : ∀ t ∈ p.tasks, t.work ∈ p.records := fun t ht => Process.mem_records_of_task ht
  -- The phase after the step holds the Work of the phase before it.
  have hheld : ∀ {work' : WorkRecord}, p.scheduler.work? = some work' →
      ∀ work, some work' = some work → s.Knows work := by
    rintro work' hwork work ⟨⟩
    exact Or.inl ⟨p, hprocess, Process.mem_records_of_scheduler hwork⟩
  cases h with
  | gone => cases hprocess'
  | turn resources hidle =>
      cases hprocess'
      refine System.knows_of_records hprocess hmem htasks ?_ hhandler
      intro work hwork
      rw [hidle.work?] at hwork
      cases hwork
  | pick schedulerNow hrow =>
      cases hprocess'
      refine System.knows_of_records hprocess hmem htasks ?_ hhandler
      rintro work ⟨⟩
      exact Or.inr ⟨_, _, hrow, rfl⟩
  | reserve resources hphase hselect =>
      cases hprocess'
      exact System.knows_of_records hprocess hmem htasks (hheld (by rw [hphase]; rfl)) hhandler
  | begin hphase hrow hstart hnumber hacts =>
      cases hprocess'
      exact System.knows_of_records hprocess hmem htasks (hheld (by rw [hphase]; rfl)) hhandler
  | launch hphase =>
      cases hprocess'
      refine System.knows_of_records hprocess hmem ?_ (by rintro work ⟨⟩) hhandler
      intro t ht
      rcases List.mem_append.mp ht with ht | ht
      · exact htasks t ht
      · rw [List.mem_singleton.mp ht]
        exact Process.mem_records_of_scheduler (by rw [hphase]; rfl)
  | _ =>
      cases hprocess'
      exact System.knows_of_records hprocess hmem htasks (by rintro work ⟨⟩) hhandler

theorem HandlerMove.knows
    (hprocess : s.process = some p) (h : HandlerMove cfg s p s') (hprocess' : s'.process = some p')
    {work : WorkRecord} (hmem : work ∈ p'.records) :
  s.Knows work
  := by
  have hscheduler : ∀ work, p.scheduler.work? = some work → s.Knows work := by
    intro work hwork
    exact Or.inl ⟨p, hprocess, Process.mem_records_of_scheduler hwork⟩
  have htasks : ∀ t ∈ p.tasks, t.work ∈ p.records := fun t ht => Process.mem_records_of_task ht
  have hheld : ∀ {work' : WorkRecord}, p.handler.found? = some work' →
      ∀ work, some work' = some work → s.Knows work := by
    rintro work' hwork work ⟨⟩
    exact Or.inl ⟨p, hprocess, Process.mem_records_of_handler hwork⟩
  cases h with
  | findResult hid hrow =>
      cases hprocess'
      refine System.knows_of_records hprocess hmem htasks hscheduler ?_
      rintro work ⟨⟩
      exact Or.inr ⟨_, _, hrow, rfl⟩
  | findAcknowledge hid hrow =>
      cases hprocess'
      refine System.knows_of_records hprocess hmem htasks hscheduler ?_
      rintro work ⟨⟩
      exact Or.inr ⟨_, _, hrow, rfl⟩
  | acknowledge hphase hid hrow hstate hacts =>
      cases hprocess'
      exact System.knows_of_records hprocess hmem htasks hscheduler (hheld (by rw [hphase]; rfl))
  | removeInput hphase =>
      cases hprocess'
      exact System.knows_of_records hprocess hmem htasks hscheduler (hheld (by rw [hphase]; rfl))
  | keepInput hphase =>
      cases hprocess'
      exact System.knows_of_records hprocess hmem htasks hscheduler (hheld (by rw [hphase]; rfl))
  | _ =>
      cases hprocess'
      exact System.knows_of_records hprocess hmem htasks hscheduler (by rintro work ⟨⟩)

/-- A step gives the threads no records but rows of the store. -/
theorem Move.knows
    (h : Move cfg s s') (hprocess' : s'.process = some p') {work : WorkRecord}
    (hmem : work ∈ p'.records) :
  s.Knows work
  := by
  cases h with
  | start hprocess hacts =>
      cases hprocess'
      cases hmem
  | gone => cases hprocess'
  | stop hprocess =>
      cases hprocess'
      exact Or.inl ⟨_, hprocess, hmem⟩
  | scheduler hprocess hmove => exact hmove.knows hprocess hprocess' hmem
  | @task p p' before after t input step hprocess htasks hmove htasks' hscheduler hhandler =>
      cases hprocess'
      have hsame : ∀ t' ∈ p'.tasks, t'.work ∈ p.records := by
        intro t' ht'
        rw [htasks'] at ht'
        simp only [List.mem_append, Option.mem_toList, Option.map_eq_some_iff] at ht'
        rcases ht' with (ht' | ⟨phase, -, rfl⟩) | ht'
        · exact Process.mem_records_of_task (by rw [htasks]; simp [ht'])
        · exact Process.mem_records_of_task (t := t) (by rw [htasks]; simp)
        · exact Process.mem_records_of_task (by rw [htasks]; simp [ht'])
      refine System.knows_of_records hprocess hmem hsame ?_ ?_
      · intro work hwork
        rw [hscheduler] at hwork
        exact Or.inl ⟨p, hprocess, Process.mem_records_of_scheduler hwork⟩
      · intro work hwork
        rw [hhandler] at hwork
        exact Or.inl ⟨p, hprocess, Process.mem_records_of_handler hwork⟩
  | handler hprocess hmove => exact hmove.knows hprocess hprocess' hmem

/-- In every reachable state the store holds the records of the threads. -/
theorem reachable_holds
    (h : (machine cfg).Reachable s) (hprocess : s.process = some p) {work : WorkRecord}
    (hmem : work ∈ p.records) :
  s.store.Holds work
  := by
  refine Machine.Reachable.invariant
    (P := fun s => ∀ p, s.process = some p → ∀ work ∈ p.records, s.store.Holds work) ?_ ?_ h p
    hprocess work hmem
  · intro s hinit p hprocess
    rw [hinit.2.1] at hprocess
    cases hprocess
  · intro s e s' hreach hholds hstep p' hprocess' work hmem
    have hledger := reachable_step hreach hstep
    rcases (System.step_move hstep).knows hprocess' hmem with ⟨p, hprocess, hold⟩ | ⟨id, w, hrow, rfl⟩
    · exact (hholds p hprocess work hold).step hledger
    · exact (Store.Holds.of_row? hrow).step hledger

/-! ### The selection -/

/-- The Work and the selection that the scheduler has reserved resources for. -/
def SchedulerPhase.selected? : SchedulerPhase → Option (WorkRecord × Selection)
  | .reserved work selection | .launching work selection _ _ => some (work, selection)
  | _ => none

theorem SchedulerPhase.Idle.selected? {phase : SchedulerPhase} (h : phase.Idle) :
  phase.selected? = none
  := by
  cases phase with
  | reserved => cases h
  | launching => cases h
  | _ => rfl

/-- What the scheduler has selected is what `select_engine` returns. -/
theorem Move.selected
    (hselected : ∀ p work selection, s.process = some p →
      p.scheduler.selected? = some (work, selection) →
      selectEngine work cfg.inventory = .ok selection)
    (h : Move cfg s s') :
  ∀ p work selection, s'.process = some p → p.scheduler.selected? = some (work, selection) →
    selectEngine work cfg.inventory = .ok selection
  := by
  intro p' work selection hprocess' hheld
  cases h with
  | start hprocess hacts =>
      cases hprocess'
      cases hheld
  | gone => cases hprocess'
  | stop hprocess =>
      cases hprocess'
      exact hselected _ work selection hprocess hheld
  | scheduler hprocess hmove =>
      cases hmove with
      | gone => cases hprocess'
      | turn resources hidle =>
          cases hprocess'
          rw [hidle.selected?] at hheld
          cases hheld
      | reserve resources hphase hselect =>
          cases hprocess'
          cases hheld
          exact hselect
      | begin hphase =>
          cases hprocess'
          cases hheld
          exact hselected _ _ _ hprocess (by rw [hphase]; rfl)
      | _ =>
          cases hprocess'
          cases hheld
  | task hprocess htasks hmove htasks' hscheduler hhandler =>
      cases hprocess'
      rw [hscheduler] at hheld
      exact hselected _ work selection hprocess hheld
  | handler hprocess hmove =>
      cases hmove <;> cases hprocess' <;> exact hselected _ work selection hprocess hheld

theorem reachable_selected
    (h : (machine cfg).Reachable s) {work : WorkRecord} {selection : Selection}
    (hprocess : s.process = some p) (hheld : p.scheduler.selected? = some (work, selection)) :
  selectEngine work cfg.inventory = .ok selection
  := by
  refine Machine.Reachable.invariant
    (P := fun s => ∀ p work selection, s.process = some p →
      p.scheduler.selected? = some (work, selection) →
      selectEngine work cfg.inventory = .ok selection)
    ?_ ?_ h p work selection hprocess hheld
  · intro s hinit p work selection hprocess
    rw [hinit.2.1] at hprocess
    cases hprocess
  · intro s e s' _ hselected hstep
    exact (System.step_move hstep).selected hselected

/-! ### The rows of submitted Works -/

/-- The step makes no row and accepts no `SUBMIT`. -/
def System.MakesNoRow (s s' : System) : Prop :=
  s'.history.submitted = s.history.submitted
    ∧ ∀ id, s.store.row? id = none → s'.store.row? id = none

/-- The step stores the record of a `SUBMIT`. -/
def System.Stores (s s' : System) (request : Frame) (work : WorkRecord) : Prop :=
  (∃ p c, s.process = some p ∧ p.handler = .submitStoring c work ∧ c.request = request)
    ∧ s'.history.submitted = s.history.submitted ++ [(bindText work.id, request)]
    ∧ ∀ id, s'.store.row? id
      = if id = bindText work.id then some (WorkStore.submittedRow work) else s.store.row? id

theorem TaskMove.row?_eq_none
    {store : Store} {files : Files} {t : Task} {input : TaskInput} {step : TaskStep}
    (h : TaskMove store files t input step) (id : CString) (hrow : store.row? id = none) :
  step.store.row? id = none
  := by
  cases h with
  | commit hphase hacts haccepted => exact hacts.row?_eq_none id hrow
  | settle ha hacts haccepted => exact hacts.row?_eq_none id hrow
  | _ => exact hrow

/-- Rows are made by accepted `SUBMIT`s alone. -/
theorem Move.submitted (h : Move cfg s s') :
  s.MakesNoRow s' ∨ ∃ request work, s.Stores s' request work
  := by
  have hsame : ∀ id, s.store.row? id = none → s.store.row? id = none := fun _ h => h
  cases h with
  | start hprocess hacts => exact Or.inl ⟨rfl, hacts.row?_eq_none⟩
  | gone => exact Or.inl ⟨rfl, hsame⟩
  | stop hprocess => exact Or.inl ⟨rfl, hsame⟩
  | scheduler hprocess hmove =>
      left
      cases hmove with
      | expire schedulerNow hbegun hacts =>
          exact ⟨rfl, hacts.row?_eq_none⟩
      | fail resources hbegun hacts => exact ⟨rfl, hacts.row?_eq_none⟩
      | begin hphase hrow hstart hnumber hacts => exact ⟨rfl, hacts.row?_eq_none⟩
      | lose resources hrow hstart hnumber hacts => exact ⟨rfl, hacts.row?_eq_none⟩
      | drop resources hphase hacts => exact ⟨rfl, hacts.row?_eq_none⟩
      | _ => exact ⟨rfl, hsame⟩
  | task hprocess htasks hmove htasks' hscheduler hhandler =>
      exact Or.inl ⟨rfl, hmove.row?_eq_none⟩
  | handler hprocess hmove =>
      cases hmove with
      | accept hphase hnew hchecked hview =>
          right
          refine ⟨_, _, ⟨_, _, hprocess, hphase, rfl⟩, rfl, ?_⟩
          intro id
          have hrow := congrArg WorkView.row? (hview id)
          split_ifs at hrow ⊢ <;> exact hrow
      | act ha hacts => exact Or.inl ⟨rfl, hacts.row?_eq_none⟩
      | acknowledge hphase hid hrow hstate hacts =>
          exact Or.inl ⟨rfl, hacts.row?_eq_none⟩
      | _ => exact Or.inl ⟨rfl, hsame⟩

/-- Each accepted `SUBMIT` has a row with the constants that it asked for, and each row comes
from an accepted `SUBMIT`. -/
structure System.Filed (cfg : Config) (s : System) : Prop where
  filed : ∀ id request, (id, request) ∈ s.history.submitted →
    ∃ work w, Submits cfg.dataDir request work ∧ id = bindText work.id
      ∧ s.store.row? id = some w
      ∧ (readWork w).constants = (readWork (WorkStore.submittedRow work)).constants
  origin : ∀ id w, s.store.row? id = some w → ∃ request, (id, request) ∈ s.history.submitted

theorem reachable_filed (h : (machine cfg).Reachable s) :
  s.Filed cfg
  := by
  refine Machine.Reachable.invariant (P := System.Filed cfg) ?_ ?_ h
  · rintro s ⟨hstore, -, hhistory⟩
    refine ⟨?_, ?_⟩
    · intro id request hmem
      rw [hhistory] at hmem
      cases hmem
    · intro id w hrow
      rw [hstore] at hrow
      cases hrow
  · intro s e s' hreach hfiled hstep
    have hledger := reachable_step hreach hstep
    have hkeep : ∀ id request, (id, request) ∈ s.history.submitted →
        ∃ work w, Submits cfg.dataDir request work ∧ id = bindText work.id
          ∧ s'.store.row? id = some w
          ∧ (readWork w).constants = (readWork (WorkStore.submittedRow work)).constants := by
      intro id request hmem
      obtain ⟨work, w, hsubmits, hid, hrow, hconstants⟩ := hfiled.filed id request hmem
      obtain ⟨w', hrow', hkept⟩ := hledger.kept hrow
      exact ⟨work, w', hsubmits, hid, hrow', hkept.constants.trans hconstants⟩
    rcases (System.step_move hstep).submitted with
      ⟨hsubmitted, hnone⟩ | ⟨request, work, ⟨p, c, hprocess, hphase, rfl⟩, hsubmitted, hrows⟩
    · refine ⟨by rw [hsubmitted]; exact hkeep, ?_⟩
      intro id w hrow
      cases hrow' : s.store.row? id with
      | none =>
          rw [hnone id hrow'] at hrow
          cases hrow
      | some w' =>
          rw [hsubmitted]
          exact hfiled.origin id w' hrow'
    · have hsubmits := (reachable_valid_recorded hreach).2 p c work hprocess (by rw [hphase]; rfl)
      refine ⟨?_, ?_⟩
      · intro id request hmem
        rw [hsubmitted, List.mem_append, List.mem_singleton, Prod.mk.injEq] at hmem
        rcases hmem with hmem | ⟨rfl, rfl⟩
        · exact hkeep id request hmem
        · exact ⟨work, _, hsubmits, rfl, (hrows _).trans (if_pos rfl), rfl⟩
      · intro id w hrow
        rw [hrows] at hrow
        rw [hsubmitted]
        split_ifs at hrow with hid
        · exact ⟨c.request, by simp [hid]⟩
        · obtain ⟨request, hmem⟩ := hfiled.origin id w hrow
          exact ⟨request, List.mem_append_left _ hmem⟩

end Kernel
