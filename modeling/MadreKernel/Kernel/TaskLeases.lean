import MadreKernel.Kernel.Composition
import MadreKernel.Kernel.Inputs
import MadreKernel.Pool.Programs

/-!
# The leases of the attempt tasks

What the system and the runtime keep side by side: the row of an attempt keeps the engine and the
start that the scheduler recorded, each attempt task has the lease of a worker of this engine, and
a call runs on it exactly while the task is in `execute`.
-/

/-! ### The attempt rows -/

/-- The columns of an attempt that its start sets. -/
def Attempt.Same (a a' : Attempt) : Prop :=
  a'.attemptNumber = a.attemptNumber ∧ a'.engineId = a.engineId ∧ a'.startedAtMs = a.startedAtMs

theorem Attempt.Same.refl (a : Attempt) :
  a.Same a
  := ⟨rfl, rfl, rfl⟩

namespace WorkAction

open WorkStore

/-- No action loses an attempt. -/
theorem apply_keeps_attempt (a : WorkAction) {v : WorkView} {attempt : Attempt}
    (h : attempt ∈ v.attempts) :
  ∃ later ∈ (a.apply v).attempts, attempt.Same later
  := by
  have hend : ∀ (number : Int32) (state : AttemptState) (endedAtMs : Int64) (text : CString),
      ∃ later ∈ (v.endAttempt number (endAttempt state endedAtMs text)).attempts,
        attempt.Same later := by
    intro number state endedAtMs text
    refine ⟨_, List.mem_map_of_mem h, ?_⟩
    split_ifs <;> exact ⟨rfl, rfl, rfl⟩
  have hrunning : ∀ (state : AttemptState) (cancelText failureText : CString)
      (number : Row → Int32) (nowMs : Int64),
      ∃ later ∈ (endRunning state cancelText failureText number nowMs v).attempts,
        attempt.Same later := by
    intro state cancelText failureText number nowMs
    rw [endRunning]
    split
    · exact ⟨attempt, h, .refl attempt⟩
    · split_ifs
      · exact hend _ _ _ _
      · exact ⟨attempt, h, .refl attempt⟩
  cases a with
  | start engineId modelId startedAtMs =>
      use attempt
      refine ⟨?_, .refl attempt⟩
      simp only [apply]
      split
      · exact h
      · split_ifs
        · exact List.mem_append_left _ h
        · exact h
  | finish => exact hend _ _ _ _
  | failAttempt => exact hrunning _ _ _ _ _
  | recover => exact hrunning _ _ _ _ _
  | _ => exact ⟨attempt, h, .refl attempt⟩

end WorkAction

/-- No step of the ledger loses an attempt. -/
theorem Ledger.Step.keeps_attempt
    {picked : CString → CString → CString → Prop} {s s' : Store} {owners owners' : List Owner}
    (h : Step picked s owners s' owners') {id : CString} {attempt : Attempt}
    (hmem : attempt ∈ s.attemptsOf id) :
  ∃ later ∈ s'.attemptsOf id, attempt.Same later
  := by
  have hview : ∀ {v : WorkView}, s'.view id = v → (∃ later ∈ v.attempts, attempt.Same later) →
      ∃ later ∈ s'.attemptsOf id, attempt.Same later := by
    rintro v rfl hlater
    exact hlater
  have hacts : ∀ {a : WorkAction} {j : CString}, a.ActsAt j s s' →
      ∃ later ∈ s'.attemptsOf id, attempt.Same later := by
    intro a j hacts
    apply hview (hacts id)
    split_ifs
    · exact a.apply_keeps_attempt hmem
    · exact ⟨attempt, hmem, .refl attempt⟩
  cases h with
  | pass => exact ⟨attempt, hmem, .refl attempt⟩
  | insert row hnew hchecked hstate hcount hcancel h =>
      apply hview (h id)
      split_ifs <;> exact ⟨attempt, hmem, .refl attempt⟩
  | act h => exact hacts h
  | actAll h => exact hview (h id) (WorkAction.apply_keeps_attempt _ hmem)
  | start _ _ _ h => exact hacts h
  | finish h => exact hacts h
  | recover h => exact hview (h id) (WorkAction.apply_keeps_attempt _ hmem)

namespace Kernel

open WorkStore

/-! ### Lease objects -/

namespace Runtime

/-- The event changes no lease object but others. -/
def Event.Spares (lease : Nat) : Event → Prop
  | .lease op _ => lease ∉ op.objects
  | _ => True

/-- The event is no call on the lease object, and no step of one. -/
def Event.Passes (lease : Nat) : Event → Prop
  | .call lease' _ _ _ _ => lease' ≠ lease
  | .execute lease' _ => lease' ≠ lease
  | _ => True

/-- A lease object that an event spares refers to a worker of the same engine. -/
theorem Moves.spares
    {r r' : Runtime} {e : Event} (h : Moves r e r') (hexclusive : r.Exclusive) {lease i : Nat}
    (hspares : e.Spares lease) (hlease : r.leases.get? lease = some (some i)) :
  r'.leases.get? lease = some (some i)
    ∧ (r'.pool.worker i).engineId = (r.pool.worker i).engineId
  := by
  have hi := hexclusive.constructed i (Handles.mem_owned_iff.mpr ⟨lease, hlease⟩)
  refine ⟨?_, (h.changed.later i hi).engineId⟩
  cases h with
  | operated => exact hlease
  | acquired => exact Handles.get?_give_of_get? hlease _
  | leased hfree hstep => exact Handles.step_get? hstep hspares hlease
  | released hfree hstep => exact Handles.step_get? hstep hspares hlease
  | acted => exact hlease
  | called => exact hlease
  | executed =>
      rw [progressed_leases]
      exact hlease

/-- The call on a lease object that an event passes by. -/
theorem Moves.passes
    {r r' : Runtime} {e : Event} (h : Moves r e r') {lease : Nat} (hpasses : e.Passes lease) :
  r'.calls lease = r.calls lease
  := by
  cases h with
  | called => exact Function.update_of_ne hpasses.symm _ _
  | @executed lease' i input c phase w progress =>
      have hne : lease ≠ lease' := hpasses.symm
      cases progress <;> simp [progressed, Function.update_of_ne hne]
  | _ => rfl

end Runtime

/-! ### Steps of the system and the runtime side by side -/

section

variable {cfg : Config} {launches : SortedMap Bytes WorkerLaunchSpec} {idleTimeoutMs : Int64}
  {programs : WorkerLaunchSpec → WorkerProgram} {a a' : Assembly}

namespace Assembly

/-- A step of the system without `acquire`. -/
theorem step_system
    {e : System.Event} (h : a.step cfg launches idleTimeoutMs (.system e) = some a') :
  ∃ s' runtime, a.system.step cfg e = some s' ∧ a' = moved runtime s'
    ∧ (runtime = a.runtime
      ∨ a.system.process = none
        ∧ ∃ pool, Pool.create launches idleTimeoutMs = .ok pool ∧ runtime = some (.ofPool pool))
    ∧ ∀ input, e = .scheduler input → launching? a.system = none
  := by
  cases e with
  | start nowMs faults =>
      rw [step] at h
      split at h
      next pool _ hpool =>
        obtain ⟨s', hs', rfl⟩ := Option.map_eq_some_iff.mp h
        refine ⟨s', _, hs', rfl, Or.inr ⟨?_, pool, hpool, rfl⟩, by simp⟩
        cases hprocess : a.system.process with
        | none => rfl
        | some p =>
            simp only [System.step, hprocess] at hs'
            cases hs'
      next => cases h
  | scheduler input =>
      rw [step] at h
      split_ifs at h with hlaunching
      obtain ⟨s', hs', rfl⟩ := Option.map_eq_some_iff.mp h
      exact ⟨s', a.runtime, hs', rfl, Or.inl rfl, fun _ _ => hlaunching⟩
  | crash =>
      obtain ⟨s', hs', rfl⟩ := Option.map_eq_some_iff.mp h
      exact ⟨s', a.runtime, hs', rfl, Or.inl rfl, by simp⟩
  | stop =>
      obtain ⟨s', hs', rfl⟩ := Option.map_eq_some_iff.mp h
      exact ⟨s', a.runtime, hs', rfl, Or.inl rfl, by simp⟩
  | task i input =>
      obtain ⟨s', hs', rfl⟩ := Option.map_eq_some_iff.mp h
      exact ⟨s', a.runtime, hs', rfl, Or.inl rfl, by simp⟩
  | handler input =>
      obtain ⟨s', hs', rfl⟩ := Option.map_eq_some_iff.mp h
      exact ⟨s', a.runtime, hs', rfl, Or.inl rfl, by simp⟩

/-- A step of the scheduler with `acquire`. -/
theorem step_launch
    {nowMs : Int64} {faults : List (Option Bytes)} {spawn : Spawn}
    (h : a.step cfg launches idleTimeoutMs (.launch nowMs faults spawn) = some a') :
  ∃ engineId r s', launching? a.system = some engineId ∧ a.runtime = some r
    ∧ a.system.step cfg (.scheduler ⟨nowMs, faults, (r.pool.acquire engineId spawn).1.map
      fun _ => ()⟩) = some s'
    ∧ a' = moved (some (r.acquire engineId spawn)) s'
  := by
  rw [step] at h
  split at h
  next engineId r hengine hr =>
    obtain ⟨s', hs', rfl⟩ := Option.map_eq_some_iff.mp h
    exact ⟨engineId, r, s', hengine, hr, hs', rfl⟩
  next => cases h

theorem step_runtime
    {e : Runtime.Event} (h : a.step cfg launches idleTimeoutMs (.runtime e) = some a') :
  ∃ r r', a.runtime = some r ∧ r.step e = some r' ∧ a' = ⟨a.system, some r'⟩
  := by
  have hbind : (a.runtime.bind fun r => (r.step e).map fun r =>
      ({ a with runtime := some r } : Assembly)) = some a' := by
    cases e with
    | acquire engineId spawn => cases h
    | _ => exact h
  obtain ⟨r, hr, hmap⟩ := Option.bind_eq_some_iff.mp hbind
  obtain ⟨r', hr', rfl⟩ := Option.map_eq_some_iff.mp hmap
  exact ⟨r, r', hr, hr', rfl⟩

theorem mem_moved {runtime : Option Runtime} {s : System} {r : Runtime}
    (h : r ∈ (moved runtime s).runtime) :
  r ∈ runtime
  := by
  rw [moved] at h
  split_ifs at h
  · exact h
  · cases h

/-- The ids that are drawn are new, and the workers follow their programs. -/
def Obeys (programs : WorkerLaunchSpec → WorkerProgram) (a : Assembly) : Event → Prop
  | .system e => a.system.DrawsFresh e
  | .launch _ _ _ => True
  | .runtime e => ∀ r ∈ a.runtime, r.Obeys programs e

/-- What holds of the two sides. -/
structure Sides (cfg : Config) (launches : SortedMap Bytes WorkerLaunchSpec)
    (programs : WorkerLaunchSpec → WorkerProgram) (a : Assembly) : Prop where
  holds : a.Holds cfg launches
  inputs : Inputs cfg a.system
  programmed : ∀ r ∈ a.runtime, r.Programmed programs

theorem Sides.step
    {e : Event} (h : a.Sides cfg launches programs) (hobeys : a.Obeys programs e)
    (hstep : a.step cfg launches idleTimeoutMs e = some a') :
  a'.Sides cfg launches programs
  := by
  refine ⟨h.holds.step hstep, ?_, ?_⟩
  · cases e with
    | system e =>
        obtain ⟨s', runtime, hs', rfl, -, -⟩ := step_system hstep
        exact h.inputs.step h.holds.reachable hobeys hs'
    | launch nowMs faults spawn =>
        obtain ⟨engineId, r, s', -, -, hs', rfl⟩ := step_launch hstep
        exact h.inputs.step h.holds.reachable (e := .scheduler _) trivial hs'
    | runtime e =>
        obtain ⟨r, r', -, -, rfl⟩ := step_runtime hstep
        exact h.inputs
  · intro r' hr'
    cases e with
    | system e =>
        obtain ⟨s', runtime, -, rfl, hruntime, -⟩ := step_system hstep
        have hmem := mem_moved hr'
        rcases hruntime with rfl | ⟨-, pool, hpool, rfl⟩
        · exact h.programmed r' hmem
        · cases hmem
          exact Runtime.programmed_init ⟨launches, idleTimeoutMs, pool, hpool, rfl⟩
    | launch nowMs faults spawn =>
        obtain ⟨engineId, r, s', -, hr, -, rfl⟩ := step_launch hstep
        cases mem_moved hr'
        exact (h.programmed r hr).step (e := .acquire engineId spawn) trivial rfl
    | runtime e =>
        obtain ⟨r, r₁, hr, hstep', rfl⟩ := step_runtime hstep
        cases hr'
        exact (h.programmed r hr).step (hobeys r hr) hstep'

theorem sides_init (h : a.system.Initial) (hnone : a.runtime = none) :
  a.Sides cfg launches programs
  := by
  refine ⟨?_, inputs_init h, ?_⟩
  · have hreach : (machine cfg launches 0).Reachable a := ⟨a, [], ⟨h, hnone⟩, rfl⟩
    exact reachable_holds hreach
  · intro r hr
    rw [hnone] at hr
    cases hr

end Assembly

end

/-! ### The attempt that has begun -/

/-- The attempt of a Work with a number, for an engine and a start. -/
def Started (s : Store) (id : CString) (number : Int32) (engineId : Bytes) (startedAtMs : Int64) :
    Prop :=
  ∃ a ∈ s.attemptsOf id, a.attemptNumber = number ∧ a.engineId = bindText engineId
    ∧ a.startedAtMs = startedAtMs

theorem Started.step
    {picked : CString → CString → CString → Prop} {s s' : Store} {owners owners' : List Owner}
    {id : CString} {number : Int32} {engineId : Bytes} {startedAtMs : Int64}
    (h : Started s id number engineId startedAtMs) (hstep : Ledger.Step picked s owners s' owners') :
  Started s' id number engineId startedAtMs
  := by
  obtain ⟨a, ha, rfl, hengine, rfl⟩ := h
  obtain ⟨later, hlater, hnumber, hengine', hstarted⟩ := hstep.keeps_attempt ha
  exact ⟨later, hlater, hnumber, hengine'.trans hengine, hstarted⟩

/-- The attempt that the scheduler has begun is recorded with the engine that it has selected. -/
def Begun (s : System) : Prop :=
  ∀ p work selection number startedAtMs, s.process = some p →
    p.scheduler = .launching work selection number startedAtMs →
    Started s.store (bindText work.id) number selection.engine.id startedAtMs

variable {cfg : Config} {s s' : System} {p p' : Process}

theorem Move.begun
    (h : Move cfg s s') (hbegun : Begun s)
    (hstep : Ledger.Step s.picked s.store s.owners s'.store s'.owners) :
  Begun s'
  := by
  intro p' work selection number startedAtMs hprocess' hphase'
  have hold : ∀ p, s.process = some p →
      p.scheduler = .launching work selection number startedAtMs →
      Started s'.store (bindText work.id) number selection.engine.id startedAtMs := by
    intro p hprocess hphase
    exact (hbegun p work selection number startedAtMs hprocess hphase).step hstep
  cases h with
  | start =>
      cases hprocess'
      cases hphase'
  | gone => cases hprocess'
  | stop hprocess =>
      cases hprocess'
      exact hold _ hprocess hphase'
  | scheduler hprocess hmove =>
      cases hmove with
      | gone => cases hprocess'
      | turn resources hidle =>
          cases hprocess'
          simp only at hphase'
          rw [hphase'] at hidle
          cases hidle
      | @begin store work' selection' w nowMs hphase hrow hstart hnumber hacts =>
          cases hprocess'
          cases hphase'
          have hview := (hacts (bindText work.id)).trans (if_pos rfl)
          have hrow' : (s.store.view (bindText work.id)).row? = some w := hrow
          simp only [WorkAction.apply, hrow', hstart, if_true] at hview
          refine ⟨WorkAction.startAttempt (bindText selection.engine.id)
            (bindText selection.modelId) startedAtMs w, ?_, rfl, rfl, rfl⟩
          have hattempts := congrArg WorkView.attempts hview
          change store.attemptsOf (bindText work.id) = _ at hattempts
          simp only [System.update, hattempts]
          exact List.mem_append_right _ (List.mem_singleton_self _)
      | _ =>
          cases hprocess'
          cases hphase'
  | task hprocess htasks hmove htasks' hscheduler hhandler =>
      cases hprocess'
      rw [hscheduler] at hphase'
      exact hold _ hprocess hphase'
  | handler hprocess hmove =>
      cases hmove <;>
      · cases hprocess'
        exact hold _ hprocess hphase'

theorem reachable_begun (h : (machine cfg).Reachable s) :
  Begun s
  := by
  apply h.invariant
  · rintro s hinit p work selection number startedAtMs hprocess
    rw [hinit.2.1] at hprocess
    cases hprocess
  · intro s e s' hreach hbegun hstep
    exact (System.step_move hstep).begun hbegun (reachable_step hreach hstep)

/-- Only a task accepts payloads, and only `acquire` and its task change the tasks of a process. -/
theorem step_other
    {e : System.Event} (h : s.step cfg e = some s') (hother : ∀ i input, e ≠ .task i input)
    (hlaunching : ∀ input, e = .scheduler input → Assembly.launching? s = none) :
  s'.history.accepted = s.history.accepted
    ∧ ∀ p', s'.process = some p' →
      (∃ p, s.process = some p ∧ p'.tasks = p.tasks) ∨ s.process = none ∧ p'.tasks = []
  := by
  cases hprocess : s.process with
  | none =>
      cases e with
      | start nowMs faults =>
          simp only [System.step, hprocess, Option.some.injEq, System.startStep] at h
          subst h
          split
          · refine ⟨rfl, ?_⟩
            rintro p' ⟨⟩
            exact Or.inr ⟨rfl, rfl⟩
          · refine ⟨rfl, ?_⟩
            rintro p' ⟨⟩
      | _ =>
          simp only [System.step, hprocess] at h
          cases h
  | some p =>
      cases e with
      | start nowMs faults =>
          simp only [System.step, hprocess] at h
          cases h
      | crash =>
          simp only [System.step, hprocess] at h
          cases h
          refine ⟨rfl, ?_⟩
          rintro p' ⟨⟩
      | stop =>
          simp only [System.step, hprocess] at h
          cases h
          refine ⟨rfl, ?_⟩
          rintro p' ⟨⟩
          exact Or.inl ⟨p, rfl, rfl⟩
      | scheduler input =>
          simp only [System.step, hprocess] at h
          have hmove := System.schedulerStep_move h
          cases hmove with
          | gone =>
              refine ⟨rfl, ?_⟩
              rintro p' ⟨⟩
          | launch hphase =>
              have hnone := hlaunching input rfl
              rw [Assembly.launching?, hprocess, Option.bind_some, hphase] at hnone
              cases hnone
          | _ =>
              refine ⟨rfl, ?_⟩
              rintro p' ⟨⟩
              exact Or.inl ⟨p, rfl, rfl⟩
      | task i input => exact absurd rfl (hother i input)
      | handler input =>
          simp only [System.step, hprocess] at h
          have hmove := System.handlerStep_move hprocess h
          cases hmove <;>
          · refine ⟨rfl, ?_⟩
            rintro p' ⟨⟩
            exact Or.inl ⟨p, rfl, rfl⟩

theorem submitted_mono
    {e : System.Event} (h : s.step cfg e = some s') {entry : CString × Frame}
    (hmem : entry ∈ s.history.submitted) :
  entry ∈ s'.history.submitted
  := by
  rcases (System.step_move h).submitted with ⟨hsame, -⟩ | ⟨request, work, -, hnew, -⟩
  · rw [hsame]
    exact hmem
  · rw [hnew]
    exact List.mem_append_left _ hmem

/-- What the scheduler does with the attempt that has begun. -/
theorem step_launching
    {input : SchedulerInput} (hprocess : s.process = some p) {work : WorkRecord}
    {selection : Selection} {number : Int32} {startedAtMs : Int64}
    (hphase : p.scheduler = .launching work selection number startedAtMs)
    (h : s.step cfg (.scheduler input) = some s') :
  s'.history.accepted = s.history.accepted
    ∧ ∀ p', s'.process = some p' →
      (input.launch = .ok () →
          p'.tasks = p.tasks
            ++ [⟨work, number, startedAtMs, selection.engine.resources, .starting⟩])
        ∧ ∀ text, input.launch = .error text → p'.tasks = p.tasks
  := by
  simp only [System.step, hprocess, System.schedulerStep, hphase] at h
  cases hlaunch : input.launch with
  | error text =>
      simp only [hlaunch] at h
      cases h
      rw [System.schedulerCall]
      split
      · refine ⟨rfl, ?_⟩
        rintro p' ⟨⟩
        constructor
        · intro hok
          cases hok
        · intro _ _
          rfl
      · refine ⟨rfl, ?_⟩
        rintro p' ⟨⟩
  | ok u =>
      simp only [hlaunch] at h
      cases h
      refine ⟨rfl, ?_⟩
      rintro p' ⟨⟩
      constructor
      · intro _
        rfl
      · intro text htext
        cases htext

namespace Composite

/-! ### Tasks and their leases -/

/-- A lease refers to a worker of the engine that is recorded with the attempt of a task. -/
def Refers (r : Runtime) (s : Store) (t : Task) (lease : Nat) : Prop :=
  ∃ i, r.leases.get? lease = some (some i)
    ∧ Started s (bindText t.work.id) t.attemptNumber (r.pool.worker i).engineId t.startedAtMs

/-- There is a call on the lease of a task while the task is in `execute`, with the input that the
task has read and the stop time of its Work. -/
def Calls (r : Runtime) (t : Task) (lease : Nat) : Prop :=
  match t.phase with
  | .executing input =>
      ∃ c phase, r.calls lease = some (c, phase) ∧ c.payload = input
        ∧ c.attemptStartedAtMs = t.startedAtMs ∧ c.stopAtMs = (stopTime t.work t.startedAtMs).1
  | _ => r.calls lease = none

structure Held (r : Runtime) (s : Store) (tasks : List Task) (held : List Nat) : Prop where
  length : tasks.length = held.length
  nodup : held.Nodup
  refers : ∀ (i : Nat) t lease, tasks[i]? = some t → held[i]? = some lease → Refers r s t lease

/-- The calls of the tasks, of which one may be left out. -/
def Calling (r : Runtime) (tasks : List Task) (held : List Nat) (but : Option Nat) : Prop :=
  ∀ (i : Nat) t lease, some i ≠ but → tasks[i]? = some t → held[i]? = some lease → Calls r t lease

variable {r r' : Runtime} {store store' : Store} {tasks : List Task} {held : List Nat}
  {but : Option Nat} {i lease : Nat} {t : Task}

theorem Held.empty :
  Held r store [] []
  := ⟨rfl, List.nodup_nil, fun i t lease ht => by cases ht⟩

theorem Calling.empty :
  Calling r [] [] but
  := fun i t lease _ ht => by cases ht

/-- The lease of another task is another one. -/
theorem Held.ne (h : Held r store tasks held) {j lease' : Nat} (hi : held[i]? = some lease)
    (hj : held[j]? = some lease') (hne : j ≠ i) :
  lease' ≠ lease
  := by
  rintro rfl
  have hlt := (List.getElem?_eq_some_iff.mp hj).1
  exact hne ((List.getElem?_inj hlt h.nodup).mp (hj.trans hi.symm))

/-- The runtime moves and spares the leases of the tasks. -/
theorem Held.runtime
    {e : Runtime.Event} (h : Held r store tasks held) (hexclusive : r.Exclusive)
    (hmoves : Runtime.Moves r e r') (hspares : ∀ lease ∈ held, e.Spares lease) :
  Held r' store tasks held
  := by
  refine ⟨h.length, h.nodup, ?_⟩
  intro i t lease ht hlease
  obtain ⟨w, hget, hstarted⟩ := h.refers i t lease ht hlease
  obtain ⟨hget', hengine⟩ :=
    hmoves.spares hexclusive (hspares lease (List.mem_of_getElem? hlease)) hget
  exact ⟨w, hget', by rw [hengine]; exact hstarted⟩

/-- The runtime moves and passes the calls of the tasks by. -/
theorem Calling.runtime
    {e : Runtime.Event} (h : Calling r tasks held but) (hmoves : Runtime.Moves r e r')
    (hpasses : ∀ (i : Nat) lease, some i ≠ but → held[i]? = some lease → e.Passes lease) :
  Calling r' tasks held but
  := by
  intro i t lease hi ht hlease
  have hcalls := h i t lease hi ht hlease
  rw [Calls, hmoves.passes (hpasses i lease hi hlease)]
  exact hcalls

/-- The database moves. -/
theorem Held.stored
    {picked : CString → CString → CString → Prop} {owners owners' : List Owner}
    (h : Held r store tasks held) (hstep : Ledger.Step picked store owners store' owners') :
  Held r store' tasks held
  := by
  refine ⟨h.length, h.nodup, ?_⟩
  intro i t lease ht hlease
  obtain ⟨w, hget, hstarted⟩ := h.refers i t lease ht hlease
  exact ⟨w, hget, hstarted.step hstep⟩

/-- A task goes on. -/
theorem Held.goesOn
    (h : Held r store tasks held) (ht : tasks[i]? = some t) (phase : TaskPhase) :
  Held r store (tasks.set i { t with phase }) held
  := by
  refine ⟨by rw [List.length_set, h.length], h.nodup, ?_⟩
  intro j t' lease ht' hlease
  by_cases hij : i = j
  · subst hij
    have hlt := (List.getElem?_eq_some_iff.mp ht).1
    rw [List.getElem?_set_self hlt] at ht'
    cases ht'
    exact h.refers i t lease ht hlease
  · rw [List.getElem?_set_ne hij] at ht'
    exact h.refers j t' lease ht' hlease

theorem Calling.goesOn
    (h : Calling r tasks held (some i)) (ht : tasks[i]? = some t) {phase : TaskPhase}
    (hcalls : ∀ lease, held[i]? = some lease → Calls r { t with phase } lease) :
  Calling r (tasks.set i { t with phase }) held none
  := by
  intro j t' lease _ ht' hlease
  by_cases hij : i = j
  · subst hij
    have hlt := (List.getElem?_eq_some_iff.mp ht).1
    rw [List.getElem?_set_self hlt] at ht'
    cases ht'
    exact hcalls lease hlease
  · rw [List.getElem?_set_ne hij] at ht'
    exact h j t' lease (by simp [Ne.symm hij]) ht' hlease

/-- The place of an item of a list from which one is taken. -/
theorem getElem?_eraseIdx_source {α : Type} (l : List α) (i j : Nat) :
  (l.eraseIdx i)[j]? = l[if j < i then j else j + 1]?
  := by
  rw [List.getElem?_eraseIdx]
  split_ifs <;> rfl

/-- The lease at a place is not among the others. -/
theorem ne_of_mem_eraseIdx
    (hnodup : held.Nodup) (hlease : held[i]? = some lease) {lease' : Nat}
    (hmem : lease' ∈ held.eraseIdx i) :
  lease' ≠ lease
  := by
  rintro rfl
  obtain ⟨j, hj⟩ := List.getElem?_of_mem hmem
  rw [getElem?_eraseIdx_source] at hj
  have hlt := (List.getElem?_eq_some_iff.mp hlease).1
  have hplace := (List.getElem?_inj hlt hnodup).mp (hlease.trans hj.symm)
  split_ifs at hplace <;> omega

/-- A task ends. -/
theorem Held.ends (h : Held r store tasks held) (hi : i < tasks.length) :
  Held r store (tasks.eraseIdx i) (held.eraseIdx i)
  := by
  refine ⟨?_, h.nodup.sublist (List.eraseIdx_sublist ..), ?_⟩
  · rw [List.length_eraseIdx_of_lt hi, List.length_eraseIdx_of_lt (by rw [← h.length]; exact hi),
      h.length]
  · intro j t lease ht hlease
    rw [getElem?_eraseIdx_source] at ht hlease
    exact h.refers _ t lease ht hlease

theorem Calling.ends (h : Calling r tasks held (some i)) :
  Calling r (tasks.eraseIdx i) (held.eraseIdx i) none
  := by
  intro j t lease _ ht hlease
  rw [getElem?_eraseIdx_source] at ht hlease
  apply h _ t lease _ ht hlease
  split_ifs
  · simp
    omega
  · simp
    omega

/-- A task starts. -/
theorem Held.starts
    (h : Held r store tasks held) (hrefers : Refers r store t lease) (hnew : lease ∉ held) :
  Held r store (tasks ++ [t]) (held ++ [lease])
  := by
  refine ⟨by simp [h.length], ?_, ?_⟩
  · rw [← List.concat_eq_append]
    exact h.nodup.concat hnew
  · intro j t' lease' ht' hlease'
    by_cases hj : j < tasks.length
    · rw [List.getElem?_append_left hj] at ht'
      rw [List.getElem?_append_left (by rw [← h.length]; exact hj)] at hlease'
      exact h.refers j t' lease' ht' hlease'
    · have hlength := (List.getElem?_eq_some_iff.mp ht').1
      rw [List.length_append, List.length_singleton] at hlength
      obtain rfl : j = tasks.length := by omega
      rw [List.getElem?_concat_length] at ht'
      rw [h.length, List.getElem?_concat_length] at hlease'
      cases ht'
      cases hlease'
      exact hrefers

theorem Calling.starts
    (h : Calling r tasks held none) (hlength : tasks.length = held.length)
    (hcalls : Calls r t lease) :
  Calling r (tasks ++ [t]) (held ++ [lease]) none
  := by
  intro j t' lease' _ ht' hlease'
  by_cases hj : j < tasks.length
  · rw [List.getElem?_append_left hj] at ht'
    rw [List.getElem?_append_left (by rw [← hlength]; exact hj)] at hlease'
    exact h j t' lease' (by simp) ht' hlease'
  · have hlt := (List.getElem?_eq_some_iff.mp ht').1
    rw [List.length_append, List.length_singleton] at hlt
    obtain rfl : j = tasks.length := by omega
    rw [List.getElem?_concat_length] at ht'
    rw [hlength, List.getElem?_concat_length] at hlease'
    cases ht'
    cases hlease'
    exact hcalls

end Composite

end Kernel
