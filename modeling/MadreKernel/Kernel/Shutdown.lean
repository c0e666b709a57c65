import MadreKernel.Kernel.Interruption

/-!
# Stopping the Kernel

The destructor of the Kernel asks its threads to stop and waits for them: for the scheduler, and for
each attempt task.  Then it shuts the worker pool down.  No thread of a Kernel that stops has more
than a few steps left, whatever the workers and the clients do, and until all of them have ended, one
of them can make its next step.  The shutdown that follows leaves no process of a worker.
-/

namespace Kernel

open WorkStore

/-! ### What the scheduler and the handler have left to do -/

/-- The steps that the scheduler has left at most once the Kernel stops, those of the task that it
may yet start included. -/
def SchedulerPhase.remaining : SchedulerPhase → Nat
  | .sweeping => 1
  | .picking _ => 17
  | .dispatching _ _ => 16
  | .reserved _ _ => 15
  | .launching _ _ _ _ => 14
  | .left => 0

/-- The steps that the handler has left at most before it is idle. -/
def HandlerPhase.remaining : HandlerPhase → Nat
  | .idle => 0
  | .submitWriting _ _ => 3
  | .submitRenaming _ _ => 2
  | .submitStoring _ _ => 1
  | .resultFound _ _ => 1
  | .acknowledgeFound _ _ => 3
  | .removingInput _ _ => 2
  | .removingResult _ _ => 1

/-- The steps that the scheduler and the handler have left at most once the Kernel stops. -/
def Process.remaining (p : Process) : Nat := p.scheduler.remaining + p.handler.remaining

theorem Process.remaining_le (p : Process) :
  p.remaining ≤ 20
  := by
  have hscheduler : p.scheduler.remaining ≤ 17 := by
    cases p.scheduler <;> simp [SchedulerPhase.remaining]
  have hhandler : p.handler.remaining ≤ 3 := by
    cases p.handler <;> simp [HandlerPhase.remaining]
  rw [remaining]
  omega

namespace System

variable {cfg : Config} {s s' : System} {p p' : Process}

/-- A whole step of the scheduler or of the handler. -/
def Event.ofThreads : Event → Bool
  | .scheduler _ => true
  | .handler (.write _) => false
  | .handler _ => true
  | _ => false

/-- The process that is left by a store call of the scheduler. -/
theorem process_schedulerCall
    {α : Type} {program : StoreProgram α} {faults : List (Option Bytes)} {next : α → Process}
    (h : (s.schedulerCall program faults next).process = some p') :
  ∃ a, p' = next a
  := by
  rw [schedulerCall] at h
  split at h
  next a store heq =>
    cases h
    exact ⟨a, rfl⟩
  next e store heq => cases h

/-- Each step of the scheduler takes it nearer to its end, once the Kernel stops. -/
theorem schedulerStep_remaining
    {input : SchedulerInput} (h : s.schedulerStep cfg p input = some s') (hstop : p.stop = true)
    (hprocess' : s'.process = some p') :
  p'.scheduler.remaining + 12 * (p'.tasks.length - p.tasks.length) + 1 ≤ p.scheduler.remaining
    ∧ p'.handler = p.handler
  := by
  rw [schedulerStep.eq_def] at h
  cases hphase : p.scheduler with
  | sweeping =>
      simp only [hphase, hstop, if_true] at h
      cases h
      cases hprocess'
      simp [SchedulerPhase.remaining]
  | picking schedulerNow =>
      simp only [hphase] at h
      cases h
      obtain ⟨found, rfl⟩ := process_schedulerCall hprocess'
      cases found <;> simp [SchedulerPhase.remaining]
  | dispatching schedulerNow work =>
      have hcall : ∀ {program : StoreProgram Unit} {p₁ : Process},
          (s.schedulerCall program input.faults fun _ =>
            { p with scheduler := .sweeping }).process = some p₁ →
          p₁.scheduler.remaining + 12 * (p₁.tasks.length - p.tasks.length) + 1 ≤ 16
            ∧ p₁.handler = p.handler := by
        intro program p₁ h
        obtain ⟨a, rfl⟩ := process_schedulerCall h
        simp [SchedulerPhase.remaining]
      simp only [hphase] at h
      change _ ≤ 16 ∧ _
      split_ifs at h
      · cases h
        exact hcall hprocess'
      · split at h
        next failure hselect =>
          cases h
          exact hcall hprocess'
        next selection hselect =>
          split at h
          next e hever =>
            cases h
            cases hprocess'
          next hever =>
            cases h
            exact hcall hprocess'
          next hever =>
            split at h
            next e htry =>
              cases h
              cases hprocess'
            next resources htry =>
              cases h
              cases hprocess'
              simp [SchedulerPhase.remaining]
            next resources htry =>
              cases h
              cases hprocess'
              simp [SchedulerPhase.remaining]
  | reserved work selection =>
      simp only [hphase] at h
      split_ifs at h
      · cases h
        obtain ⟨a, rfl⟩ := process_schedulerCall hprocess'
        simp [SchedulerPhase.remaining]
      · cases h
        obtain ⟨number, rfl⟩ := process_schedulerCall hprocess'
        split_ifs <;> simp [SchedulerPhase.remaining]
  | launching work selection number startedAtMs =>
      simp only [hphase] at h
      split at h
      next text hlaunch =>
        cases h
        obtain ⟨a, rfl⟩ := process_schedulerCall hprocess'
        simp [SchedulerPhase.remaining]
      next u hlaunch =>
        cases h
        cases hprocess'
        simp [SchedulerPhase.remaining]
  | left =>
      simp only [hphase] at h
      cases h

theorem schedulerStep_remaining_pos
    {input : SchedulerInput} (h : s.schedulerStep cfg p input = some s') :
  0 < p.scheduler.remaining
  := by
  cases hphase : p.scheduler with
  | left =>
      simp only [schedulerStep, hphase] at h
      cases h
  | _ => simp [SchedulerPhase.remaining]

/-- Each step of the handler takes it nearer to its end, and it leaves the other threads. -/
theorem handlerStep_remaining
    {input : HandlerInput} (h : s.handlerStep cfg p input = some s') (hprocess : s.process = some p)
    (hstop : p.stop = true) :
  ∃ handler, s'.process = some { p with handler }
    ∧ handler.remaining + (Event.handler input).ofThreads.toNat ≤ p.handler.remaining
  := by
  cases input with
  | request c nowMs draws faults =>
      rw [handlerStep] at h
      split at h
      · rw [if_pos hstop] at h
        cases h
      · cases h
  | write count =>
      rw [handlerStep] at h
      split at h
      · cases h
        exact ⟨p.handler, hprocess, le_rfl⟩
      · cases h
  | proceed faults =>
      change proceed s p faults = some s' at h
      rw [proceed.eq_def] at h
      change ∃ handler, _ ∧ _ + 1 ≤ _
      split at h
      case h_1 => cases h
      case h_2 c work hphase =>
        cases h
        rw [hphase]
        exact ⟨_, rfl, le_rfl⟩
      case h_3 c work hphase =>
        obtain ⟨files, -, rfl⟩ := Option.map_eq_some_iff.mp h
        rw [hphase]
        exact ⟨_, rfl, le_rfl⟩
      case h_4 c work hphase =>
        rw [hphase]
        split at h <;> cases h <;> exact ⟨_, rfl, le_rfl⟩
      case h_5 c work hphase =>
        rw [hphase]
        split at h <;> cases h <;> exact ⟨_, rfl, le_rfl⟩
      case h_6 c work hphase =>
        rw [hphase]
        split at h
        · cases h
          exact ⟨_, rfl, by simp [HandlerPhase.remaining]⟩
        · split at h <;> cases h <;> exact ⟨_, rfl, by simp [HandlerPhase.remaining]⟩
      case h_7 c work hphase =>
        cases h
        rw [hphase]
        exact ⟨_, rfl, le_rfl⟩
      case h_8 c work hphase =>
        cases h
        rw [hphase]
        exact ⟨_, rfl, le_rfl⟩
  | throw text =>
      rw [handlerStep] at h
      change ∃ handler, _ ∧ _ + 1 ≤ _
      split at h
      next c work hphase =>
        cases h
        rw [hphase]
        exact ⟨_, rfl, by simp [HandlerPhase.remaining]⟩
      next c work hphase =>
        cases h
        rw [hphase]
        exact ⟨_, rfl, by simp [HandlerPhase.remaining]⟩
      next c work hphase =>
        cases h
        rw [hphase]
        exact ⟨_, rfl, le_rfl⟩
      next c work hphase =>
        cases h
        rw [hphase]
        exact ⟨_, rfl, le_rfl⟩
      next => cases h

/-- What a step takes from what the scheduler and the handler have left, once the Kernel stops. -/
theorem step_remaining
    {e : Event} (h : s.step cfg e = some s') (hprocess : s.process = some p)
    (hstop : p.stop = true) :
  e.ofThreads.toNat ≤ p.remaining
    ∧ ∀ p', s'.process = some p' →
      p'.remaining + 12 * (p'.tasks.length - p.tasks.length) + e.ofThreads.toNat ≤ p.remaining
  := by
  cases e with
  | start nowMs faults =>
      simp only [step, hprocess] at h
      cases h
  | crash =>
      simp only [step, hprocess] at h
      cases h
      refine ⟨Nat.zero_le _, ?_⟩
      rintro p' ⟨⟩
  | stop =>
      simp only [step, hprocess] at h
      cases h
      refine ⟨Nat.zero_le _, ?_⟩
      rintro p' ⟨⟩
      simp [Process.remaining, Event.ofThreads]
  | scheduler input =>
      simp only [step, hprocess] at h
      have hpos := schedulerStep_remaining_pos h
      constructor
      · change 1 ≤ p.scheduler.remaining + p.handler.remaining
        omega
      · intro p' hprocess'
        obtain ⟨hle, hhandler⟩ := schedulerStep_remaining h hstop hprocess'
        change _ + 1 ≤ _
        rw [Process.remaining, Process.remaining, hhandler]
        omega
  | task i input =>
      simp only [step, hprocess, attemptStep] at h
      refine ⟨Nat.zero_le _, ?_⟩
      intro p' hprocess'
      split at h
      · cases h
      · obtain ⟨moved, -, rfl⟩ := Option.map_eq_some_iff.mp h
        cases hprocess'
        cases hnext : moved.next with
        | none =>
            have hle := List.length_eraseIdx_le p.tasks i
            simp only [nextTasks, Process.remaining, Event.ofThreads, Bool.toNat_false]
            omega
        | some phase => simp [nextTasks, Process.remaining, Event.ofThreads]
  | handler input =>
      simp only [step, hprocess] at h
      obtain ⟨handler, hnext, hle⟩ := handlerStep_remaining h hprocess hstop
      constructor
      · rw [Process.remaining]
        omega
      · intro p' hprocess'
        cases hnext.symm.trans hprocess'
        simp only [Process.remaining]
        omega

/-! ### Neither waits for another thread -/

/-- The scheduler can make its next step. -/
theorem exists_schedulerStep (s : System) (h : p.scheduler ≠ .left) (input : SchedulerInput) :
  ∃ s', s.schedulerStep cfg p input = some s'
  := by
  rw [schedulerStep.eq_def]
  cases hphase : p.scheduler with
  | left => exact absurd hphase h
  | sweeping =>
      simp only
      split_ifs <;> exact ⟨_, rfl⟩
  | picking schedulerNow => exact ⟨_, rfl⟩
  | dispatching schedulerNow work =>
      simp only
      split_ifs
      · exact ⟨_, rfl⟩
      · split
        · exact ⟨_, rfl⟩
        · split
          · exact ⟨_, rfl⟩
          · exact ⟨_, rfl⟩
          · split <;> exact ⟨_, rfl⟩
  | reserved work selection =>
      simp only
      split_ifs <;> exact ⟨_, rfl⟩
  | launching work selection number startedAtMs =>
      simp only
      split <;> exact ⟨_, rfl⟩

/-- The handler can make its next step. -/
theorem exists_handlerStep (s : System) (h : p.handler ≠ .idle) :
  ∃ input s', (Event.handler input).ofThreads = true ∧ s.handlerStep cfg p input = some s'
  := by
  cases hphase : p.handler with
  | idle => exact absurd hphase h
  | submitRenaming c work =>
      exact ⟨.throw [], _, rfl, by rw [handlerStep, hphase]⟩
  | submitWriting c work =>
      exact ⟨.proceed [], _, rfl, by rw [handlerStep, proceed, hphase]⟩
  | submitStoring c work =>
      refine ⟨.proceed [], ?_⟩
      simp only [handlerStep, proceed, hphase]
      split <;> exact ⟨_, rfl, rfl⟩
  | resultFound c work =>
      refine ⟨.proceed [], ?_⟩
      simp only [handlerStep, proceed, hphase]
      split <;> exact ⟨_, rfl, rfl⟩
  | acknowledgeFound c work =>
      refine ⟨.proceed [], ?_⟩
      simp only [handlerStep, proceed, hphase]
      split
      · exact ⟨_, rfl, rfl⟩
      · split <;> exact ⟨_, rfl, rfl⟩
  | removingInput c work =>
      exact ⟨.proceed [], _, rfl, by rw [handlerStep, proceed, hphase]⟩
  | removingResult c work =>
      exact ⟨.proceed [], _, rfl, by rw [handlerStep, proceed, hphase]⟩

end System

namespace Composite

variable {cfg : Config} {launches : SortedMap Bytes WorkerLaunchSpec} {idleTimeoutMs : Int64}
  {c c' : Composite} {p : Process} {i : Nat}

/-! ### What all the threads have left to do -/

/-- A whole step of the scheduler, of the handler or of a task. -/
def Event.ofThreads (e : Event) : Bool :=
  e.whole && match e with
    | .system e => e.ofThreads
    | .runtime _ => false
    | _ => true

/-- The steps that the threads have left at most once the Kernel stops. -/
def threadsLeft (c : Composite) : Nat :=
  c.assembly.system.process.elim 0 Process.remaining + c.leftOf fun _ => true

theorem follow_system
    {a : Assembly} {held : List Nat} {lease : Nat} {t : Task} {releasedAtMs : Int64}
    {next : Option TaskPhase}
    (h : follow cfg launches idleTimeoutMs a held i lease t releasedAtMs next = some c') :
  c'.assembly.system = a.system
  := by
  rw [follow.eq_def] at h
  split at h
  · obtain ⟨a', ha', rfl⟩ := Option.map_eq_some_iff.mp h
    obtain ⟨r, r', -, -, rfl⟩ := Assembly.step_runtime ha'
    rfl
  · obtain ⟨a', ha', rfl⟩ := Option.map_eq_some_iff.mp h
    obtain ⟨r, r', -, -, rfl⟩ := Assembly.step_runtime ha'
    rfl
  · cases h
    rfl

theorem moveTask_system
    {input : TaskInput} {releasedAtMs : Int64}
    (h : moveTask cfg launches idleTimeoutMs c i input releasedAtMs = some c') :
  c.assembly.system.step cfg (.task i input) = some c'.assembly.system
  := by
  obtain ⟨⟨p, t, lease⟩, -, h⟩ := Option.bind_eq_some_iff.mp h
  obtain ⟨moved, -, h⟩ := Option.bind_eq_some_iff.mp h
  obtain ⟨a, ha, h⟩ := Option.bind_eq_some_iff.mp h
  obtain ⟨s', runtime, hs', rfl, -⟩ := Assembly.step_system ha
  rw [follow_system h]
  exact hs'

theorem moveCall_system
    {input : Input} {releasedAtMs : Int64}
    (h : moveCall cfg launches idleTimeoutMs c i input releasedAtMs = some c') :
  c'.assembly.system = c.assembly.system
    ∨ ∃ input, c.assembly.system.step cfg (.task i input) = some c'.assembly.system
  := by
  obtain ⟨⟨p, t, lease⟩, -, h⟩ := Option.bind_eq_some_iff.mp h
  obtain ⟨r, -, h⟩ := Option.bind_eq_some_iff.mp h
  obtain ⟨progress, -, h⟩ := Option.bind_eq_some_iff.mp h
  obtain ⟨a, ha, h⟩ := Option.bind_eq_some_iff.mp h
  obtain ⟨r₁, r₂, -, -, rfl⟩ := Assembly.step_runtime ha
  cases progress with
  | goesOn phase =>
      cases h
      exact Or.inl rfl
  | returned outcome =>
      exact Or.inr ⟨_, moveTask_system (c := ⟨⟨c.assembly.system, some r₂⟩, c.held⟩) h⟩
  | threw what =>
      exact Or.inr ⟨_, moveTask_system (c := ⟨⟨c.assembly.system, some r₂⟩, c.held⟩) h⟩

/-- A step leaves the system as it is, or makes a step of it, by the thread whose step it is. -/
theorem Steps.system_step
    {e : Event} (h : Steps cfg launches idleTimeoutMs c e c') :
  (c'.assembly.system = c.assembly.system ∧ (e.ofThreads = true → e.place ≠ none))
    ∨ ∃ e', c.assembly.system.step cfg e' = some c'.assembly.system
      ∧ (e.place = none → e.ofThreads = e'.ofThreads)
  := by
  cases h with
  | system hother ha =>
      obtain ⟨s', runtime, hs', rfl, -⟩ := Assembly.step_system ha
      exact Or.inr ⟨_, hs', fun _ => rfl⟩
  | launch ha =>
      obtain ⟨engineId, r, s', -, -, hs', rfl⟩ := Assembly.step_launch ha
      exact Or.inr ⟨_, hs', fun _ => rfl⟩
  | task htask hphase hmove => exact Or.inr ⟨_, moveTask_system hmove, fun h => absurd h (Option.some_ne_none _)⟩
  | ask htask hmove =>
      rcases moveCall_system hmove with hsame | ⟨input, hs'⟩
      · exact Or.inl ⟨hsame, fun _ => Option.some_ne_none _⟩
      · exact Or.inr ⟨_, hs', fun h => absurd h (Option.some_ne_none _)⟩
  | execute hinput hmove =>
      rcases moveCall_system hmove with hsame | ⟨input, hs'⟩
      · exact Or.inl ⟨hsame, fun _ => Option.some_ne_none _⟩
      · exact Or.inr ⟨_, hs', fun h => absurd h (Option.some_ne_none _)⟩
  | runtime houtside ha =>
      obtain ⟨r, r', -, -, rfl⟩ := Assembly.step_runtime ha
      left
      use rfl
      rintro ⟨⟩

/-- Each whole step of a task counts. -/
theorem Steps.counts
    {e : Event} (h : Steps cfg launches idleTimeoutMs c e c') (hofThreads : e.ofThreads = true)
    (hplace : e.place ≠ none) :
  c.counts (fun _ => true) e = true
  := by
  have hlease : ∀ {i : Nat} {q : Process × Task × Nat}, c.task? i = some q →
      ((c.held[i]?).any fun _ => true) = true := by
    rintro i ⟨p, t, lease⟩ htask
    rw [(task?_eq_some htask).2.2]
    rfl
  rw [Composite.counts, (Bool.and_eq_true_iff.mp hofThreads).1, Bool.true_and]
  cases h with
  | task htask hphase hmove => exact hlease htask
  | ask htask hmove => exact hlease htask
  | execute hinput hmove =>
      obtain ⟨q, htask, -⟩ := Option.bind_eq_some_iff.mp hmove
      exact hlease htask
  | _ => exact absurd rfl hplace

/-- The Kernel stops, or its process is gone. -/
def Stopping (c : Composite) : Prop := ∀ p ∈ c.assembly.system.process, p.stop = true

/-- No process starts. -/
def NoStart (_ : Composite) : Event → Prop
  | .system (.start _ _) => False
  | _ => True

/-- A Kernel that stops has fewer steps left after each step of its threads. -/
theorem threadsLeft_step
    (hreach : (machine cfg launches idleTimeoutMs).Reachable c) (hstopping : c.Stopping) {e : Event}
    (hstart : NoStart c e) (hstep : c.step cfg launches idleTimeoutMs e = some c') :
  c'.Stopping ∧ e.ofThreads.toNat + c'.threadsLeft ≤ c.threadsLeft
  := by
  have hsteps := step_steps hstep
  have hne : ∀ nowMs faults, e ≠ .system (.start nowMs faults) := by
    rintro nowMs faults rfl
    exact hstart
  obtain ⟨p, r, hprocess, hruntime⟩ := hsteps.exists_process (reachable_assembly hreach) hne
  have hstop := hstopping p hprocess
  obtain ⟨r₀, hr₀, hleft⟩ : ∃ r, c.assembly.runtime = some r
      ∧ c'.leftOf (fun _ => true) + (c.counts (fun _ => true) e).toNat ≤ c.leftOf (fun _ => true)
        + 1 * (12 * (c'.taskCount - c.taskCount)) := by
    apply leftOf_step hreach hstep hne
    intro i lease hplace hlease _
    cases e with
    | ask j nowMs faults releasedAtMs =>
        intro p' t lease' htask
        obtain ⟨hprocess', -⟩ := task?_eq_some htask
        exact Or.inl (hstopping p' hprocess')
    | _ => trivial
  have hcounts : e.place ≠ none → e.ofThreads.toNat ≤ (c.counts (fun _ => true) e).toNat := by
    intro hplace
    cases hofThreads : e.ofThreads with
    | false => exact Nat.zero_le _
    | true => rw [hsteps.counts hofThreads hplace]
  have hleft₀ : c.threadsLeft = p.remaining + c.leftOf fun _ => true := by
    rw [threadsLeft, hprocess, Option.elim_some]
  rw [hleft₀]
  rcases hsteps.system_step with ⟨hsame, hplace⟩ | ⟨e', hs', hplace⟩
  · have hcount : c'.taskCount = c.taskCount := by
      rw [taskCount, taskCount, hsame]
    constructor
    · intro p' hprocess'
      rw [hsame] at hprocess'
      exact hstopping p' hprocess'
    · have hofThreads : e.ofThreads.toNat ≤ (c.counts (fun _ => true) e).toNat := by
        cases hofThreads : e.ofThreads with
        | false => exact Nat.zero_le _
        | true =>
            have hle := hcounts (hplace hofThreads)
            rwa [hofThreads] at hle
      rw [threadsLeft, hsame, hprocess, Option.elim_some]
      omega
  · obtain ⟨hgone, hgoesOn⟩ := System.step_remaining hs' hprocess hstop
    cases hprocess' : c'.assembly.system.process with
    | none =>
        constructor
        · intro p' hp'
          rw [hprocess'] at hp'
          cases hp'
        · rw [threadsLeft, leftOf, hprocess', hplace (hsteps.place_of_gone (reachable_leased hreach)
            hruntime hprocess')]
          simp only [Option.elim_none]
          omega
    | some p' =>
        constructor
        · intro p₁ hp₁
          cases hprocess'.symm.trans hp₁
          exact System.step_stop hs' hprocess hprocess' hstop
        · have hle := hgoesOn p' hprocess'
          rw [taskCount, taskCount, hprocess, hprocess', Option.elim_some, Option.elim_some] at hleft
          rw [threadsLeft, hprocess', Option.elim_some]
          by_cases hnone : e.place = none
          · rw [hplace hnone]
            omega
          · have hlower := hcounts hnone
            omega

theorem noStart_of_ofThreads (c : Composite) {e : Event} (h : e.ofThreads = true) :
  NoStart c e
  := by
  cases e with
  | system e =>
      cases e with
      | start nowMs faults => cases h
      | _ => trivial
  | _ => trivial

theorem left_le (chosen : Nat → Bool) (tasks : List Task) (held : List Nat) (r : Runtime) :
  left chosen tasks held r ≤ 13 * tasks.length
  := by
  induction tasks generalizing held with
  | nil => simp [left]
  | cons t tasks ih =>
      cases held with
      | nil => simp [left]
      | cons lease held =>
          have hle : weight chosen r t lease ≤ 13 := by
            rw [weight]
            split_ifs
            · apply TaskPhase.remaining_le
            · exact Nat.zero_le _
          have hrest := ih held
          simp only [left, List.zipWith_cons_cons, List.sum_cons, List.length_cons] at hrest ⊢
          omega

theorem threadsLeft_le
    (hreach : (machine cfg launches idleTimeoutMs).Reachable c)
    (hprocess : c.assembly.system.process = some p) :
  c.threadsLeft ≤ 20 + 13 * p.tasks.length
  := by
  obtain ⟨r, hruntime⟩ := exists_runtime (reachable_assembly hreach) hprocess
  have hthreads := p.remaining_le
  have htasks := left_le (fun _ => true) p.tasks c.held r
  rw [threadsLeft, hprocess, Option.elim_some, leftOf_eq hprocess hruntime]
  omega

/-! ### Until all threads have ended, one can go on -/

/-- The scheduler has left its loop, the handler is idle, and there is no task. -/
def Ended (c : Composite) : Prop :=
  ∀ p ∈ c.assembly.system.process, p.scheduler = .left ∧ p.handler = .idle ∧ p.tasks = []

/-- The scheduler can make its next step: when it calls `acquire`, the worker may fail to start. -/
theorem exists_step_of_scheduler
    (hreach : (machine cfg launches idleTimeoutMs).Reachable c)
    (hprocess : c.assembly.system.process = some p) (hphase : p.scheduler ≠ .left) :
  ∃ e c', e.ofThreads = true ∧ c.step cfg launches idleTimeoutMs e = some c'
  := by
  have hstep : ∀ input, ∃ s', c.assembly.system.step cfg (.scheduler input) = some s' := by
    intro input
    simp only [System.step, hprocess]
    exact System.exists_schedulerStep _ hphase input
  cases hlaunching : Assembly.launching? c.assembly.system with
  | none =>
      obtain ⟨s', hs'⟩ := hstep ⟨0, [], .ok ()⟩
      use .system (.scheduler ⟨0, [], .ok ()⟩)
      simp [step, Assembly.step, hlaunching, hs', Event.ofThreads, Event.whole,
        System.Event.ofThreads]
  | some engineId =>
      obtain ⟨r, hruntime⟩ := exists_runtime (reachable_assembly hreach) hprocess
      obtain ⟨s', hs'⟩ := hstep ⟨0, [], (r.pool.acquire engineId (.failed [])).1.map fun _ => ()⟩
      use .launch 0 [] (.failed [])
      simp [step, Assembly.step, hlaunching, hruntime, hs', Event.ofThreads, Event.whole]

theorem exists_step_of_threads
    (hreach : (machine cfg launches idleTimeoutMs).Reachable c) (h : ¬ c.Ended) :
  ∃ e c', e.ofThreads = true ∧ c.step cfg launches idleTimeoutMs e = some c'
  := by
  obtain ⟨p, hprocess, h⟩ : ∃ p, c.assembly.system.process = some p
      ∧ ¬ (p.scheduler = .left ∧ p.handler = .idle ∧ p.tasks = []) := by
    simpa [Ended] using h
  by_cases hscheduler : p.scheduler = .left
  · by_cases hhandler : p.handler = .idle
    · have htasks : p.tasks ≠ [] := fun htasks => h ⟨hscheduler, hhandler, htasks⟩
      obtain ⟨r, hruntime⟩ := exists_runtime (reachable_assembly hreach) hprocess
      obtain ⟨hheld, -⟩ := (reachable_leased hreach).held p r hprocess hruntime
      obtain ⟨lease, held, hcons⟩ : ∃ lease held, c.held = lease :: held := by
        apply List.exists_cons_of_ne_nil
        rw [← List.length_pos_iff, ← hheld.length, List.length_pos_iff]
        exact htasks
      have hmem : lease ∈ c.held := by simp [hcons]
      obtain ⟨i, p', t, r', htask, -⟩ := exists_task_of_mem hreach hmem
      obtain ⟨e, c', hplace, hwhole, -, hstep⟩ := exists_step_of_task hreach htask 0
      refine ⟨e, c', ?_, hstep⟩
      cases e <;> simp_all [Event.ofThreads, Event.place]
    · obtain ⟨input, s', hofThreads, hs'⟩ : ∃ input s',
          (System.Event.handler input).ofThreads = true
            ∧ c.assembly.system.handlerStep cfg p input = some s' :=
        System.exists_handlerStep c.assembly.system hhandler
      use .system (.handler input)
      simp [step, Assembly.step, System.step, hprocess, hs', Event.ofThreads, Event.whole, hofThreads]
  · exact exists_step_of_scheduler hreach hprocess hscheduler

/-- Then the pool is shut down, and no worker has a process any more. -/
theorem exists_shutdown
    (hreach : (machine cfg launches idleTimeoutMs).Reachable c) (hended : c.Ended)
    (hprocess : c.assembly.system.process = some p) :
  ∃ c' r, c.step cfg launches idleTimeoutMs (.runtime .shutdown) = some c'
    ∧ c'.assembly.runtime = some r ∧ ∀ i, (r.pool.worker i).child = none
  := by
  obtain ⟨r, hruntime⟩ := exists_runtime (reachable_assembly hreach) hprocess
  obtain ⟨hscheduler, -, htasks⟩ := hended p hprocess
  have houtside : outside c.assembly.system .shutdown = true := by
    rw [outside, hprocess, Option.any_some, htasks, hscheduler]
    rfl
  refine ⟨⟨⟨c.assembly.system, some { r with pool := r.pool.shutdown }⟩, c.held⟩, _, ?_, rfl, ?_⟩
  · simp [step, houtside, Assembly.step, hruntime, Runtime.step]
  · have hsound := ((Assembly.reachable_holds (reachable_assembly hreach)).launches r hruntime).2
    intro i
    exact ((Pool.operated_shutdown r.pool).sound hsound).gone i (List.not_mem_nil)

/-- Once the Kernel stops, its threads make at most twenty steps and thirteen for each task that it
has, whatever the workers and the clients do and in whatever order; from each state in between they
can go on until they have all ended, and then the shutdown of the pool leaves no process of a
worker. -/
theorem stopping_kernel_ends
    (hreach : (machine cfg launches idleTimeoutMs).Reachable c)
    (hprocess : c.assembly.system.process = some p) (hstop : p.stop = true) {es : List Event}
    (hrun : (machine cfg launches idleTimeoutMs).run c es = some c')
    (hguard : (machine cfg launches idleTimeoutMs).Within NoStart c es) :
  ∃ es' c'', (machine cfg launches idleTimeoutMs).run c' es' = some c''
    ∧ (∀ e ∈ es', e.ofThreads = true)
    ∧ es.countP Event.ofThreads + es'.length ≤ 20 + 13 * p.tasks.length
    ∧ c''.Ended
    ∧ (c''.assembly.system.process.isSome = true →
      ∃ c₁ r, c''.step cfg launches idleTimeoutMs (.runtime .shutdown) = some c₁
        ∧ c₁.assembly.runtime = some r ∧ ∀ i, (r.pool.worker i).child = none)
  := by
  have hstopping : c.Stopping := by
    intro p' hp'
    cases hprocess.symm.trans hp'
    exact hstop
  have hlower : ∀ {c c' : Composite} {e : Event},
      ((machine cfg launches idleTimeoutMs).Reachable c ∧ c.Stopping) → NoStart c e →
      (machine cfg launches idleTimeoutMs).step c e = some c' →
      ((machine cfg launches idleTimeoutMs).Reachable c' ∧ c'.Stopping)
        ∧ e.ofThreads.toNat + c'.threadsLeft ≤ c.threadsLeft := by
    rintro c c' e ⟨hreach, hstopping⟩ hstart hstep
    obtain ⟨hstopping', hle⟩ := threadsLeft_step hreach hstopping hstart hstep
    exact ⟨⟨hreach.step hstep, hstopping'⟩, hle⟩
  obtain ⟨⟨hreach', hstopping'⟩, hcount⟩ :=
    hguard.countP_le Event.ofThreads threadsLeft hlower ⟨hreach, hstopping⟩ hrun
  have hlower' : ∀ {c c' : Composite} {e : Event},
      ((machine cfg launches idleTimeoutMs).Reachable c ∧ c.Stopping) → e.ofThreads = true →
      (machine cfg launches idleTimeoutMs).step c e = some c' →
      ((machine cfg launches idleTimeoutMs).Reachable c' ∧ c'.Stopping)
        ∧ c'.threadsLeft < c.threadsLeft := by
    intro c c' e hc hofThreads hstep
    obtain ⟨hc', hle⟩ := hlower hc (noStart_of_ofThreads c hofThreads) hstep
    rw [hofThreads, Bool.toNat_true] at hle
    exact ⟨hc', by omega⟩
  have henabled : ∀ {c : Composite},
      ((machine cfg launches idleTimeoutMs).Reachable c ∧ c.Stopping) → ¬ c.Ended →
      ∃ e c', e.ofThreads = true ∧ (machine cfg launches idleTimeoutMs).step c e = some c' :=
    fun hc hended => exists_step_of_threads hc.1 hended
  obtain ⟨es', c'', hrun', ⟨hreach'', -⟩, hended, hall, hlength⟩ :=
    Machine.exists_run_of_lowers Event.ofThreads threadsLeft hlower' henabled ⟨hreach', hstopping'⟩
  have hle := threadsLeft_le hreach hprocess
  refine ⟨es', c'', hrun', hall, by omega, hended, ?_⟩
  intro hsome
  obtain ⟨p'', hprocess''⟩ := Option.isSome_iff_exists.mp hsome
  exact exists_shutdown hreach'' hended hprocess''

/-- The Kernel stops while a task is in `execute`. -/
theorem stopping_kernel_ends_executing :
  ∃ c c' es' c'', (machine Kernel.Sample.config Sample.engineLaunches 1000).Reachable c
    ∧ (machine Kernel.Sample.config Sample.engineLaunches 1000).run c [.execute 0 .probe 0] = some c'
    ∧ c'.held = [0]
    ∧ (machine Kernel.Sample.config Sample.engineLaunches 1000).run c' es' = some c''
    ∧ es'.length ≤ 32 ∧ c''.Ended
  := by
  have hcheck : ((machine Kernel.Sample.config Sample.engineLaunches 1000).run
      ⟨⟨Kernel.Sample.start, none⟩, []⟩ (Sample.cancelling ++ [.system .stop])).any (fun c =>
        c.assembly.system.process.any (fun p => p.stop && p.tasks.length = 1)
        && ((machine Kernel.Sample.config Sample.engineLaunches 1000).run c [.execute 0 .probe 0]).any
          fun c' => c'.held = [0]) = true := by
    decide +kernel
  obtain ⟨c, hrun₀, hc⟩ := (Option.any_eq_true _ _).mp hcheck
  rw [Bool.and_eq_true] at hc
  obtain ⟨hp, hc⟩ := hc
  obtain ⟨p, hprocess, hp⟩ := (Option.any_eq_true _ _).mp hp
  rw [Bool.and_eq_true, decide_eq_true_eq] at hp
  obtain ⟨c', hrun, hheld⟩ := (Option.any_eq_true _ _).mp hc
  have hreach : (machine Kernel.Sample.config Sample.engineLaunches 1000).Reachable c :=
    ⟨_, _, ⟨⟨rfl, rfl, rfl⟩, rfl, rfl⟩, hrun₀⟩
  obtain ⟨es', c'', hrun', -, hlength, hended, -⟩ :=
    stopping_kernel_ends hreach hprocess hp.1 hrun ⟨trivial, fun _ _ => trivial⟩
  refine ⟨c, c', es', c'', hreach, hrun, of_decide_eq_true hheld, hrun', ?_, hended⟩
  rw [hp.2] at hlength
  have hcount : List.countP Event.ofThreads [.execute 0 .probe 0] = 1 := rfl
  omega

end Composite

end Kernel
