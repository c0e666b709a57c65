import MadreKernel.Kernel.LeasedTasks
import MadreKernel.Pool.Interruption

/-!
# Ending the attempts

An attempt is to end when the Kernel stops, when its Work is cancelled and when its stop time is
reached.  Each step of its task then takes it nearer to its end, however its worker behaves and
whatever the other threads do, and no step of a task waits for another thread.
-/

namespace Kernel

open WorkStore

/-! ### What a task has left to do -/

/-- The steps that a task has left at most while its call, in a phase, is interrupted. -/
def TaskPhase.remaining (call : Option Phase) : TaskPhase → Nat
  | .starting => 12
  | .executing _ => 6 + call.elim 0 Execute.remaining
  | .checking _ => 5
  | .writing _ => 4
  | .moving _ => 3
  | .settling _ => 2
  | .committing _ => 2
  | .handling _ => 1

/-- An input other than that a part of a file is written. -/
def TaskInput.whole : TaskInput → Bool
  | .write _ => false
  | _ => true

theorem TaskPhase.remaining_pos (call : Option Phase) (phase : TaskPhase) :
  0 < phase.remaining call
  := by
  cases phase <;> simp [remaining]

theorem TaskPhase.remaining_le (call : Option Phase) (phase : TaskPhase) :
  phase.remaining call ≤ 13
  := by
  cases phase with
  | executing input =>
      cases call with
      | none => simp [remaining]
      | some call =>
          have hcall := Execute.remaining_le call
          simp only [remaining, Option.elim_some]
          omega
  | _ => simp [remaining]

/-- Only in `execute` the call of a task counts. -/
theorem TaskPhase.remaining_congr
    {phase : TaskPhase} (hphase : ∀ input, phase ≠ .executing input) (call call' : Option Phase) :
  phase.remaining call = phase.remaining call'
  := by
  cases phase with
  | executing input => exact absurd rfl (hphase input)
  | _ => rfl

theorem afterCall_eq_some
    {α : Type} {result : Except Bytes α} {next : α → Option TaskPhase} {phase : TaskPhase}
    (h : afterCall result next = some phase) :
  (∃ text, phase = .handling text) ∨ ∃ a, next a = some phase
  := by
  cases result with
  | error e =>
      left
      cases h
      exact ⟨e, rfl⟩
  | ok a =>
      right
      exact ⟨a, h⟩

theorem afterOutcome_remaining
    {outcome : WorkerOutcome} {phase : TaskPhase} (h : afterOutcome outcome = some phase)
    (call : Option Phase) :
  phase.remaining call ≤ 5
  := by
  cases outcome <;> cases h <;> simp [TaskPhase.remaining]

/-- Each step of a task takes it nearer to its end. -/
theorem taskStep_remaining
    {stop : Bool} {store : Store} {files : Files} {t : Task} {input : TaskInput} {moved : TaskStep}
    {phase : TaskPhase} (h : taskStep stop store files t input = some moved)
    (hnext : moved.next = some phase) :
  phase.remaining (some .entering) + input.whole.toNat ≤ t.phase.remaining none
  := by
  have hafter : ∀ {α : Type} {result : Except Bytes α} {next : α → Option TaskPhase} {n : Nat},
      2 ≤ n → (∀ a, next a = some phase → phase.remaining (some .entering) + 1 ≤ n) →
      afterCall result next = some phase → phase.remaining (some .entering) + 1 ≤ n := by
    intro α result next n hn hnextle hcall
    rcases afterCall_eq_some hcall with ⟨text, rfl⟩ | ⟨a, ha⟩
    · exact hn
    · exact hnextle a ha
  cases input with
  | proceed nowMs faults =>
      rw [taskStep] at h
      change _ + 1 ≤ _
      cases hphase : t.phase with
      | starting =>
          simp only [hphase] at h
          split_ifs at h
          · cases h
            cases hnext
          · cases h
            apply hafter (by simp [TaskPhase.remaining]) _ hnext
            rintro content ⟨⟩
            simp [TaskPhase.remaining, Execute.remaining]
      | executing content =>
          simp only [hphase] at h
          cases h
      | settling settlement =>
          simp only [hphase] at h
          cases h
          apply hafter (by simp [TaskPhase.remaining]) _ hnext
          rintro a ⟨⟩
      | checking payload =>
          simp only [hphase] at h
          cases h
          apply hafter (by simp [TaskPhase.remaining]) _ hnext
          rintro cancelled ⟨⟩
          split_ifs <;> simp [TaskPhase.remaining]
      | writing payload =>
          simp only [hphase] at h
          split_ifs at h
          · cases h
            cases hnext
            simp [TaskPhase.remaining]
          · cases h
            cases hnext
            simp [TaskPhase.remaining]
      | moving payload =>
          simp only [hphase] at h
          obtain ⟨files', -, rfl⟩ := Option.map_eq_some_iff.mp h
          cases hnext
          simp [TaskPhase.remaining]
      | committing payload =>
          simp only [hphase] at h
          cases h
          apply hafter (by simp [TaskPhase.remaining]) _ hnext
          rintro a ⟨⟩
      | handling text =>
          simp only [hphase] at h
          split_ifs at h
          · cases h
            cases hnext
          · cases h
            cases hnext
  | outcome outcome =>
      rw [taskStep] at h
      split at h
      next content hphase =>
        cases h
        have hle := afterOutcome_remaining hnext (some .entering)
        rw [hphase]
        change _ + 1 ≤ 6
        omega
      next => cases h
  | write count =>
      rw [taskStep] at h
      split at h
      next payload hphase =>
        split_ifs at h
        cases h
        cases hnext
        rw [hphase]
        rfl
      next => cases h
  | throw text =>
      rw [taskStep] at h
      split at h
      next content hphase =>
        cases h
        cases hnext
        rw [hphase]
        simp [TaskPhase.remaining, TaskInput.whole]
      next payload hphase =>
        cases h
        cases hnext
        rw [hphase]
        simp [TaskPhase.remaining, TaskInput.whole]
      next payload hphase =>
        cases h
        cases hnext
        rw [hphase]
        simp [TaskPhase.remaining, TaskInput.whole]
      next => cases h

namespace System

/-- A process that stops does not go back. -/
theorem step_stop
    {cfg : Config} {s s' : System} {p p' : Process} {e : Event} (h : s.step cfg e = some s')
    (hprocess : s.process = some p) (hprocess' : s'.process = some p') (hstop : p.stop = true) :
  p'.stop = true
  := by
  cases e with
  | start nowMs faults =>
      simp only [step, hprocess] at h
      cases h
  | crash =>
      simp only [step, hprocess] at h
      cases h
      cases hprocess'
  | stop =>
      simp only [step, hprocess] at h
      cases h
      cases hprocess'
      rfl
  | scheduler input =>
      simp only [step, hprocess] at h
      cases schedulerStep_move h <;> cases hprocess' <;> exact hstop
  | task i input =>
      simp only [step, hprocess, attemptStep] at h
      split at h
      · cases h
      · obtain ⟨moved, -, rfl⟩ := Option.map_eq_some_iff.mp h
        cases hprocess'
        cases hnext : moved.next <;> exact hstop
  | handler input =>
      simp only [step, hprocess] at h
      cases handlerStep_move hprocess h <;> cases hprocess' <;> exact hstop

end System

namespace Runtime

variable {r r' : Runtime}

theorem step_destroy
    {lease : Nat} {nowMs : Int64} (h : r.step (.lease (.destroy lease) nowMs) = some r') :
  r'.calls = r.calls ∧ r'.leases.objects.length = r.leases.objects.length
  := by
  rw [step, operate] at h
  split_ifs at h
  obtain ⟨⟨leases, released⟩, hstep, rfl⟩ := Option.map_eq_some_iff.mp h
  obtain ⟨a, -, heq⟩ := Option.map_eq_some_iff.mp hstep
  cases heq
  exact ⟨rfl, List.length_set ..⟩

theorem step_call
    {lease : Nat} {payload : Bytes} {attemptStartedAtMs : Int64} {stopAtMs : Option Int64}
    {timeoutWins : Bool}
    (h : r.step (.call lease payload attemptStartedAtMs stopAtMs timeoutWins) = some r') :
  ∃ call, r'.calls = Function.update r.calls lease (some (call, .entering))
    ∧ r'.leases.objects.length = r.leases.objects.length
  := by
  rw [step, call] at h
  split at h
  · cases h
    exact ⟨_, rfl, rfl⟩
  · cases h

/-- The acts of the processes and the operations of the pool leave the leases and the calls. -/
theorem step_outside
    {s : System} {e : Event} (houtside : Composite.outside s e = true) (h : r.step e = some r') :
  r'.calls = r.calls ∧ r'.leases = r.leases
  := by
  cases e with
  | act i a =>
      obtain ⟨w, -, rfl⟩ := Option.map_eq_some_iff.mp h
      exact ⟨rfl, rfl⟩
  | isWarm engineId =>
      cases h
      exact ⟨rfl, rfl⟩
  | reapIdle currentMs =>
      cases h
      exact ⟨rfl, rfl⟩
  | shutdown =>
      cases h
      exact ⟨rfl, rfl⟩
  | _ => cases houtside

end Runtime

namespace Composite

variable {cfg : Config} {launches : SortedMap Bytes WorkerLaunchSpec} {idleTimeoutMs : Int64}
  {c c' : Composite} {p p' : Process} {r r' : Runtime} {t : Task} {i lease : Nat}

/-! ### What a step does to the tasks -/

/-- The steps that a task with a lease has left at most while its call is interrupted. -/
def remaining (r : Runtime) (t : Task) (lease : Nat) : Nat :=
  t.phase.remaining ((r.calls lease).map Prod.snd)

theorem remaining_of_free (h : r.calls lease = none) (t : Task) :
  remaining r t lease = t.phase.remaining none
  := by
  rw [remaining, h]
  rfl

theorem remaining_of_call {call : Call × Phase} (h : r.calls lease = some call) (t : Task) :
  remaining r t lease = t.phase.remaining (some call.2)
  := by
  rw [remaining, h]
  rfl

/-- The place of the task that moves. -/
def Event.place : Event → Option Nat
  | .task i _ _ => some i
  | .ask i _ _ _ => some i
  | .execute i _ _ => some i
  | _ => none

/-- An event other than that a part of a file is written. -/
def Event.whole : Event → Bool
  | .task _ input _ => input.whole
  | _ => true

/-- What a task does at its step: it goes on, or it ends.  When it goes on and the condition holds,
it has less left by the cost of the step. -/
inductive TaskEffect (p : Process) (held : List Nat) (r : Runtime) (i : Nat) (t : Task) (lease : Nat)
    (condition : Prop) (cost : Nat) : Process → List Nat → Runtime → Prop where
  | goesOn {p' : Process} {r' : Runtime} {phase : TaskPhase} (hstop : p'.stop = p.stop)
      (htasks : p'.tasks = p.tasks.set i { t with phase })
      (hcalls : ∀ lease', lease' ≠ lease → r'.calls lease' = r.calls lease')
      (hobjects : r'.leases.objects.length = r.leases.objects.length)
      (hremaining : condition → remaining r' { t with phase } lease + cost ≤ remaining r t lease) :
      TaskEffect p held r i t lease condition cost p' held r'
  | ends {p' : Process} {r' : Runtime} (hstop : p'.stop = p.stop)
      (htasks : p'.tasks = p.tasks.eraseIdx i)
      (hcalls : ∀ lease', lease' ≠ lease → r'.calls lease' = r.calls lease')
      (hobjects : r'.leases.objects.length = r.leases.objects.length) :
      TaskEffect p held r i t lease condition cost p' (held.eraseIdx i) r'

/-- What a step does to the tasks, their leases and the calls on them, while the process goes on. -/
inductive Effect (c : Composite) (e : Event) (condition : Prop) (p : Process) (r : Runtime)
    (p' : Process) (held' : List Nat) (r' : Runtime) : Prop where
  | kept (hplace : e.place = none) (hstop : p.stop = true → p'.stop = true)
      (htasks : p'.tasks = p.tasks) (hheld : held' = c.held) (hcalls : r'.calls = r.calls)
      (hobjects : r'.leases.objects.length = r.leases.objects.length) :
      Effect c e condition p r p' held' r'
  /-- A task starts with a new lease. -/
  | began {t : Task} (hplace : e.place = none) (hstop : p.stop = true → p'.stop = true)
      (hphase : t.phase = .starting) (htasks : p'.tasks = p.tasks ++ [t])
      (hheld : held' = c.held ++ [r.leases.objects.length]) (hcalls : r'.calls = r.calls)
      (hobjects : r'.leases.objects.length = r.leases.objects.length + 1) :
      Effect c e condition p r p' held' r'
  | moved {i lease : Nat} {t : Task} (hplace : e.place = some i) (ht : p.tasks[i]? = some t)
      (hlease : c.held[i]? = some lease)
      (heffect : TaskEffect p c.held r i t lease condition e.whole.toNat p' held' r') :
      Effect c e condition p r p' held' r'

/-- The call on the lease of the task has moved before. -/
theorem TaskEffect.before
    {held held' : List Nat} {condition : Prop} {cost : Nat} {r₁ : Runtime}
    (h : TaskEffect p held r₁ i t lease condition cost p' held' r')
    (hcalls : ∀ lease', lease' ≠ lease → r₁.calls lease' = r.calls lease')
    (hobjects : r₁.leases.objects.length = r.leases.objects.length)
    (hremaining : remaining r₁ t lease ≤ remaining r t lease) :
  TaskEffect p held r i t lease condition cost p' held' r'
  := by
  cases h with
  | goesOn hstop htasks hcalls' hobjects' hremaining' =>
      apply TaskEffect.goesOn hstop htasks
      · intro lease' hne
        rw [hcalls' lease' hne, hcalls lease' hne]
      · rw [hobjects', hobjects]
      · intro hcondition
        exact (hremaining' hcondition).trans hremaining
  | ends hstop htasks hcalls' hobjects' =>
      apply TaskEffect.ends hstop htasks
      · intro lease' hne
        rw [hcalls' lease' hne, hcalls lease' hne]
      · rw [hobjects', hobjects]

/-- The step of a task on whose lease no call runs. -/
theorem moveTask_effect
    (hprocess : c.assembly.system.process = some p) (hruntime : c.assembly.runtime = some r)
    (ht : p.tasks[i]? = some t) (hlease : c.held[i]? = some lease) (hfree : r.calls lease = none)
    {input : TaskInput} {releasedAtMs : Int64}
    (hmove : moveTask cfg launches idleTimeoutMs c i input releasedAtMs = some c')
    (condition : Prop) :
  ∃ p' r', c'.assembly.system.process = some p' ∧ c'.assembly.runtime = some r'
    ∧ TaskEffect p c.held r i t lease condition input.whole.toNat p' c'.held r'
  := by
  obtain ⟨⟨p₀, t₀, lease₀⟩, htask, hmove⟩ := Option.bind_eq_some_iff.mp hmove
  obtain ⟨hprocess₀, ht₀, hlease₀⟩ := task?_eq_some htask
  obtain rfl := Option.some.inj (hprocess.symm.trans hprocess₀)
  obtain rfl := Option.some.inj (ht.symm.trans ht₀)
  obtain rfl := Option.some.inj (hlease.symm.trans hlease₀)
  obtain ⟨moved, hmoved, hmove⟩ := Option.bind_eq_some_iff.mp hmove
  obtain ⟨a, ha, hmove⟩ := Option.bind_eq_some_iff.mp hmove
  obtain ⟨s', runtime, hs', rfl, hr, -⟩ := Assembly.step_system ha
  obtain ⟨hprocess₁, -⟩ := step_task hprocess ht hmoved hs'
  have hruntime₁ : (Assembly.moved runtime s').runtime = some r := by
    rw [Assembly.moved, if_pos (by rw [hprocess₁]; rfl)]
    rcases hr with rfl | ⟨hnone, -⟩
    · exact hruntime
    · rw [hprocess] at hnone
      cases hnone
  cases hnext : moved.next with
  | none =>
      rw [hnext] at hmove hprocess₁
      obtain ⟨a', ha', rfl⟩ := Option.map_eq_some_iff.mp hmove
      obtain ⟨r₁, r₂, hr₁, hr₂, rfl⟩ := Assembly.step_runtime ha'
      cases hruntime₁.symm.trans hr₁
      obtain ⟨hcalls, hobjects⟩ := Runtime.step_destroy hr₂
      refine ⟨_, r₂, hprocess₁, rfl, .ends rfl rfl ?_ hobjects⟩
      intro lease' _
      rw [hcalls]
  | some phase =>
      rw [hnext] at hmove hprocess₁
      have hlower := taskStep_remaining hmoved hnext
      rw [← remaining_of_free hfree t] at hlower
      by_cases hexecuting : ∃ content, phase = .executing content
      · obtain ⟨content, rfl⟩ := hexecuting
        obtain ⟨a', ha', rfl⟩ := Option.map_eq_some_iff.mp hmove
        obtain ⟨r₁, r₂, hr₁, hr₂, rfl⟩ := Assembly.step_runtime ha'
        cases hruntime₁.symm.trans hr₁
        obtain ⟨call, hcalls, hobjects⟩ := Runtime.step_call hr₂
        refine ⟨_, r₂, hprocess₁, rfl, .goesOn rfl rfl ?_ hobjects fun _ => ?_⟩
        · intro lease' hne
          rw [hcalls, Function.update_of_ne hne]
        · have hcall : r₂.calls lease = some (call, .entering) := by
            rw [hcalls, Function.update_self]
          rw [remaining_of_call hcall]
          exact hlower
      · have hfollow : follow cfg launches idleTimeoutMs (Assembly.moved runtime s') c.held i lease t
            releasedAtMs (some phase) = some ⟨Assembly.moved runtime s', c.held⟩ := by
          cases phase with
          | executing content => exact absurd ⟨content, rfl⟩ hexecuting
          | _ => rfl
        rw [hfollow] at hmove
        cases hmove
        refine ⟨_, r, hprocess₁, hruntime₁, .goesOn rfl rfl (fun _ _ => rfl) rfl fun _ => ?_⟩
        rw [remaining_of_free hfree]
        rw [TaskPhase.remaining_congr (by simpa using hexecuting) (some .entering) none] at hlower
        exact hlower

theorem remaining_none_le (phase : TaskPhase) (call : Option Phase) :
  phase.remaining none ≤ phase.remaining call
  := by
  cases phase with
  | executing input =>
      simp only [TaskPhase.remaining, Option.elim_none]
      omega
  | _ => exact le_rfl

/-- A step of the call on the lease of a task. -/
theorem moveCall_effect
    (hprocess : c.assembly.system.process = some p) (hruntime : c.assembly.runtime = some r)
    (hcalling : Calling r p.tasks c.held none) (ht : p.tasks[i]? = some t)
    (hlease : c.held[i]? = some lease) {input : Input} {releasedAtMs : Int64}
    (hmove : moveCall cfg launches idleTimeoutMs c i input releasedAtMs = some c') {condition : Prop}
    (hcondition : condition → ∀ call phase, r.calls lease = some (call, phase) →
      Execute.Interrupted call input) :
  ∃ p' r', c'.assembly.system.process = some p' ∧ c'.assembly.runtime = some r'
    ∧ TaskEffect p c.held r i t lease condition 1 p' c'.held r'
  := by
  obtain ⟨⟨p₀, t₀, lease₀⟩, htask, hmove⟩ := Option.bind_eq_some_iff.mp hmove
  obtain ⟨hprocess₀, ht₀, hlease₀⟩ := task?_eq_some htask
  obtain rfl := Option.some.inj (hprocess.symm.trans hprocess₀)
  obtain rfl := Option.some.inj (ht.symm.trans ht₀)
  obtain rfl := Option.some.inj (hlease.symm.trans hlease₀)
  obtain ⟨r₀, hruntime₀, hmove⟩ := Option.bind_eq_some_iff.mp hmove
  obtain rfl := Option.some.inj (hruntime.symm.trans hruntime₀)
  obtain ⟨progress, hprogress, hmove⟩ := Option.bind_eq_some_iff.mp hmove
  obtain ⟨a, ha, hmove⟩ := Option.bind_eq_some_iff.mp hmove
  obtain ⟨j, call, phase, w, hget, hcall, hstep⟩ := progress?_eq_some hprogress
  obtain ⟨r₁, r₂, hr₁, hr₂, rfl⟩ := Assembly.step_runtime ha
  obtain rfl := Option.some.inj (hruntime.symm.trans hr₁)
  have hr₂' : r₂ = r.progressed lease j call w progress := by
    rw [Runtime.step, Runtime.execute, hget, hcall] at hr₂
    simp only [hstep, Option.map_some, Option.some.injEq] at hr₂
    exact hr₂.symm
  have hother : ∀ lease', lease' ≠ lease → r₂.calls lease' = r.calls lease' := by
    intro lease' hne
    rw [hr₂']
    cases progress <;> exact Function.update_of_ne hne ..
  have hobjects : r₂.leases.objects.length = r.leases.objects.length := by
    rw [hr₂', Runtime.progressed_leases]
  have hends : (∀ phase', progress ≠ .goesOn phase') → ∀ {input : TaskInput}, input.whole = true →
      moveTask cfg launches idleTimeoutMs ⟨⟨c.assembly.system, some r₂⟩, c.held⟩ i input releasedAtMs
        = some c' →
      ∃ p' r', c'.assembly.system.process = some p' ∧ c'.assembly.runtime = some r'
        ∧ TaskEffect p c.held r i t lease condition 1 p' c'.held r' := by
    intro hnot input hwhole hmove
    have hfree : r₂.calls lease = none := by
      rw [hr₂']
      exact calls_progressed_self hnot
    obtain ⟨p', r', hprocess', hruntime', heffect⟩ := moveTask_effect
      (c := ⟨⟨c.assembly.system, some r₂⟩, c.held⟩) hprocess rfl ht hlease hfree hmove condition
    rw [hwhole] at heffect
    refine ⟨p', r', hprocess', hruntime', heffect.before hother hobjects ?_⟩
    rw [remaining_of_free hfree]
    apply remaining_none_le
  cases progress with
  | goesOn phase' =>
      cases hmove
      have hset : p.tasks = p.tasks.set i { t with phase := t.phase } := by
        obtain ⟨hi, hget⟩ := List.getElem?_eq_some_iff.mp ht
        have hself := List.set_getElem_self hi
        rw [hget] at hself
        exact hself.symm
      refine ⟨p, r₂, hprocess, rfl, .goesOn rfl hset hother hobjects ?_⟩
      intro hc
      have hlower := Execute.remaining_step (hcondition hc call phase hcall) hstep
      have hcalls := hcalling i t lease (by simp) ht hlease
      rw [Calls] at hcalls
      split at hcalls
      next content hphase =>
        have hcall' : r₂.calls lease = some (call, phase') := by
          rw [hr₂']
          exact Function.update_self ..
        rw [remaining_of_call hcall', remaining_of_call hcall]
        simp only [hphase, TaskPhase.remaining, Option.elim_some]
        omega
      next =>
        rw [hcall] at hcalls
        cases hcalls
  | returned outcome => exact hends (by simp) rfl hmove
  | threw what => exact hends (by simp) rfl hmove

/-- The answers that a task gets at its question end its attempt: the Kernel stops, the Work is
cancelled or the question throws, or the stop time is reached. -/
def Interrupted (c : Composite) : Event → Prop
  | .ask i nowMs faults _ => ∀ p t lease, c.task? i = some (p, t, lease) →
      p.stop = true
        ∨ ((cancelRequested t.work.id).exec faults c.assembly.system.store).1 ≠ .ok false
        ∨ ∃ stopAt ∈ (stopTime t.work t.startedAtMs).1, stopAt ≤ nowMs
  | _ => True

/-- The question of a task that is interrupted interrupts its call. -/
theorem Interrupted.call
    {nowMs : Int64} {faults : List (Option Bytes)} {releasedAtMs : Int64}
    (h : c.Interrupted (.ask i nowMs faults releasedAtMs))
    (htask : c.task? i = some (p, t, lease)) (hcalling : Calling r p.tasks c.held none) {call : Call}
    {phase : Phase} (hcall : r.calls lease = some (call, phase)) :
  Execute.Interrupted call (answers c.assembly.system p t nowMs faults)
  := by
  obtain ⟨-, ht, hlease⟩ := task?_eq_some htask
  rintro stopping cancellation now heq
  cases heq
  rcases h p t lease htask with hstop | hcancel | ⟨stopAt, hstopAt, hle⟩
  · exact Or.inl hstop
  · exact Or.inr (Or.inl hcancel)
  · right
    right
    have hcalls := hcalling i t lease (by simp) ht hlease
    rw [Calls] at hcalls
    split at hcalls
    next content hphase =>
      obtain ⟨call', phase', hcall', -, -, hstopAtMs⟩ := hcalls
      cases hcall.symm.trans hcall'
      rw [Call.stopTimeReached, hstopAtMs, Option.mem_def.mp hstopAt]
      exact decide_eq_true hle
    next =>
      rw [hcall] at hcalls
      cases hcalls

/-- Everything that a step does to the tasks of a process that goes on. -/
theorem Steps.effect
    (hleased : c.Leased) {e : Event} (h : Steps cfg launches idleTimeoutMs c e c')
    (hprocess : c.assembly.system.process = some p) (hruntime : c.assembly.runtime = some r)
    (hprocess' : c'.assembly.system.process = some p') (hruntime' : c'.assembly.runtime = some r') :
  Effect c e (c.Interrupted e) p r p' c'.held r'
  := by
  obtain ⟨hheld, hcalling⟩ := hleased.held p r hprocess hruntime
  have hmoved : ∀ {i lease : Nat} {t : Task}, e.place = some i → p.tasks[i]? = some t →
      c.held[i]? = some lease → (∃ p' r', c'.assembly.system.process = some p'
        ∧ c'.assembly.runtime = some r'
        ∧ TaskEffect p c.held r i t lease (c.Interrupted e) e.whole.toNat p' c'.held r') →
      Effect c e (c.Interrupted e) p r p' c'.held r' := by
    rintro i lease t hplace ht hlease ⟨p₁, r₁, hp₁, hr₁, heffect⟩
    cases hprocess'.symm.trans hp₁
    cases hruntime'.symm.trans hr₁
    exact .moved hplace ht hlease heffect
  cases h with
  | @system e a hother ha =>
      obtain ⟨s', runtime, hs', rfl, hr, hlaunching⟩ := Assembly.step_system ha
      obtain ⟨-, htasks⟩ := step_other hs' hother hlaunching
      have hp' : s'.process = some p' := hprocess'
      have hruntime₁ : runtime = some r := by
        rcases hr with rfl | ⟨hnone, -⟩
        · exact hruntime
        · rw [hprocess] at hnone
          cases hnone
      cases hruntime₁.symm.trans (Assembly.mem_moved hruntime')
      rcases htasks p' hp' with ⟨p₁, hp₁, hsame⟩ | ⟨hnone, -⟩
      · cases hprocess.symm.trans hp₁
        exact .kept rfl (System.step_stop hs' hprocess hp') hsame (by simp [Assembly.moved, hp']) rfl
          rfl
      · rw [hprocess] at hnone
        cases hnone
  | @launch nowMs faults spawn a ha =>
      obtain ⟨engineId, r₀, s', hlaunching, hr₀, hs', rfl⟩ := Assembly.step_launch ha
      cases hruntime.symm.trans hr₀
      have hp' : s'.process = some p' := hprocess'
      obtain ⟨p₁, hp₁, hengine⟩ := Option.bind_eq_some_iff.mp hlaunching
      cases hprocess.symm.trans hp₁
      split at hengine
      next work selection number startedAtMs hphase =>
        obtain rfl := Option.some.inj hengine
        obtain ⟨-, htasks⟩ := step_launching hprocess hphase hs'
        obtain ⟨hok, herror⟩ := htasks p' hp'
        have hstop := System.step_stop hs' hprocess hp'
        cases Assembly.mem_moved hruntime'
        cases hacquire : (r.pool.acquire selection.engine.id spawn).1 with
        | error what =>
            rw [Runtime.acquire_of_error hacquire]
            refine .kept rfl hstop (herror what (by rw [hacquire]; rfl)) ?_ rfl rfl
            simp [Assembly.moved, hp', acquired, hlaunching, hruntime, hacquire]
        | ok i =>
            rw [Runtime.acquire_of_ok hacquire]
            refine .began rfl hstop ?_ (hok (by rw [hacquire]; rfl)) ?_ rfl (by simp [Handles.give])
            · rfl
            · simp [Assembly.moved, hp', acquired, hlaunching, hruntime, hacquire]
      next => cases hengine
  | @task i lease input releasedAtMs p₁ t _ htask hphase hmove =>
      obtain ⟨hp₁, ht, hlease⟩ := task?_eq_some htask
      cases hprocess.symm.trans hp₁
      exact hmoved rfl ht hlease (moveTask_effect hprocess hruntime ht hlease
        (hcalling.free ht hphase hlease) hmove _)
  | @ask i lease nowMs faults releasedAtMs p₁ t _ htask hmove =>
      obtain ⟨hp₁, ht, hlease⟩ := task?_eq_some htask
      cases hprocess.symm.trans hp₁
      apply hmoved rfl ht hlease
      apply moveCall_effect hprocess hruntime hcalling ht hlease hmove
      intro hinterrupted call phase hcall
      exact hinterrupted.call htask hcalling hcall
  | @execute i input releasedAtMs _ hinput hmove =>
      obtain ⟨⟨p₁, t, lease⟩, htask, -⟩ := Option.bind_eq_some_iff.mp hmove
      obtain ⟨hp₁, ht, hlease⟩ := task?_eq_some htask
      cases hprocess.symm.trans hp₁
      apply hmoved rfl ht hlease
      apply moveCall_effect hprocess hruntime hcalling ht hlease hmove
      intro _ call phase _ stopping cancellation nowMs heq
      exact absurd heq (hinput stopping cancellation nowMs)
  | @runtime e a houtside ha =>
      obtain ⟨r₀, r₁, hr₀, hr₁, rfl⟩ := Assembly.step_runtime ha
      cases hruntime.symm.trans hr₀
      cases hruntime'
      cases hprocess.symm.trans hprocess'
      obtain ⟨hcalls, hleases⟩ := Runtime.step_outside houtside hr₁
      exact .kept rfl id rfl rfl hcalls (by rw [hleases])

/-! ### What the tasks have left to do -/

/-- What a task has left, when its lease is chosen. -/
def weight (chosen : Nat → Bool) (r : Runtime) (t : Task) (lease : Nat) : Nat :=
  if chosen lease then remaining r t lease else 0

/-- What the tasks with a chosen lease have left. -/
def left (chosen : Nat → Bool) (tasks : List Task) (held : List Nat) (r : Runtime) : Nat :=
  (List.zipWith (weight chosen r) tasks held).sum

variable {chosen : Nat → Bool} {tasks : List Task} {held : List Nat}

theorem left_congr (h : ∀ lease ∈ held, r'.calls lease = r.calls lease) :
  left chosen tasks held r' = left chosen tasks held r
  := by
  rw [left, left]
  induction tasks generalizing held with
  | nil => rfl
  | cons t tasks ih =>
      cases held with
      | nil => rfl
      | cons lease held =>
          have hweight : weight chosen r' t lease = weight chosen r t lease := by
            rw [weight, weight, remaining, remaining, h lease List.mem_cons_self]
          rw [List.zipWith_cons_cons, List.zipWith_cons_cons, List.sum_cons, List.sum_cons, hweight,
            ih fun lease hmem => h lease (List.mem_cons_of_mem _ hmem)]

theorem left_append (hlength : tasks.length = held.length) (t : Task) (lease : Nat) :
  left chosen (tasks ++ [t]) (held ++ [lease]) r
    = left chosen tasks held r + weight chosen r t lease
  := by
  rw [left, List.zipWith_append hlength, List.sum_append]
  rfl

theorem left_eraseIdx (ht : tasks[i]? = some t) (hlease : held[i]? = some lease) :
  left chosen tasks held r
    = weight chosen r t lease + left chosen (tasks.eraseIdx i) (held.eraseIdx i) r
  := by
  induction tasks generalizing held i with
  | nil => cases ht
  | cons t' tasks ih =>
      cases held with
      | nil => cases hlease
      | cons lease' held =>
          cases i with
          | zero =>
              cases ht
              cases hlease
              rfl
          | succ i =>
              rw [List.getElem?_cons_succ] at ht hlease
              have htail := ih ht hlease
              simp only [left, List.eraseIdx_cons_succ, List.zipWith_cons_cons, List.sum_cons]
                at htail ⊢
              omega

/-- Whether an event is a whole step of a task with a chosen lease. -/
def counts (chosen : Nat → Bool) (c : Composite) (e : Event) : Bool :=
  e.whole && (e.place.bind (c.held[·]?)).any chosen

/-- A step of a chosen task takes what the chosen tasks have left down by one, as long as it is
interrupted; and only a new task takes it up. -/
theorem Effect.left_le
    {e : Event} {condition : Prop} {held' : List Nat} (h : Effect c e condition p r p' held' r')
    (hheld : p.tasks.length = c.held.length) (hnodup : c.held.Nodup)
    (hcondition : ∀ i lease, e.place = some i → c.held[i]? = some lease → chosen lease = true →
      condition) :
  left chosen p'.tasks held' r' + (c.counts chosen e).toNat
    ≤ left chosen p.tasks c.held r
      + (chosen r.leases.objects.length).toNat * (12 * (p'.tasks.length - p.tasks.length))
  := by
  cases h with
  | kept hplace hstop htasks hheld' hcalls hobjects =>
      rw [htasks, hheld', left_congr (r := r) (by simp [hcalls]), counts, hplace]
      simp
  | @began t hplace hstop hphase htasks hheld' hcalls hobjects =>
      rw [htasks, hheld', left_append hheld, left_congr (r := r) (by simp [hcalls]), counts, hplace,
        weight, remaining, hphase]
      cases chosen r.leases.objects.length <;> simp [TaskPhase.remaining]
  | @moved i lease t hplace ht hlease heffect =>
      have hlt := (List.getElem?_eq_some_iff.mp ht).1
      have hother : ∀ lease' ∈ c.held.eraseIdx i, lease' ≠ lease :=
        fun lease' hmem => ne_of_mem_eraseIdx hnodup hlease hmem
      have hbefore : left chosen p.tasks c.held r = weight chosen r t lease
          + left chosen (p.tasks.eraseIdx i) (c.held.eraseIdx i) r := left_eraseIdx ht hlease
      have hcounts : (c.counts chosen e).toNat ≤ e.whole.toNat ∧
          (chosen lease = false → (c.counts chosen e).toNat = 0) := by
        rw [counts, hplace, Option.bind_some, hlease, Option.any_some]
        cases e.whole <;> cases chosen lease <;> simp
      cases heffect with
      | @goesOn _ phase hstop htasks hcalls hobjects hremaining =>
          have ht' : p'.tasks[i]? = some { t with phase } := by
            rw [htasks, List.getElem?_set_self hlt]
          have hafter : left chosen p'.tasks c.held r' = weight chosen r' { t with phase } lease
              + left chosen (p'.tasks.eraseIdx i) (c.held.eraseIdx i) r' := left_eraseIdx ht' hlease
          have hsame : p'.tasks.eraseIdx i = p.tasks.eraseIdx i := by
            rw [htasks, List.eraseIdx_set_eq]
          rw [hsame, left_congr fun lease' hmem => hcalls lease' (hother lease' hmem)] at hafter
          have hweight : weight chosen r' { t with phase } lease + (c.counts chosen e).toNat
              ≤ weight chosen r t lease := by
            rw [weight, weight]
            cases hchosen : chosen lease with
            | true =>
                have hlower := hremaining (hcondition i lease hplace hlease hchosen)
                simp only [if_true]
                omega
            | false => simp [hcounts.2 hchosen]
          omega
      | ends hstop htasks hcalls hobjects =>
          rw [htasks, left_congr fun lease' hmem => hcalls lease' (hother lease' hmem)]
          have hweight : (c.counts chosen e).toNat ≤ weight chosen r t lease := by
            rw [weight]
            cases hchosen : chosen lease with
            | true =>
                have hpos : 0 < remaining r t lease := TaskPhase.remaining_pos _ _
                have hone := Bool.toNat_le e.whole
                simp only [if_true]
                omega
            | false => simp [hcounts.2 hchosen]
          omega

/-! ### No task waits for another thread -/

/-- What follows the step of a task can be done, when no call runs on its lease. -/
theorem exists_follow
    {a : Assembly} (hruntime : a.runtime = some r) {j : Nat}
    (hget : r.leases.get? lease = some (some j)) (hfree : r.calls lease = none) (held : List Nat)
    (i : Nat) (t : Task) (releasedAtMs : Int64) (next : Option TaskPhase) :
  ∃ c', follow cfg launches idleTimeoutMs a held i lease t releasedAtMs next = some c'
  := by
  rw [follow.eq_def]
  split
  · simp [Assembly.step, hruntime, Runtime.step, Runtime.operate, Handles.Operation.objects, hfree,
      Handles.step, hget]
  · simp [Assembly.step, hruntime, Runtime.step, Runtime.call, hget, hfree]
  · exact ⟨_, rfl⟩

theorem exists_moveTask
    (hprocess : c.assembly.system.process = some p) (hruntime : c.assembly.runtime = some r)
    (ht : p.tasks[i]? = some t) (hlease : c.held[i]? = some lease) {j : Nat}
    (hget : r.leases.get? lease = some (some j)) (hfree : r.calls lease = none) {input : TaskInput}
    {moved : TaskStep}
    (hmoved : taskStep p.stop c.assembly.system.store c.assembly.system.files t input = some moved)
    (releasedAtMs : Int64) :
  ∃ c', moveTask cfg launches idleTimeoutMs c i input releasedAtMs = some c'
  := by
  have htask : c.task? i = some (p, t, lease) := by
    simp [task?, hprocess, ht, hlease]
  simp only [moveTask, htask, Option.bind_some, hmoved, Assembly.step, System.step, hprocess,
    System.attemptStep, ht, Option.map_some]
  apply exists_follow _ hget hfree
  exact hruntime

theorem exists_moveCall
    (hprocess : c.assembly.system.process = some p) (hruntime : c.assembly.runtime = some r)
    (ht : p.tasks[i]? = some t) (hlease : c.held[i]? = some lease) {content : Bytes}
    (hphase : t.phase = .executing content) {j : Nat}
    (hget : r.leases.get? lease = some (some j)) {call : Call} {phase : Phase}
    (hcall : r.calls lease = some (call, phase)) {input : Input} {result : Worker × Progress}
    (hstep : Execute.step call (r.pool.worker j) phase input = some result) (releasedAtMs : Int64) :
  ∃ c', moveCall cfg launches idleTimeoutMs c i input releasedAtMs = some c'
  := by
  obtain ⟨w, progress⟩ := result
  have htask : c.task? i = some (p, t, lease) := by
    simp [task?, hprocess, ht, hlease]
  have hprogress : progress? r lease input = some progress := by
    simp [progress?, hget, hcall, hstep]
  have hends : (∀ phase', progress ≠ .goesOn phase') → ∀ (input : TaskInput) {moved : TaskStep},
      taskStep p.stop c.assembly.system.store c.assembly.system.files t input = some moved →
      ∃ c', moveTask cfg launches idleTimeoutMs
        ⟨⟨c.assembly.system, some (r.progressed lease j call w progress)⟩, c.held⟩ i input releasedAtMs
        = some c' := by
    intro hnot input moved hmoved
    have hget' : (r.progressed lease j call w progress).leases.get? lease = some (some j) := by
      rw [Runtime.progressed_leases]
      exact hget
    exact exists_moveTask
      (c := ⟨⟨c.assembly.system, some (r.progressed lease j call w progress)⟩, c.held⟩) hprocess rfl ht
      hlease hget' (calls_progressed_self hnot) hmoved releasedAtMs
  simp only [moveCall, htask, Option.bind_some, hruntime, hprogress, Assembly.step, Runtime.step,
    Runtime.execute, hget, hcall, hstep, Option.map_some]
  cases progress with
  | goesOn phase' => exact ⟨_, rfl⟩
  | returned outcome => exact hends (by simp) (.outcome outcome) (by rw [taskStep, hphase])
  | threw what => exact hends (by simp) (.throw what) (by rw [taskStep, hphase])

/-- Whatever the other threads do, a task can make its next step. -/
theorem exists_step_of_task
    (hreach : (machine cfg launches idleTimeoutMs).Reachable c)
    (htask : c.task? i = some (p, t, lease)) (nowMs : Int64) :
  ∃ e c', e.place = some i ∧ e.whole = true ∧ (∀ j now faults releasedAtMs,
      e = .ask j now faults releasedAtMs → now = nowMs)
    ∧ c.step cfg launches idleTimeoutMs e = some c'
  := by
  obtain ⟨hprocess, ht, hlease⟩ := task?_eq_some htask
  obtain ⟨r, hruntime⟩ := exists_runtime (reachable_assembly hreach) hprocess
  obtain ⟨hheld, hcalling⟩ := (reachable_leased hreach).held p r hprocess hruntime
  obtain ⟨j, hget, -⟩ := hheld.refers i t lease ht hlease
  have hcalls := hcalling i t lease (by simp) ht hlease
  rw [Calls] at hcalls
  split at hcalls
  next content hphase =>
    obtain ⟨call, phase, hcall, -⟩ := hcalls
    cases hasks : Execute.asks phase with
    | true =>
        obtain ⟨result, hstep⟩ := Execute.step_answers call (r.pool.worker j) hasks p.stop
          ((cancelRequested t.work.id).exec [] c.assembly.system.store).1 nowMs
        obtain ⟨c', hmove⟩ : ∃ c', moveCall cfg launches idleTimeoutMs c i
            (answers c.assembly.system p t nowMs []) 0 = some c' :=
          exists_moveCall hprocess hruntime ht hlease hphase hget hcall hstep 0
        refine ⟨.ask i nowMs [] 0, c', rfl, rfl, ?_, ?_⟩
        · rintro _ _ _ _ ⟨⟩
          rfl
        · rw [step, htask, Option.bind_some]
          exact hmove
    | false =>
        obtain ⟨input, result, hinput, hstep⟩ := Execute.exists_step call (r.pool.worker j) hasks
        obtain ⟨c', hmove⟩ : ∃ c', moveCall cfg launches idleTimeoutMs c i input 0 = some c' :=
          exists_moveCall hprocess hruntime ht hlease hphase hget hcall hstep 0
        refine ⟨.execute i input 0, c', rfl, rfl, by simp, ?_⟩
        cases input with
        | answers stopping cancellation now => exact absurd rfl (hinput stopping cancellation now)
        | _ => exact hmove
  next hphase =>
    have hmoves : ∃ input moved, input.whole = true
        ∧ taskStep p.stop c.assembly.system.store c.assembly.system.files t input = some moved := by
      cases hcase : t.phase with
      | executing content => exact absurd hcase (hphase content)
      | moving payload => exact ⟨.throw [], _, rfl, by rw [taskStep, hcase]⟩
      | starting =>
          refine ⟨.proceed 0 [], ?_⟩
          simp only [taskStep, hcase]
          split_ifs <;> simp [TaskInput.whole]
      | writing payload =>
          refine ⟨.proceed 0 [], ?_⟩
          simp only [taskStep, hcase]
          split_ifs <;> simp [TaskInput.whole]
      | handling text =>
          refine ⟨.proceed 0 [], ?_⟩
          simp only [taskStep, hcase]
          split_ifs <;> simp [TaskInput.whole]
      | _ => exact ⟨.proceed 0 [], _, rfl, by rw [taskStep, hcase]⟩
    obtain ⟨input, moved, hwhole, hmoved⟩ := hmoves
    obtain ⟨c', hmove⟩ : ∃ c', moveTask cfg launches idleTimeoutMs c i input 0 = some c' :=
      exists_moveTask hprocess hruntime ht hlease hget hcalls hmoved 0
    refine ⟨.task i input 0, c', rfl, hwhole, by simp, ?_⟩
    cases hcase : t.phase with
    | executing content => exact absurd hcase (hphase content)
    | _ =>
        simp only [step, htask, Option.bind_some, hcase]
        exact hmove

/-! ### An attempt that is to end -/

/-- The attempt with a lease is to end when the clock reads a time: the Kernel stops, its Work is
cancelled, or its stop time is reached. -/
def Ending (c : Composite) (lease : Nat) (nowMs : Int64) : Prop :=
  ∀ (p : Process) (i : Nat) (t : Task), c.assembly.system.process = some p →
    p.tasks[i]? = some t → c.held[i]? = some lease → p.stop = true
      ∨ (∃ w, c.assembly.system.store.row? (bindText t.work.id) = some w ∧ w.cancelRequested = true)
      ∨ ∃ stopAt ∈ (stopTime t.work t.startedAtMs).1, stopAt ≤ nowMs

/-- No process starts, and the clock reads a time or a later one. -/
def After (nowMs : Int64) (_ : Composite) : Event → Prop
  | .system (.start _ _) => False
  | .ask _ now _ _ => nowMs ≤ now
  | _ => True

/-- The question whether a Work is cancelled is not answered with no when it is. -/
theorem cancelRequested_of_row
    {s : Store} {id : Bytes} {w : Row} (hrow : s.row? (bindText id) = some w)
    (hflag : w.cancelRequested = true) (faults : List (Option Bytes)) :
  ((cancelRequested id).exec faults s).1 ≠ .ok false
  := by
  rcases (cancelRequested_atomic id).exec_cases faults s with ⟨e, hexec⟩ | ⟨a, s', hexec, heval⟩
  · simp [hexec]
  · rw [cancelRequested, Session.eval_query, hrow] at heval
    cases heval
    simp [hexec, hflag]

theorem Ending.interrupted
    {nowMs : Int64} (h : c.Ending lease nowMs) {e : Event} (hafter : After nowMs c e)
    (hplace : e.place = some i) (hlease : c.held[i]? = some lease) :
  c.Interrupted e
  := by
  cases e with
  | ask j now faults releasedAtMs =>
      obtain rfl := Option.some.inj hplace
      intro p t lease' htask
      obtain ⟨hprocess, ht, hlease'⟩ := task?_eq_some htask
      rcases h p j t hprocess ht hlease with hstop | ⟨w, hrow, hflag⟩ | ⟨stopAt, hstopAt, hle⟩
      · exact Or.inl hstop
      · exact Or.inr (Or.inl (cancelRequested_of_row hrow hflag faults))
      · exact Or.inr (Or.inr ⟨stopAt, hstopAt, Int64.le_trans hle hafter⟩)
  | _ => trivial

/-- Only a start makes a process. -/
theorem Steps.exists_process
    (hreach : (Assembly.machine cfg launches idleTimeoutMs).Reachable c.assembly) {e : Event}
    (h : Steps cfg launches idleTimeoutMs c e c')
    (hstart : ∀ nowMs faults, e ≠ .system (.start nowMs faults)) :
  ∃ p r, c.assembly.system.process = some p ∧ c.assembly.runtime = some r
  := by
  have hprocess : ∃ p, c.assembly.system.process = some p := by
    cases h with
    | system hother ha =>
        obtain ⟨s', runtime, hs', -⟩ := Assembly.step_system ha
        apply Option.isSome_iff_exists.mp
        apply Assembly.process_of_step hs'
        rintro nowMs faults rfl
        exact hstart nowMs faults rfl
    | launch ha =>
        obtain ⟨engineId, r, s', hlaunching, -⟩ := Assembly.step_launch ha
        obtain ⟨p, hprocess, -⟩ := Option.bind_eq_some_iff.mp hlaunching
        exact ⟨p, hprocess⟩
    | task htask hphase hmove => exact ⟨_, (task?_eq_some htask).1⟩
    | ask htask hmove => exact ⟨_, (task?_eq_some htask).1⟩
    | execute hinput hmove =>
        obtain ⟨⟨p, t, lease⟩, htask, -⟩ := Option.bind_eq_some_iff.mp hmove
        exact ⟨p, (task?_eq_some htask).1⟩
    | runtime houtside ha =>
        obtain ⟨r, r', hr, -, -⟩ := Assembly.step_runtime ha
        have hsome := (Assembly.reachable_holds hreach).runtime
        rw [hr, Option.isSome_some] at hsome
        exact Option.isSome_iff_exists.mp hsome.symm
  obtain ⟨p, hprocess⟩ := hprocess
  obtain ⟨r, hruntime⟩ := exists_runtime hreach hprocess
  exact ⟨p, r, hprocess, hruntime⟩

/-- A request to cancel a Work stays. -/
theorem cancelled_of_run
    {a a' : Assembly} {es : List Assembly.Event} {id : CString}
    (hreach : (Assembly.machine cfg launches idleTimeoutMs).Reachable a)
    (hrun : (Assembly.machine cfg launches idleTimeoutMs).run a es = some a')
    (h : ∃ w, a.system.store.row? id = some w ∧ w.cancelRequested = true) :
  ∃ w, a'.system.store.row? id = some w ∧ w.cancelRequested = true
  := by
  refine (Machine.run_preserves (P := fun a =>
    (Assembly.machine cfg launches idleTimeoutMs).Reachable a
      ∧ ∃ w, a.system.store.row? id = some w ∧ w.cancelRequested = true) ?_ ⟨hreach, h⟩ hrun).2
  rintro a e a' ⟨hreach, w, hrow, hflag⟩ hstep
  refine ⟨hreach.step hstep, ?_⟩
  have hkept : ∀ {e : System.Event}, a.system.step cfg e = some a'.system →
      ∃ w, a'.system.store.row? id = some w ∧ w.cancelRequested = true := by
    intro e hs
    obtain ⟨w', hrow', hkept⟩ :=
      (reachable_step (Assembly.reachable_holds hreach).reachable hs).kept hrow
    exact ⟨w', hrow', hkept.cancelRequested hflag⟩
  change a.step cfg launches idleTimeoutMs e = some a' at hstep
  cases e with
  | system e =>
      obtain ⟨s', runtime, hs', rfl, -⟩ := Assembly.step_system hstep
      exact hkept hs'
  | launch nowMs faults spawn =>
      obtain ⟨engineId, r, s', -, -, hs', rfl⟩ := Assembly.step_launch hstep
      exact hkept hs'
  | runtime e =>
      obtain ⟨r, r', -, -, rfl⟩ := Assembly.step_runtime hstep
      exact ⟨w, hrow, hflag⟩

/-- A task that has the lease after a step had it before, with its Work and its start. -/
theorem Effect.task_before
    {e : Event} {condition : Prop} {held' : List Nat} (h : Effect c e condition p r p' held' r')
    (hheld : p.tasks.length = c.held.length) (hold : lease < r.leases.objects.length)
    (ht : p'.tasks[i]? = some t) (hlease : held'[i]? = some lease) :
  ∃ (j : Nat) (t₀ : Task), p.tasks[j]? = some t₀ ∧ c.held[j]? = some lease ∧ t.work = t₀.work
    ∧ t.startedAtMs = t₀.startedAtMs
  := by
  cases h with
  | kept hplace hstop htasks hheld' =>
      rw [htasks] at ht
      rw [hheld'] at hlease
      exact ⟨i, t, ht, hlease, rfl, rfl⟩
  | began hplace hstop hphase htasks hheld' =>
      rw [htasks] at ht
      rw [hheld'] at hlease
      by_cases hi : i < p.tasks.length
      · rw [List.getElem?_append_left hi] at ht
        rw [List.getElem?_append_left (by rw [← hheld]; exact hi)] at hlease
        exact ⟨i, t, ht, hlease, rfl, rfl⟩
      · rw [List.getElem?_append_right (by omega), List.getElem?_singleton] at hlease
        split_ifs at hlease
        obtain rfl := Option.some.inj hlease
        omega
  | @moved j lease₀ t₀ hplace ht₀ hlease₀ heffect =>
      have hj := (List.getElem?_eq_some_iff.mp ht₀).1
      cases heffect with
      | goesOn hstop htasks =>
          rw [htasks] at ht
          by_cases hji : j = i
          · subst hji
            rw [List.getElem?_set_self hj] at ht
            cases ht
            exact ⟨j, t₀, ht₀, hlease, rfl, rfl⟩
          · rw [List.getElem?_set_ne hji] at ht
            exact ⟨i, t, ht, hlease, rfl, rfl⟩
      | ends hstop htasks =>
          rw [htasks, getElem?_eraseIdx_source] at ht
          rw [getElem?_eraseIdx_source] at hlease
          exact ⟨_, t, ht, hlease, rfl, rfl⟩

/-- The effect of a step on the numbers of the leases and on the request to stop. -/
theorem Effect.grows
    {e : Event} {condition : Prop} {held' : List Nat} (h : Effect c e condition p r p' held' r') :
  r.leases.objects.length ≤ r'.leases.objects.length ∧ (p.stop = true → p'.stop = true)
  := by
  cases h with
  | kept hplace hstop htasks hheld' hcalls hobjects => exact ⟨hobjects.ge, hstop⟩
  | began hplace hstop hphase htasks hheld' hcalls hobjects => exact ⟨by omega, hstop⟩
  | moved hplace ht hlease heffect =>
      cases heffect with
      | goesOn hstop htasks hcalls hobjects => exact ⟨hobjects.ge, fun h => hstop.trans h⟩
      | ends hstop htasks hcalls hobjects => exact ⟨hobjects.ge, fun h => hstop.trans h⟩

/-- The lease is not a new one. -/
def Known (c : Composite) (lease : Nat) : Prop :=
  ∀ r ∈ c.assembly.runtime, lease < r.leases.objects.length

/-- An attempt that is to end stays so until it has ended. -/
theorem Ending.step
    (hreach : (machine cfg launches idleTimeoutMs).Reachable c) {nowMs : Int64}
    (h : c.Ending lease nowMs) (hknown : c.Known lease) {e : Event} (hafter : After nowMs c e)
    (hstep : c.step cfg launches idleTimeoutMs e = some c') :
  c'.Ending lease nowMs ∧ c'.Known lease
  := by
  have hreach' := reachable_assembly (hreach.step hstep)
  have hsteps := step_steps hstep
  obtain ⟨p, r, hprocess, hruntime⟩ := hsteps.exists_process (reachable_assembly hreach) (by
    rintro nowMs faults rfl
    exact hafter)
  have hleased := reachable_leased hreach
  obtain ⟨hheld, -⟩ := hleased.held p r hprocess hruntime
  have hlt := hknown r hruntime
  constructor
  · intro p' i t hprocess' ht hlease
    obtain ⟨r', hruntime'⟩ := exists_runtime hreach' hprocess'
    have heffect := hsteps.effect hleased hprocess hruntime hprocess' hruntime'
    obtain ⟨j, t₀, ht₀, hlease₀, hwork, hstarted⟩ :=
      heffect.task_before hheld.length hlt ht hlease
    rw [hwork, hstarted]
    rcases h p j t₀ hprocess ht₀ hlease₀ with hstop | hrow | htime
    · exact Or.inl (heffect.grows.2 hstop)
    · obtain ⟨es, hes⟩ := step_run hstep
      exact Or.inr (Or.inl (cancelled_of_run (reachable_assembly hreach) hes hrow))
    · exact Or.inr (Or.inr htime)
  · intro r' hruntime'
    have hsome := (Assembly.reachable_holds hreach').runtime
    rw [Option.mem_def.mp hruntime', Option.isSome_some] at hsome
    obtain ⟨p', hprocess'⟩ := Option.isSome_iff_exists.mp hsome.symm
    have heffect := hsteps.effect hleased hprocess hruntime hprocess' hruntime'
    exact hlt.trans_le heffect.grows.1

/-- What the chosen tasks of the process have left. -/
def leftOf (chosen : Nat → Bool) (c : Composite) : Nat :=
  match c.assembly.system.process, c.assembly.runtime with
  | some p, some r => left chosen p.tasks c.held r
  | _, _ => 0

theorem leftOf_eq
    (hprocess : c.assembly.system.process = some p) (hruntime : c.assembly.runtime = some r) :
  c.leftOf chosen = left chosen p.tasks c.held r
  := by
  rw [leftOf, hprocess, hruntime]

/-- What a single task has left. -/
theorem left_singleton
    (hnodup : held.Nodup) (ht : tasks[i]? = some t) (hlease : held[i]? = some lease) :
  left (· == lease) tasks held r = remaining r t lease
  := by
  have hnone : left (· == lease) (tasks.eraseIdx i) (held.eraseIdx i) r = 0 := by
    rw [left, List.sum_eq_zero_iff]
    intro n hn
    obtain ⟨j, hj⟩ := List.getElem?_of_mem hn
    rw [List.getElem?_zipWith] at hj
    split at hj
    next t' lease' ht' hlease' =>
      have hne := ne_of_mem_eraseIdx hnodup hlease (List.mem_of_getElem? hlease')
      obtain rfl := Option.some.inj hj
      simp [weight, hne]
    next => cases hj
  rw [left_eraseIdx ht hlease, hnone, weight]
  simp

/-- A task that moves does not end the process. -/
theorem Steps.place_of_gone
    (hleased : c.Leased) {e : Event} (h : Steps cfg launches idleTimeoutMs c e c')
    (hruntime : c.assembly.runtime = some r) (hgone : c'.assembly.system.process = none) :
  e.place = none
  := by
  have hmoved : ∀ {p : Process} {i : Nat} {t : Task} {lease : Nat} {condition : Prop} {cost : Nat},
      (∃ p' r', c'.assembly.system.process = some p' ∧ c'.assembly.runtime = some r'
        ∧ TaskEffect p c.held r i t lease condition cost p' c'.held r') → e.place = none := by
    rintro p i t lease condition cost ⟨p', r', hprocess', -⟩
    rw [hgone] at hprocess'
    cases hprocess'
  cases h with
  | task htask hphase hmove =>
      obtain ⟨hprocess, ht, hlease⟩ := task?_eq_some htask
      obtain ⟨-, hcalling⟩ := hleased.held _ r hprocess hruntime
      exact hmoved (moveTask_effect hprocess hruntime ht hlease (hcalling.free ht hphase hlease) hmove
        True)
  | ask htask hmove =>
      obtain ⟨hprocess, ht, hlease⟩ := task?_eq_some htask
      obtain ⟨-, hcalling⟩ := hleased.held _ r hprocess hruntime
      exact hmoved (moveCall_effect hprocess hruntime hcalling ht hlease hmove False.elim)
  | execute hinput hmove =>
      obtain ⟨⟨p, t, lease⟩, htask, -⟩ := Option.bind_eq_some_iff.mp hmove
      obtain ⟨hprocess, ht, hlease⟩ := task?_eq_some htask
      obtain ⟨-, hcalling⟩ := hleased.held _ r hprocess hruntime
      exact hmoved (moveCall_effect hprocess hruntime hcalling ht hlease hmove False.elim)
  | _ => rfl

/-- The number of tasks of the process. -/
def taskCount (c : Composite) : Nat :=
  c.assembly.system.process.elim 0 (·.tasks.length)

/-- A step of a chosen task takes what the chosen tasks have left down, as long as it is
interrupted; and only a new task with a chosen lease takes it up. -/
theorem leftOf_step
    (hreach : (machine cfg launches idleTimeoutMs).Reachable c) {e : Event}
    (hstep : c.step cfg launches idleTimeoutMs e = some c')
    (hstart : ∀ nowMs faults, e ≠ .system (.start nowMs faults))
    (hcondition : ∀ i lease, e.place = some i → c.held[i]? = some lease → chosen lease = true →
      c.Interrupted e) :
  ∃ r, c.assembly.runtime = some r
    ∧ c'.leftOf chosen + (c.counts chosen e).toNat ≤ c.leftOf chosen
      + (chosen r.leases.objects.length).toNat * (12 * (c'.taskCount - c.taskCount))
  := by
  have hsteps := step_steps hstep
  have hleased := reachable_leased hreach
  obtain ⟨p, r, hprocess, hruntime⟩ := hsteps.exists_process (reachable_assembly hreach) hstart
  obtain ⟨hheld, -⟩ := hleased.held p r hprocess hruntime
  use r, hruntime
  cases hprocess' : c'.assembly.system.process with
  | none =>
      have hplace := hsteps.place_of_gone hleased hruntime hprocess'
      simp [leftOf, hprocess', counts, hplace]
  | some p' =>
      obtain ⟨r', hruntime'⟩ := exists_runtime (reachable_assembly (hreach.step hstep)) hprocess'
      have heffect := hsteps.effect hleased hprocess hruntime hprocess' hruntime'
      rw [leftOf_eq hprocess hruntime, leftOf_eq hprocess' hruntime', taskCount, taskCount, hprocess,
        hprocess', Option.elim_some, Option.elim_some]
      exact heffect.left_le hheld.length hheld.nodup hcondition

/-- The task with a lease. -/
theorem exists_task_of_mem
    (hreach : (machine cfg launches idleTimeoutMs).Reachable c) (hmem : lease ∈ c.held) :
  ∃ i p t r, c.task? i = some (p, t, lease) ∧ c.assembly.runtime = some r
    ∧ c.leftOf (· == lease) = remaining r t lease
  := by
  obtain ⟨i, hi⟩ := List.getElem?_of_mem hmem
  have hleased := reachable_leased hreach
  cases hprocess : c.assembly.system.process with
  | none =>
      rw [hleased.gone hprocess] at hi
      cases hi
  | some p =>
      obtain ⟨r, hruntime⟩ := exists_runtime (reachable_assembly hreach) hprocess
      obtain ⟨hheld, -⟩ := hleased.held p r hprocess hruntime
      have hlt : i < p.tasks.length := by
        rw [hheld.length]
        exact (List.getElem?_eq_some_iff.mp hi).1
      have ht := List.getElem?_eq_getElem hlt
      refine ⟨i, p, p.tasks[i], r, ?_, hruntime, ?_⟩
      · simp [task?, hprocess, ht, hi]
      · rw [leftOf_eq hprocess hruntime, left_singleton hheld.nodup ht hi]

/-- An attempt that is to end makes at most thirteen more steps, whatever its worker and the other
threads do, and until it has ended its next step is possible. -/
theorem ending_attempt_ends
    (hreach : (machine cfg launches idleTimeoutMs).Reachable c) (hlease : lease ∈ c.held)
    {nowMs : Int64} (hending : c.Ending lease nowMs) {es : List Event}
    (hrun : (machine cfg launches idleTimeoutMs).run c es = some c')
    (hguard : (machine cfg launches idleTimeoutMs).Within (After nowMs) c es) :
  (machine cfg launches idleTimeoutMs).countSteps (counts (· == lease)) c es ≤ 13
    ∧ (lease ∈ c'.held →
      (machine cfg launches idleTimeoutMs).countSteps (counts (· == lease)) c es < 13
        ∧ ∃ e c'', c'.counts (· == lease) e = true ∧ After nowMs c' e
          ∧ c'.step cfg launches idleTimeoutMs e = some c'')
  := by
  obtain ⟨i, p, t, r, htask, hruntime, hleft⟩ := exists_task_of_mem hreach hlease
  have hknown : c.Known lease := by
    rintro r' hr'
    cases hruntime.symm.trans hr'
    obtain ⟨hprocess, ht, hi⟩ := task?_eq_some htask
    obtain ⟨hheld, -⟩ := (reachable_leased hreach).held p r hprocess hruntime
    obtain ⟨j, hget, -⟩ := hheld.refers i t lease ht hi
    exact (List.getElem?_eq_some_iff.mp (Handles.getElem?_of_get? hget)).1
  have hlower : ∀ {c c' : Composite} {e : Event},
      ((machine cfg launches idleTimeoutMs).Reachable c ∧ c.Ending lease nowMs ∧ c.Known lease) →
      After nowMs c e → (machine cfg launches idleTimeoutMs).step c e = some c' →
      ((machine cfg launches idleTimeoutMs).Reachable c' ∧ c'.Ending lease nowMs ∧ c'.Known lease)
        ∧ (c.counts (· == lease) e).toNat + c'.leftOf (· == lease) ≤ c.leftOf (· == lease) := by
    rintro c c' e ⟨hreach, hending, hknown⟩ hafter hstep
    refine ⟨⟨hreach.step hstep, hending.step hreach hknown hafter hstep⟩, ?_⟩
    have hstart : ∀ now faults, e ≠ .system (.start now faults) := by
      rintro now faults rfl
      exact hafter
    have hcondition : ∀ i lease', e.place = some i → c.held[i]? = some lease' →
        (lease' == lease) = true → c.Interrupted e := by
      intro i lease' hplace hlease' hchosen
      obtain rfl : lease' = lease := by simpa using hchosen
      exact hending.interrupted hafter hplace hlease'
    obtain ⟨r, hruntime, hle⟩ := leftOf_step hreach hstep hstart hcondition
    have hnew : (r.leases.objects.length == lease) = false := by
      simpa using (hknown r hruntime).ne'
    rw [hnew] at hle
    simp only [Bool.toNat_false, Nat.zero_mul] at hle
    omega
  obtain ⟨⟨hreach', -, -⟩, hcount⟩ :=
    hguard.countSteps_le (counts (· == lease)) _ hlower ⟨hreach, hending, hknown⟩ hrun
  have hle := TaskPhase.remaining_le ((r.calls lease).map Prod.snd) t.phase
  rw [hleft, remaining] at hcount
  constructor
  · omega
  · intro hmem
    obtain ⟨i', p', t', r', htask', hruntime', hleft'⟩ := exists_task_of_mem hreach' hmem
    have hpos := TaskPhase.remaining_pos ((r'.calls lease).map Prod.snd) t'.phase
    rw [hleft', remaining] at hcount
    constructor
    · omega
    · obtain ⟨e, c'', hplace, hwhole, hnow, hstep⟩ := exists_step_of_task hreach' htask' nowMs
      obtain ⟨-, -, hlease'⟩ := task?_eq_some htask'
      refine ⟨e, c'', ?_, ?_, hstep⟩
      · rw [counts, hwhole, hplace, Option.bind_some, hlease']
        simp
      · cases e with
        | system e => cases hplace
        | ask j now faults releasedAtMs =>
            rw [hnow j now faults releasedAtMs rfl]
            exact Int64.le_refl nowMs
        | _ => trivial

/-! ### A cancelled attempt -/

namespace Sample

/-- The launch of the worker of the sample engine. -/
def engineLaunches : SortedMap Bytes WorkerLaunchSpec :=
  SortedMap.ofEntries [(Bytes.ofString "e", ⟨Bytes.ofString "worker", []⟩)]

/-- A Work is dispatched, its task calls `execute`, and the Work is cancelled. -/
def cancelling : List Event :=
  ((Kernel.Sample.submitting (Kernel.Sample.frame .submit Kernel.Sample.fields "in")).map .system
      ++ List.replicate 4 (.system (.scheduler ⟨0, [], .ok ()⟩)))
    ++ [.launch 0 [] (.started 7 8 9 0), .task 0 (.proceed 0 []) 0,
      .system (.handler (.request (Kernel.Sample.connection (Kernel.Sample.request .cancel)) 0 (0, 0)
        []))]

/-- The request is encoded, and the task asks whether to go on. -/
def ending : List Event := [.execute 0 .probe 0, .ask 0 0 [] 0]

end Sample

/-- The task of a cancelled Work, which has yet to record its end. -/
theorem ending_attempt_ends_cancelled :
  ∃ c c', (machine Kernel.Sample.config Sample.engineLaunches 1000).Reachable c
    ∧ (machine Kernel.Sample.config Sample.engineLaunches 1000).run c Sample.ending = some c'
    ∧ c'.held = [0] ∧ (machine Kernel.Sample.config Sample.engineLaunches 1000).countSteps
      (counts (· == 0)) c Sample.ending < 13
  := by
  have hcheck : ((machine Kernel.Sample.config Sample.engineLaunches 1000).run
      ⟨⟨Kernel.Sample.start, none⟩, []⟩ Sample.cancelling).any (fun c => c.held = [0]
        && c.assembly.system.process.all (fun p => p.tasks.all fun t =>
          (c.assembly.system.store.row? (bindText t.work.id)).any (·.cancelRequested))
        && ((machine Kernel.Sample.config Sample.engineLaunches 1000).run c Sample.ending).any
          fun c' => c'.held = [0]) = true := by
    decide +kernel
  obtain ⟨c, hrun₀, hc⟩ := (Option.any_eq_true _ _).mp hcheck
  simp only [Bool.and_eq_true, decide_eq_true_eq] at hc
  obtain ⟨⟨hheld, hcancelled⟩, hc⟩ := hc
  obtain ⟨c', hrun, hheld'⟩ := (Option.any_eq_true _ _).mp hc
  have hreach : (machine Kernel.Sample.config Sample.engineLaunches 1000).Reachable c :=
    ⟨_, _, ⟨⟨rfl, rfl, rfl⟩, rfl, rfl⟩, hrun₀⟩
  have hending : c.Ending 0 0 := by
    intro p i t hprocess ht _
    rw [hprocess, Option.all_some, List.all_eq_true] at hcancelled
    exact Or.inr (Or.inl ((Option.any_eq_true _ _).mp (hcancelled t (List.mem_of_getElem? ht))))
  obtain ⟨-, hmem⟩ := ending_attempt_ends hreach (by simp [hheld]) hending hrun
    ⟨trivial, fun _ _ => ⟨Int64.le_refl 0, fun _ _ => trivial⟩⟩
  have hheld'' : c'.held = [0] := of_decide_eq_true hheld'
  exact ⟨c, c', hreach, hrun, hheld'', (hmem (by simp [hheld''])).1⟩

end Composite

end Kernel
