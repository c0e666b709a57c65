import MadreKernel.Kernel.TaskLeases

/-!
# Every attempt task has its lease

In every run of the Kernel with its workers, whatever the workers and the clients do, each attempt
task has the lease of a worker of the engine that is recorded with the attempt, no two tasks have
the same lease, and a call runs on the lease of a task exactly while the task is in `execute`.
-/

namespace Kernel

variable {cfg : Config} {launches : SortedMap Bytes WorkerLaunchSpec} {idleTimeoutMs : Int64}

namespace Assembly

variable {a : Assembly} {r : Runtime}

theorem reachable_next
    {a' : Assembly} {e : Event} (h : (machine cfg launches idleTimeoutMs).Reachable a)
    (hstep : a.step cfg launches idleTimeoutMs e = some a') :
  (machine cfg launches idleTimeoutMs).Reachable a'
  := h.step hstep

/-- The runtime of a process has run by itself. -/
theorem reachable_runtime
    (h : (machine cfg launches idleTimeoutMs).Reachable a) (hr : r ∈ a.runtime) :
  Runtime.machine.Reachable r
  := by
  refine Machine.Reachable.invariant
    (P := fun a => ∀ r ∈ a.runtime, Runtime.machine.Reachable r) ?_ ?_ h r hr
  · rintro a ⟨-, hnone⟩ r hr
    rw [hnone] at hr
    cases hr
  · intro a e a' _ hreach hstep r hr
    change a.step cfg launches idleTimeoutMs e = some a' at hstep
    cases e with
    | system e =>
        obtain ⟨s', runtime, -, rfl, hruntime, -⟩ := step_system hstep
        rcases hruntime with rfl | ⟨-, pool, hpool, rfl⟩
        · exact hreach r (mem_moved hr)
        · cases mem_moved hr
          exact ⟨_, [], ⟨launches, idleTimeoutMs, pool, hpool, rfl⟩, rfl⟩
    | launch nowMs faults spawn =>
        obtain ⟨engineId, r₀, s', -, hr₀, -, rfl⟩ := step_launch hstep
        cases mem_moved hr
        exact (hreach r₀ hr₀).step (e := .acquire engineId spawn) rfl
    | runtime e =>
        obtain ⟨r₀, r₁, hr₀, hr₁, rfl⟩ := step_runtime hstep
        cases hr
        exact (hreach r₀ hr₀).step hr₁

theorem reachable_exclusive
    (h : (machine cfg launches idleTimeoutMs).Reachable a) (hr : r ∈ a.runtime) :
  r.Exclusive
  := Runtime.exclusive_of_reachable (reachable_runtime h hr)

end Assembly

namespace Runtime

variable {r : Runtime} {engineId : Bytes} {spawn : Spawn}

theorem acquire_of_ok {i : Nat} (h : (r.pool.acquire engineId spawn).1 = .ok i) :
  r.acquire engineId spawn
    = { r with pool := (r.pool.acquire engineId spawn).2, leases := r.leases.give i }
  := by
  rw [acquire]
  split
  next j pool heq =>
    rw [heq] at h ⊢
    cases h
    rfl
  next what pool heq =>
    rw [heq] at h
    cases h

theorem acquire_of_error {what : Bytes} (h : (r.pool.acquire engineId spawn).1 = .error what) :
  r.acquire engineId spawn = { r with pool := (r.pool.acquire engineId spawn).2 }
  := by
  rw [acquire]
  split
  next j pool heq =>
    rw [heq] at h
    cases h
  next what pool heq => rw [heq]

end Runtime

namespace Composite

variable {s s' : System} {p p' : Process} {c c' : Composite}

/-! ### The machine as a run of the system and the runtime -/

theorem run_of_step
    {a a' : Assembly} {e : Assembly.Event} (h : a.step cfg launches idleTimeoutMs e = some a')
    (es : List Assembly.Event) :
  (Assembly.machine cfg launches idleTimeoutMs).run a (e :: es)
    = (Assembly.machine cfg launches idleTimeoutMs).run a' es
  := Machine.run_of_step (m := Assembly.machine cfg launches idleTimeoutMs) h es

theorem follow_run
    {a : Assembly} {held : List Nat} {i lease : Nat} {t : Task} {releasedAtMs : Int64}
    {next : Option TaskPhase}
    (h : follow cfg launches idleTimeoutMs a held i lease t releasedAtMs next = some c') :
  ∃ es, (Assembly.machine cfg launches idleTimeoutMs).run a es = some c'.assembly
  := by
  rw [follow.eq_def] at h
  split at h
  · obtain ⟨a', ha', rfl⟩ := Option.map_eq_some_iff.mp h
    exact ⟨[_], run_of_step ha' []⟩
  · obtain ⟨a', ha', rfl⟩ := Option.map_eq_some_iff.mp h
    exact ⟨[_], run_of_step ha' []⟩
  · cases h
    exact ⟨[], rfl⟩

theorem moveTask_run
    {i : Nat} {input : TaskInput} {releasedAtMs : Int64}
    (h : moveTask cfg launches idleTimeoutMs c i input releasedAtMs = some c') :
  ∃ es, (Assembly.machine cfg launches idleTimeoutMs).run c.assembly es = some c'.assembly
  := by
  obtain ⟨⟨p, t, lease⟩, -, h⟩ := Option.bind_eq_some_iff.mp h
  obtain ⟨moved, -, h⟩ := Option.bind_eq_some_iff.mp h
  obtain ⟨a, ha, h⟩ := Option.bind_eq_some_iff.mp h
  obtain ⟨es, hes⟩ := follow_run h
  exact ⟨_ :: es, (run_of_step ha es).trans hes⟩

theorem moveCall_run
    {i : Nat} {input : Input} {releasedAtMs : Int64}
    (h : moveCall cfg launches idleTimeoutMs c i input releasedAtMs = some c') :
  ∃ es, (Assembly.machine cfg launches idleTimeoutMs).run c.assembly es = some c'.assembly
  := by
  obtain ⟨⟨p, t, lease⟩, -, h⟩ := Option.bind_eq_some_iff.mp h
  obtain ⟨r, -, h⟩ := Option.bind_eq_some_iff.mp h
  obtain ⟨progress, -, h⟩ := Option.bind_eq_some_iff.mp h
  obtain ⟨a, ha, h⟩ := Option.bind_eq_some_iff.mp h
  have hrest : ∃ es, (Assembly.machine cfg launches idleTimeoutMs).run a es = some c'.assembly := by
    cases progress with
    | goesOn phase =>
        cases h
        exact ⟨[], rfl⟩
    | returned outcome => exact moveTask_run h
    | threw what => exact moveTask_run h
  obtain ⟨es, hes⟩ := hrest
  exact ⟨_ :: es, (run_of_step ha es).trans hes⟩

/-- Each step is a run of the system and the runtime side by side. -/
theorem step_run
    {e : Event} (h : c.step cfg launches idleTimeoutMs e = some c') :
  ∃ es, (Assembly.machine cfg launches idleTimeoutMs).run c.assembly es = some c'.assembly
  := by
  have hone : ∀ {e : Assembly.Event} {a : Assembly},
      c.assembly.step cfg launches idleTimeoutMs e = some a →
      ∃ es, (Assembly.machine cfg launches idleTimeoutMs).run c.assembly es = some a :=
    fun ha => ⟨[_], run_of_step ha []⟩
  cases e with
  | system e =>
      cases e with
      | task i input => cases h
      | _ =>
          obtain ⟨a, ha, rfl⟩ := Option.map_eq_some_iff.mp h
          exact hone ha
  | launch nowMs faults spawn =>
      obtain ⟨a, ha, rfl⟩ := Option.map_eq_some_iff.mp h
      exact hone ha
  | task i input releasedAtMs =>
      obtain ⟨⟨p, t, lease⟩, -, h⟩ := Option.bind_eq_some_iff.mp h
      simp only at h
      split at h
      · cases h
      · exact moveTask_run h
  | ask i nowMs faults releasedAtMs =>
      obtain ⟨⟨p, t, lease⟩, -, h⟩ := Option.bind_eq_some_iff.mp h
      exact moveCall_run h
  | execute i input releasedAtMs =>
      cases input with
      | answers => cases h
      | _ => exact moveCall_run h
  | runtime e =>
      simp only [step] at h
      split_ifs at h
      obtain ⟨a, ha, rfl⟩ := Option.map_eq_some_iff.mp h
      exact hone ha

/-- What holds in every run of the system and the runtime holds here. -/
theorem reachable_assembly (h : (machine cfg launches idleTimeoutMs).Reachable c) :
  (Assembly.machine cfg launches idleTimeoutMs).Reachable c.assembly
  := by
  refine Machine.Reachable.invariant
    (P := fun c => (Assembly.machine cfg launches idleTimeoutMs).Reachable c.assembly) ?_ ?_ h
  · rintro c ⟨hinit, hnone, -⟩
    exact ⟨c.assembly, [], ⟨hinit, hnone⟩, rfl⟩
  · intro c e c' _ hreach hstep
    obtain ⟨es, hes⟩ := step_run hstep
    exact hreach.run hes

/-! ### What every run keeps -/

structure Leased (c : Composite) : Prop where
  gone : c.assembly.system.process = none → c.held = []
  held : ∀ p r, c.assembly.system.process = some p → c.assembly.runtime = some r →
    Held r c.assembly.system.store p.tasks c.held ∧ Calling r p.tasks c.held none

theorem task?_eq_some
    {i : Nat} {p : Process} {t : Task} {lease : Nat} (h : c.task? i = some (p, t, lease)) :
  c.assembly.system.process = some p ∧ p.tasks[i]? = some t ∧ c.held[i]? = some lease
  := by
  obtain ⟨p', hprocess, h⟩ := Option.bind_eq_some_iff.mp h
  obtain ⟨t', ht, h⟩ := Option.bind_eq_some_iff.mp h
  obtain ⟨lease', hlease, h⟩ := Option.map_eq_some_iff.mp h
  cases h
  exact ⟨hprocess, ht, hlease⟩

/-- The system after the step of a task. -/
theorem step_task
    {i : Nat} {t : Task} {input : TaskInput} {moved : TaskStep} (hprocess : s.process = some p)
    (ht : p.tasks[i]? = some t) (hmoved : taskStep p.stop s.store s.files t input = some moved)
    (h : s.step cfg (.task i input) = some s') :
  s'.process = some (System.nextTasks p i t moved.next)
    ∧ s'.history.accepted = s.history.accepted ++ System.acceptedPayload t input
  := by
  simp only [System.step, hprocess, System.attemptStep, ht, hmoved, Option.map_some,
    Option.some.injEq] at h
  subst h
  exact ⟨rfl, rfl⟩

/-- The step of a task on whose lease no call runs. -/
theorem moveTask_leased
    (hreach : (Assembly.machine cfg launches idleTimeoutMs).Reachable c.assembly) {p : Process}
    {r : Runtime} (hprocess : c.assembly.system.process = some p)
    (hruntime : c.assembly.runtime = some r) {i : Nat} {input : TaskInput} {releasedAtMs : Int64}
    (hheld : Held r c.assembly.system.store p.tasks c.held)
    (hcalling : Calling r p.tasks c.held (some i))
    (hfree : ∀ lease, c.held[i]? = some lease → r.calls lease = none)
    (hmove : moveTask cfg launches idleTimeoutMs c i input releasedAtMs = some c') :
  c'.Leased
  := by
  obtain ⟨⟨p', t, lease⟩, htask, hmove⟩ := Option.bind_eq_some_iff.mp hmove
  obtain ⟨hprocess', ht, hlease⟩ := task?_eq_some htask
  obtain rfl := Option.some.inj (hprocess.symm.trans hprocess')
  obtain ⟨moved, hmoved, hmove⟩ := Option.bind_eq_some_iff.mp hmove
  obtain ⟨a, ha, hmove⟩ := Option.bind_eq_some_iff.mp hmove
  obtain ⟨s', runtime, hs', rfl, hr, -⟩ := Assembly.step_system ha
  obtain ⟨hprocess₁, -⟩ := step_task hprocess ht hmoved hs'
  have hledger := reachable_step (Assembly.reachable_holds hreach).reachable hs'
  have hruntime₁ : (Assembly.moved runtime s').runtime = some r := by
    have hsome : s'.process.isSome = true := by
      rw [hprocess₁]
      rfl
    rw [Assembly.moved, if_pos hsome]
    rcases hr with rfl | ⟨hnone, -⟩
    · exact hruntime
    · rw [hprocess] at hnone
      cases hnone
  have hheld₁ := hheld.stored hledger
  have hexclusive := Assembly.reachable_exclusive hreach hruntime
  have hlt := (List.getElem?_eq_some_iff.mp ht).1
  cases hnext : moved.next with
  | none =>
      rw [hnext] at hmove hprocess₁
      obtain ⟨a', ha', rfl⟩ := Option.map_eq_some_iff.mp hmove
      obtain ⟨r₁, r₂, hr₁, hr₂, rfl⟩ := Assembly.step_runtime ha'
      cases hruntime₁.symm.trans hr₁
      have hmoves := Runtime.step_moves hexclusive.sound hr₂
      constructor
      · intro hnone
        cases hprocess₁.symm.trans hnone
      · rintro p₂ r₃ hp₂ ⟨⟩
        cases hprocess₁.symm.trans hp₂
        constructor
        · apply (hheld₁.ends hlt).runtime hexclusive hmoves
          intro lease' hmem
          simpa [Runtime.Event.Spares, Handles.Operation.objects] using
            ne_of_mem_eraseIdx hheld.nodup hlease hmem
        · exact hcalling.ends.runtime hmoves fun _ _ _ _ => trivial
  | some phase =>
      rw [hnext] at hmove hprocess₁
      by_cases hexecuting : ∃ input, phase = .executing input
      · obtain ⟨content, rfl⟩ := hexecuting
        obtain ⟨a', ha', rfl⟩ := Option.map_eq_some_iff.mp hmove
        obtain ⟨r₁, r₂, hr₁, hr₂, rfl⟩ := Assembly.step_runtime ha'
        cases hruntime₁.symm.trans hr₁
        have hmoves := Runtime.step_moves hexclusive.sound hr₂
        constructor
        · intro hnone
          cases hprocess₁.symm.trans hnone
        · rintro p₂ r₃ hp₂ ⟨⟩
          cases hprocess₁.symm.trans hp₂
          constructor
          · exact (hheld₁.goesOn ht _).runtime hexclusive hmoves fun _ _ => trivial
          · apply (hcalling.runtime hmoves _).goesOn ht
            · intro lease' hlease'
              obtain rfl := Option.some.inj (hlease.symm.trans hlease')
              rw [Runtime.step, Runtime.call] at hr₂
              split at hr₂
              · cases hr₂
                exact ⟨_, _, Function.update_self .., rfl, rfl, rfl⟩
              · cases hr₂
            · intro j lease' hj hlease'
              exact (hheld.ne hlease hlease' (by simpa using hj)).symm
      · have hfollow : follow cfg launches idleTimeoutMs (Assembly.moved runtime s') c.held i lease t
            releasedAtMs (some phase) = some ⟨Assembly.moved runtime s', c.held⟩ := by
          cases phase with
          | executing content => exact absurd ⟨content, rfl⟩ hexecuting
          | _ => rfl
        rw [hfollow] at hmove
        cases hmove
        constructor
        · intro hnone
          cases hprocess₁.symm.trans hnone
        · intro p₂ r₃ hp₂ hr₃
          cases hruntime₁.symm.trans hr₃
          cases hprocess₁.symm.trans hp₂
          refine ⟨hheld₁.goesOn ht phase, hcalling.goesOn ht ?_⟩
          intro lease' hlease'
          rw [Calls]
          cases phase with
          | executing content => exact absurd ⟨content, rfl⟩ hexecuting
          | _ => exact hfree lease' hlease'

theorem progress?_eq_some
    {r : Runtime} {lease : Nat} {input : Input} {progress : Progress}
    (h : progress? r lease input = some progress) :
  ∃ i call phase w, r.leases.get? lease = some (some i) ∧ r.calls lease = some (call, phase)
    ∧ Execute.step call (r.pool.worker i) phase input = some (w, progress)
  := by
  rw [progress?] at h
  split at h
  next i call phase hlease hcall =>
    obtain ⟨⟨w, progress'⟩, hstep, rfl⟩ := Option.map_eq_some_iff.mp h
    exact ⟨i, call, phase, w, hlease, hcall, hstep⟩
  next => cases h

/-- After a step of the call on a lease, no call runs on it unless it goes on. -/
theorem calls_progressed_self
    {r : Runtime} {lease j : Nat} {call : Call} {w : Worker} {progress : Progress}
    (hnot : ∀ phase, progress ≠ .goesOn phase) :
  (r.progressed lease j call w progress).calls lease = none
  := by
  cases progress with
  | goesOn phase => exact absurd rfl (hnot phase)
  | returned outcome => apply Function.update_self
  | threw what => apply Function.update_self

theorem moveCall_leased
    (hreach : (Assembly.machine cfg launches idleTimeoutMs).Reachable c.assembly) (h : c.Leased)
    {i : Nat} {input : Input} {releasedAtMs : Int64}
    (hmove : moveCall cfg launches idleTimeoutMs c i input releasedAtMs = some c') :
  c'.Leased
  := by
  obtain ⟨⟨p, t, lease⟩, htask, hmove⟩ := Option.bind_eq_some_iff.mp hmove
  obtain ⟨hprocess, ht, hheld⟩ := task?_eq_some htask
  obtain ⟨r, hruntime, hmove⟩ := Option.bind_eq_some_iff.mp hmove
  obtain ⟨progress, hprogress, hmove⟩ := Option.bind_eq_some_iff.mp hmove
  obtain ⟨a, ha, hmove⟩ := Option.bind_eq_some_iff.mp hmove
  obtain ⟨j, call, phase, w, hlease, hcall, hstep⟩ := progress?_eq_some hprogress
  have hreach₁ := Assembly.reachable_next hreach ha
  obtain ⟨r', r₁, hr', hr₁, rfl⟩ := Assembly.step_runtime ha
  obtain rfl := Option.some.inj (hruntime.symm.trans hr')
  have hexclusive := Assembly.reachable_exclusive hreach hruntime
  have hmoves := Runtime.step_moves hexclusive.sound hr₁
  obtain ⟨hleases, hcalling⟩ := h.held p r hprocess hruntime
  have hleases₁ := hleases.runtime hexclusive hmoves fun _ _ => trivial
  have hcalling₁ : Calling r₁ p.tasks c.held (some i) := by
    apply Calling.runtime _ hmoves
    · intro k lease' hk hlease'
      exact (hleases.ne hheld hlease' (by simpa using hk)).symm
    · intro k t' lease' _ ht' hlease'
      exact hcalling k t' lease' (by simp) ht' hlease'
  have hr₁' : r₁ = r.progressed lease j call w progress := by
    rw [Runtime.step, Runtime.execute, hlease, hcall] at hr₁
    simp only [hstep, Option.map_some, Option.some.injEq] at hr₁
    exact hr₁.symm
  have hfinished : (∀ phase', progress ≠ .goesOn phase') → ∀ lease', c.held[i]? = some lease' →
      r₁.calls lease' = none := by
    intro hnot lease' hlease'
    obtain rfl := Option.some.inj (hheld.symm.trans hlease')
    rw [hr₁']
    exact calls_progressed_self hnot
  cases progress with
  | goesOn phase' =>
      cases hmove
      refine ⟨h.gone, ?_⟩
      rintro p' r'' hp' ⟨⟩
      obtain rfl := Option.some.inj (hprocess.symm.trans hp')
      refine ⟨hleases₁, ?_⟩
      intro k t' lease' _ ht' hlease'
      by_cases hk : k = i
      · subst hk
        obtain rfl := Option.some.inj (ht.symm.trans ht')
        obtain rfl := Option.some.inj (hheld.symm.trans hlease')
        have hcalls := hcalling k t lease (by simp) ht hheld
        rw [Calls] at hcalls ⊢
        split at hcalls
        next content hphase =>
          obtain ⟨call', phase'', hcall', hrest⟩ := hcalls
          cases hcall.symm.trans hcall'
          rw [hr₁']
          exact ⟨call, phase', Function.update_self .., hrest⟩
        next =>
          rw [hcall] at hcalls
          cases hcalls
      · exact hcalling₁ k t' lease' (by simpa using hk) ht' hlease'
  | returned outcome =>
      exact moveTask_leased (c := ⟨⟨c.assembly.system, some r₁⟩, c.held⟩) hreach₁ hprocess rfl
        hleases₁ hcalling₁ (hfinished (by simp)) hmove
  | threw what =>
      exact moveTask_leased (c := ⟨⟨c.assembly.system, some r₁⟩, c.held⟩) hreach₁ hprocess rfl
        hleases₁ hcalling₁ (hfinished (by simp)) hmove

/-- The lease object that `acquire` adds refers to the worker that it hands out. -/
theorem get?_give {α : Type} (h : Handles α) (a : α) :
  (h.give a).get? h.objects.length = some (some a)
  := by
  rw [Handles.get?, Handles.give, List.getElem?_concat_length]
  rfl

/-- A step of another thread than a task, without `acquire`. -/
theorem Leased.system
    (hreach : (Assembly.machine cfg launches idleTimeoutMs).Reachable c.assembly) (h : c.Leased)
    {e : System.Event} {a : Assembly} (hother : ∀ i input, e ≠ .task i input)
    (hstep : c.assembly.step cfg launches idleTimeoutMs (.system e) = some a) :
  Leased ⟨a, if a.system.process.isSome then c.held else []⟩
  := by
  obtain ⟨s', runtime, hs', rfl, hruntime, hlaunching⟩ := Assembly.step_system hstep
  have hsystem := (Assembly.reachable_holds hreach).reachable
  obtain ⟨-, htasks⟩ := step_other hs' hother hlaunching
  constructor
  · intro hnone
    have hsome : s'.process = none := hnone
    simp [Assembly.moved, hsome]
  · intro p' r hp' hr
    have hprocess' : s'.process = some p' := hp'
    have hmem : r ∈ runtime := Assembly.mem_moved hr
    simp only [Assembly.moved, hprocess', Option.isSome_some, if_true]
    rcases htasks p' hprocess' with ⟨p, hprocess, hsame⟩ | ⟨hnone, hempty⟩
    · rcases hruntime with rfl | ⟨hnone, -⟩
      · obtain ⟨hheld, hcalling⟩ := h.held p r hprocess hmem
        rw [hsame]
        exact ⟨hheld.stored (reachable_step hsystem hs'), hcalling⟩
      · rw [hprocess] at hnone
        cases hnone
    · rw [hempty, h.gone hnone]
      exact ⟨.empty, .empty⟩

/-- `acquire`, and the task that starts with its lease. -/
theorem Leased.launch
    (hreach : (Assembly.machine cfg launches idleTimeoutMs).Reachable c.assembly) (h : c.Leased)
    {nowMs : Int64} {faults : List (Option Bytes)} {spawn : Spawn} {a : Assembly}
    (hstep : c.assembly.step cfg launches idleTimeoutMs (.launch nowMs faults spawn) = some a) :
  Leased ⟨a, if a.system.process.isSome then c.held ++ acquired c.assembly spawn else []⟩
  := by
  obtain ⟨engineId, r, s', hlaunching, hruntime, hs', rfl⟩ := Assembly.step_launch hstep
  have hsystem := (Assembly.reachable_holds hreach).reachable
  have hledger := reachable_step hsystem hs'
  obtain ⟨p, hprocess, hengine⟩ := Option.bind_eq_some_iff.mp hlaunching
  split at hengine
  next work selection number startedAtMs hphase =>
    obtain rfl := Option.some.inj hengine
    obtain ⟨-, htasks⟩ := step_launching hprocess hphase hs'
    have hexclusive := Assembly.reachable_exclusive hreach hruntime
    have hmoves : Runtime.Moves r (.acquire selection.engine.id spawn)
        (r.acquire selection.engine.id spawn) := Runtime.step_moves hexclusive.sound rfl
    obtain ⟨hheld, hcalling⟩ := h.held p r hprocess hruntime
    have hheld₁ := (hheld.runtime hexclusive hmoves fun _ _ => trivial).stored hledger
    have hcalling₁ := hcalling.runtime hmoves fun _ _ _ _ => trivial
    constructor
    · intro hnone
      have hsome : s'.process = none := hnone
      simp [Assembly.moved, hsome]
    · intro p' r' hp' hr'
      have hprocess' : s'.process = some p' := hp'
      cases Assembly.mem_moved hr'
      simp only [Assembly.moved, hprocess', Option.isSome_some, if_true]
      obtain ⟨hok, herror⟩ := htasks p' hprocess'
      rw [acquired, hlaunching, hruntime]
      cases hacquire : (r.pool.acquire selection.engine.id spawn).1 with
      | error what =>
          rw [herror what (by rw [hacquire]; rfl)]
          simp only [hacquire, List.append_nil]
          exact ⟨hheld₁, hcalling₁⟩
      | ok i =>
          rw [hok (by rw [hacquire]; rfl)]
          simp only [hacquire]
          have hgot := Runtime.acquired_of_ok hexclusive.sound hacquire
          have hnew := Runtime.acquire_of_ok hacquire
          have hrefers : Refers (r.acquire selection.engine.id spawn) s'.store
              ⟨work, number, startedAtMs, selection.engine.resources, .starting⟩
              r.leases.objects.length := by
            refine ⟨i, ?_, ?_⟩
            · rw [hnew]
              exact get?_give _ _
            · rw [hnew]
              change Started s'.store (bindText work.id) number _ startedAtMs
              rw [hgot.engine]
              exact (reachable_begun hsystem p work selection number startedAtMs hprocess
                hphase).step hledger
          have hfree : r.leases.get? r.leases.objects.length = none := by
            rw [Handles.get?, List.getElem?_eq_none le_rfl]
            rfl
          constructor
          · apply hheld₁.starts hrefers
            intro hmem
            obtain ⟨k, hk⟩ := List.getElem?_of_mem hmem
            have hlt : k < p.tasks.length := by
              rw [hheld.length]
              exact (List.getElem?_eq_some_iff.mp hk).1
            obtain ⟨j, hget, -⟩ := hheld.refers k _ _ (List.getElem?_eq_getElem hlt) hk
            rw [hfree] at hget
            cases hget
          · apply hcalling₁.starts hheld.length
            change (r.acquire selection.engine.id spawn).calls _ = none
            rw [hnew]
            cases hcalls : r.calls r.leases.objects.length with
            | none => rfl
            | some call =>
                obtain ⟨j, hget⟩ := hexclusive.leased _ _ hcalls
                rw [hfree] at hget
                cases hget
  next => cases hengine

/-- The workers and the pool move. -/
theorem Leased.outside
    (hreach : (Assembly.machine cfg launches idleTimeoutMs).Reachable c.assembly) (h : c.Leased)
    {e : Runtime.Event} {a : Assembly} (houtside : outside c.assembly.system e = true)
    (hstep : c.assembly.step cfg launches idleTimeoutMs (.runtime e) = some a) :
  Leased ⟨a, c.held⟩
  := by
  obtain ⟨r, r', hr, hr', rfl⟩ := Assembly.step_runtime hstep
  have hexclusive := Assembly.reachable_exclusive hreach hr
  have hmoves := Runtime.step_moves hexclusive.sound hr'
  refine ⟨h.gone, ?_⟩
  rintro p r'' hprocess ⟨⟩
  obtain ⟨hheld, hcalling⟩ := h.held p r hprocess hr
  constructor
  · apply hheld.runtime hexclusive hmoves
    intro lease _
    cases e with
    | lease op nowMs => cases houtside
    | _ => trivial
  · apply hcalling.runtime hmoves
    intro i lease _ _
    cases e with
    | call => cases houtside
    | execute => cases houtside
    | _ => trivial

/-- What a step of the machine is: one of another thread than a task, of `acquire`, of a task that is
not in `execute`, of the call of a task, or of the workers and the pool. -/
inductive Steps (cfg : Config) (launches : SortedMap Bytes WorkerLaunchSpec) (idleTimeoutMs : Int64)
    (c : Composite) : Event → Composite → Prop where
  | system {e : System.Event} {a : Assembly} (hother : ∀ i input, e ≠ .task i input)
      (hstep : c.assembly.step cfg launches idleTimeoutMs (.system e) = some a) :
      Steps cfg launches idleTimeoutMs c (.system e)
        ⟨a, if a.system.process.isSome then c.held else []⟩
  | launch {nowMs : Int64} {faults : List (Option Bytes)} {spawn : Spawn} {a : Assembly}
      (hstep : c.assembly.step cfg launches idleTimeoutMs (.launch nowMs faults spawn) = some a) :
      Steps cfg launches idleTimeoutMs c (.launch nowMs faults spawn)
        ⟨a, if a.system.process.isSome then c.held ++ acquired c.assembly spawn else []⟩
  | task {i lease : Nat} {input : TaskInput} {releasedAtMs : Int64} {p : Process} {t : Task}
      {c' : Composite} (htask : c.task? i = some (p, t, lease))
      (hphase : ∀ content, t.phase ≠ .executing content)
      (hmove : moveTask cfg launches idleTimeoutMs c i input releasedAtMs = some c') :
      Steps cfg launches idleTimeoutMs c (.task i input releasedAtMs) c'
  | ask {i lease : Nat} {nowMs : Int64} {faults : List (Option Bytes)} {releasedAtMs : Int64}
      {p : Process} {t : Task} {c' : Composite} (htask : c.task? i = some (p, t, lease))
      (hmove : moveCall cfg launches idleTimeoutMs c i (answers c.assembly.system p t nowMs faults)
        releasedAtMs = some c') :
      Steps cfg launches idleTimeoutMs c (.ask i nowMs faults releasedAtMs) c'
  | execute {i : Nat} {input : Input} {releasedAtMs : Int64} {c' : Composite}
      (hinput : ∀ stopping cancellation nowMs, input ≠ .answers stopping cancellation nowMs)
      (hmove : moveCall cfg launches idleTimeoutMs c i input releasedAtMs = some c') :
      Steps cfg launches idleTimeoutMs c (.execute i input releasedAtMs) c'
  | runtime {e : Runtime.Event} {a : Assembly} (houtside : outside c.assembly.system e = true)
      (hstep : c.assembly.step cfg launches idleTimeoutMs (.runtime e) = some a) :
      Steps cfg launches idleTimeoutMs c (.runtime e) ⟨a, c.held⟩

theorem step_steps {e : Event} (h : c.step cfg launches idleTimeoutMs e = some c') :
  Steps cfg launches idleTimeoutMs c e c'
  := by
  cases e with
  | system e =>
      have hother : ∀ i input, e ≠ .task i input := by
        rintro i input rfl
        cases h
      have hmap : (c.assembly.step cfg launches idleTimeoutMs (.system e)).map (fun a =>
          (⟨a, if a.system.process.isSome then c.held else []⟩ : Composite)) = some c' := by
        cases e with
        | task i input => exact absurd rfl (hother i input)
        | _ => exact h
      obtain ⟨a, ha, rfl⟩ := Option.map_eq_some_iff.mp hmap
      exact .system hother ha
  | launch nowMs faults spawn =>
      obtain ⟨a, ha, rfl⟩ := Option.map_eq_some_iff.mp h
      exact .launch ha
  | task i input releasedAtMs =>
      obtain ⟨⟨p, t, lease⟩, htask, h⟩ := Option.bind_eq_some_iff.mp h
      simp only at h
      split at h
      next => cases h
      next hphase => exact .task htask hphase h
  | ask i nowMs faults releasedAtMs =>
      obtain ⟨⟨p, t, lease⟩, htask, h⟩ := Option.bind_eq_some_iff.mp h
      exact .ask htask h
  | execute i input releasedAtMs =>
      cases input with
      | answers => cases h
      | _ => exact .execute (by simp) h
  | runtime e =>
      simp only [step] at h
      split_ifs at h with houtside
      obtain ⟨a, ha, rfl⟩ := Option.map_eq_some_iff.mp h
      exact .runtime houtside ha

/-- A process comes with a runtime. -/
theorem exists_runtime
    (hreach : (Assembly.machine cfg launches idleTimeoutMs).Reachable c.assembly)
    (hprocess : c.assembly.system.process = some p) :
  ∃ r, c.assembly.runtime = some r
  := by
  have hsome := (Assembly.reachable_holds hreach).runtime
  rw [hprocess, Option.isSome_some] at hsome
  exact Option.isSome_iff_exists.mp hsome

/-- No call runs on the lease of a task that is not in `execute`. -/
theorem Calling.free
    {r : Runtime} {tasks : List Task} {held : List Nat} (h : Calling r tasks held none) {i lease : Nat}
    {t : Task} (ht : tasks[i]? = some t) (hphase : ∀ content, t.phase ≠ .executing content)
    (hlease : held[i]? = some lease) :
  r.calls lease = none
  := by
  have hcalls := h i t lease (by simp) ht hlease
  rw [Calls] at hcalls
  split at hcalls
  next content hexecuting => exact absurd hexecuting (hphase content)
  next => exact hcalls

theorem Leased.step
    (hreach : (Assembly.machine cfg launches idleTimeoutMs).Reachable c.assembly) (h : c.Leased)
    {e : Event} (hstep : Steps cfg launches idleTimeoutMs c e c') :
  c'.Leased
  := by
  cases hstep with
  | system hother ha => exact h.system hreach hother ha
  | launch ha => exact h.launch hreach ha
  | @task i lease input releasedAtMs p t c' htask hphase hmove =>
      obtain ⟨hprocess, ht, hlease⟩ := task?_eq_some htask
      obtain ⟨r, hruntime⟩ := exists_runtime hreach hprocess
      obtain ⟨hheld, hcalling⟩ := h.held p r hprocess hruntime
      apply moveTask_leased hreach hprocess hruntime hheld _ _ hmove
      · intro k t' lease' _ ht' hlease'
        exact hcalling k t' lease' (by simp) ht' hlease'
      · intro lease' hlease'
        exact hcalling.free ht hphase hlease'
  | ask htask hmove => exact moveCall_leased hreach h hmove
  | execute hinput hmove => exact moveCall_leased hreach h hmove
  | runtime houtside ha => exact h.outside hreach houtside ha

theorem reachable_leased (h : (machine cfg launches idleTimeoutMs).Reachable c) :
  c.Leased
  := by
  apply h.invariant
  · rintro c ⟨-, hnone, hempty⟩
    refine ⟨fun _ => hempty, ?_⟩
    intro p r _ hr
    rw [hnone] at hr
    cases hr
  · intro c e c' hreach hleased hstep
    exact hleased.step (reachable_assembly hreach) (step_steps hstep)

end Composite

end Kernel
