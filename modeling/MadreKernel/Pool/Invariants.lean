import MadreKernel.Pool.Exclusivity

/-!
# A rule for invariants of workers

A property of the workers on which no call runs, and a property of the workers on which one
does: when the steps of the pool, of the processes and of the calls keep them, they hold of
every worker.  The rule rests on the leases being exclusive, since at most one call runs on a
worker then.
-/

namespace Kernel

namespace Runtime

/-- `Idle` holds of the workers on which no call runs, and `Busy` of those on which one does. -/
structure Workers (Idle : Worker → Prop) (Busy : Call → Phase → Worker → Prop) (r : Runtime) :
    Prop where
  idle : ∀ i < r.pool.count, (∀ lease, r.leases.get? lease = some (some i) → r.calls lease = none) →
    Idle (r.pool.worker i)
  busy : ∀ lease i c phase, r.leases.get? lease = some (some i) →
    r.calls lease = some (c, phase) → Busy c phase (r.pool.worker i)

/-- What the steps must keep, when the processes do what `Acts` says and the answers to the calls
are `Allowed`. -/
structure WorkerRule (Idle : Worker → Prop) (Busy : Call → Phase → Worker → Prop)
    (Acts : Worker → Worker.Act → Prop) (Allowed : Phase → Input → Prop) : Prop where
  spawned : ∀ launch engineId pid inputFd outputFd nowMs,
    Idle { Worker.spawn launch engineId pid inputFd outputFd nowMs with busy := true }
  idle_handled : ∀ {w w'}, Idle w → w.Handled w' → Idle w'
  busy_handled : ∀ {c phase w w'}, Busy c phase w → w.Handled w' → Busy c phase w'
  idle_act : ∀ {w w' a}, Idle w → Acts w a → w.act a = some w' → Idle w'
  busy_act : ∀ {c phase w w' a}, Busy c phase w → Acts w a → w.act a = some w' → Busy c phase w'
  called : ∀ {c w}, Idle w → c.correlationId = correlationOf c.attempt → Busy c .entering w
  goesOn : ∀ {c w phase input w' phase'}, Busy c phase w → Allowed phase input →
    Execute.Moves c w phase input w' (.goesOn phase') → Busy c phase' w'
  returned : ∀ {c w phase input w' outcome}, Busy c phase w → Allowed phase input →
    Execute.Moves c w phase input w' (.returned outcome) → Idle w'
  threw : ∀ {c w phase input w' what}, Busy c phase w → Allowed phase input →
    Execute.Moves c w phase input w' (.threw what) → Idle w'

/-- What an event lets a process do and answers to a call is allowed. -/
def Allows (Acts : Worker → Worker.Act → Prop) (Allowed : Phase → Input → Prop) (r : Runtime) :
    Event → Prop
  | .act i a => Acts (r.pool.worker i) a
  | .execute lease input => ∀ c phase, r.calls lease = some (c, phase) → Allowed phase input
  | _ => True

/-- A process does anything. -/
abbrev AnyAct (_ : Worker) (_ : Worker.Act) : Prop := True

/-- A call gets any answer. -/
abbrev AnyAnswer (_ : Phase) (_ : Input) : Prop := True

variable {Idle : Worker → Prop} {Busy : Call → Phase → Worker → Prop}
  {Acts : Worker → Worker.Act → Prop} {Allowed : Phase → Input → Prop}

theorem allows_any (r : Runtime) (e : Event) :
  r.Allows AnyAct AnyAnswer e
  := by
  cases e with
  | execute lease input => exact fun _ _ _ => trivial
  | _ => trivial

/-- The leases on which a call runs are the same after an operation on other leases. -/
theorem Exclusive.get?_of_call
    {r : Runtime} {leases : Handles Nat} (h : r.Exclusive)
    (hkeeps : ∀ lease i, (∃ call, r.calls lease = some call) →
      r.leases.get? lease = some (some i) → leases.get? lease = some (some i))
    {lease i : Nat} {call : Call × Phase} (hcall : r.calls lease = some call) :
  leases.get? lease = some (some i) ↔ r.leases.get? lease = some (some i)
  := by
  constructor
  · intro hget
    obtain ⟨j, hj⟩ := h.leased lease call hcall
    have hnew := hkeeps lease j ⟨call, hcall⟩ hj
    cases hget.symm.trans hnew
    exact hj
  · exact hkeeps lease i ⟨call, hcall⟩

theorem get?_of_step
    {r : Runtime} {op : Handles.Operation} {leases : Handles Nat} {given : Option Nat}
    (hfree : ∀ lease ∈ op.objects, r.calls lease = none)
    (hstep : r.leases.step op = some (leases, given)) (lease i : Nat)
    (hcall : ∃ call, r.calls lease = some call) (hget : r.leases.get? lease = some (some i)) :
  leases.get? lease = some (some i)
  := by
  apply Handles.step_get? hstep _ hget
  intro hmem
  obtain ⟨call, hcall⟩ := hcall
  rw [hfree lease hmem] at hcall
  cases hcall

/-- The leases change, but not those on which a call runs. -/
theorem Workers.leases
    {r : Runtime} {leases : Handles Nat} (h : r.Workers Idle Busy) (hexclusive : r.Exclusive)
    (hkeeps : ∀ lease i, (∃ call, r.calls lease = some call) →
      r.leases.get? lease = some (some i) → leases.get? lease = some (some i)) :
  Workers Idle Busy { r with leases := leases }
  := by
  constructor
  · intro i hi hfree
    apply h.idle i hi
    intro lease hget
    cases hcall : r.calls lease with
    | none => rfl
    | some call =>
        have hnone := hfree lease (hkeeps lease i ⟨call, hcall⟩ hget)
        rw [hcall] at hnone
        cases hnone
  · intro lease i c phase hget hcall
    exact h.busy lease i c phase ((hexclusive.get?_of_call hkeeps hcall).mp hget) hcall

/-- The pool is operated on. -/
theorem Workers.operated
    {r : Runtime} {pool : Pool} (rule : WorkerRule Idle Busy Acts Allowed) (h : r.Workers Idle Busy)
    (hexclusive : r.Exclusive) (hoperated : r.pool.Operated pool)
    (hcount : pool.count = r.pool.count) :
  Workers Idle Busy { r with pool := pool }
  := by
  constructor
  · intro i hi hfree
    have hlt : i < r.pool.count := by
      rw [← hcount]
      exact hi
    exact rule.idle_handled (h.idle i hlt hfree) (hoperated.handled i hlt)
  · intro lease i c phase hget hcall
    have hlt := hexclusive.constructed i (Handles.mem_owned_iff.mpr ⟨lease, hget⟩)
    exact rule.busy_handled (h.busy lease i c phase hget hcall) (hoperated.handled i hlt)

/-- `acquire` hands out a worker. -/
theorem Workers.acquired
    {r : Runtime} {engineId : Bytes} {i : Nat} {pool : Pool} (rule : WorkerRule Idle Busy Acts Allowed)
    (h : r.Workers Idle Busy) (hexclusive : r.Exclusive) (hoperated : r.pool.Operated pool)
    (hacquired : r.pool.Acquired engineId i pool) :
  Workers Idle Busy { r with pool := pool, leases := r.leases.give i }
  := by
  have hleases : Workers Idle Busy { r with leases := r.leases.give i } := by
    apply h.leases hexclusive
    exact fun lease j _ hget => Handles.get?_give_of_get? hget i
  constructor
  · intro j hj hfree
    by_cases hlt : j < r.pool.count
    · exact rule.idle_handled (hleases.idle j hlt hfree) (hoperated.handled j hlt)
    · simp only at hj
      rcases hacquired.source with ⟨-, -, -, hcount, -⟩ | ⟨hnew, hcount, launch, _, _, _, _, hw⟩
      · omega
      · have hji : j = i := by omega
        simp only [hji, hw]
        apply rule.spawned
  · intro lease j c phase hget hcall
    have hold := (hexclusive.get?_of_call
      (fun lease j _ hget => Handles.get?_give_of_get? hget i) hcall).mp hget
    have hlt := hexclusive.constructed j (Handles.mem_owned_iff.mpr ⟨lease, hold⟩)
    exact rule.busy_handled (h.busy lease j c phase hold hcall) (hoperated.handled j hlt)

theorem Workers.acted
    {r : Runtime} {i : Nat} {a : Worker.Act} {w : Worker} (rule : WorkerRule Idle Busy Acts Allowed)
    (h : r.Workers Idle Busy) (hacts : Acts (r.pool.worker i) a)
    (hact : (r.pool.worker i).act a = some w) :
  Workers Idle Busy { r with pool := r.pool.put i w }
  := by
  constructor
  · intro j hj hfree
    by_cases hji : j = i
    · subst hji
      simp only [Pool.put, Function.update_self]
      exact rule.idle_act (h.idle j hj hfree) hacts hact
    · simp only [Pool.put, Function.update_of_ne hji]
      exact h.idle j hj hfree
  · intro lease j c phase hget hcall
    by_cases hji : j = i
    · subst hji
      simp only [Pool.put, Function.update_self]
      exact rule.busy_act (h.busy lease j c phase hget hcall) hacts hact
    · simp only [Pool.put, Function.update_of_ne hji]
      exact h.busy lease j c phase hget hcall

/-- `execute` is called. -/
theorem Workers.called
    {r : Runtime} {lease i : Nat} {c : Call} (rule : WorkerRule Idle Busy Acts Allowed)
    (h : r.Workers Idle Busy) (hexclusive : r.Exclusive)
    (hlease : r.leases.get? lease = some (some i)) (hfree : r.calls lease = none)
    (hc : c.correlationId = correlationOf c.attempt) (correlation : UInt64) (attempts : Nat) :
  Workers Idle Busy
    { r with
      calls := Function.update r.calls lease (some (c, .entering))
      nextWorkerCorrelation := correlation
      attempts := attempts }
  := by
  constructor
  · intro j hj hnone
    apply h.idle j hj
    intro lease' hget
    by_cases hsame : lease' = lease
    · rw [hsame]
      exact hfree
    · have hnone' := hnone lease' hget
      simp only [Function.update_of_ne hsame] at hnone'
      exact hnone'
  · intro lease' j c' phase hget hcall
    by_cases hsame : lease' = lease
    · subst hsame
      simp only [Function.update_self, Option.some_inj, Prod.mk.injEq] at hcall
      obtain ⟨rfl, rfl⟩ := hcall
      cases hget.symm.trans hlease
      apply rule.called _ hc
      apply h.idle i (hexclusive.constructed i (Handles.mem_owned_iff.mpr ⟨lease', hlease⟩))
      intro lease'' hget''
      rw [Handles.get?_inj hexclusive.nodup hget'' hlease]
      exact hfree
    · simp only [Function.update_of_ne hsame] at hcall
      exact h.busy lease' j c' phase hget hcall

/-- A call has made a step. -/
theorem Workers.progressed
    {r : Runtime} {lease i : Nat} {c : Call} {w : Worker} {progress : Progress}
    (h : r.Workers Idle Busy) (hexclusive : r.Exclusive)
    (hlease : r.leases.get? lease = some (some i))
    (hnext : match progress with
      | .goesOn phase => Busy c phase w
      | .returned _ => Idle w
      | .threw _ => Idle w) :
  Workers Idle Busy (r.progressed lease i c w progress)
  := by
  have hother : ∀ lease' j, r.leases.get? lease' = some (some j) → j ≠ i → lease' ≠ lease := by
    rintro lease' j hget hne rfl
    cases hget.symm.trans hlease
    exact hne rfl
  constructor
  · intro j hj hfree
    simp only [progressed_pool, progressed_leases] at hj hfree ⊢
    by_cases hji : j = i
    · subst hji
      simp only [Pool.put, Function.update_self]
      cases progress with
      | goesOn phase =>
          have hnone := hfree lease hlease
          simp [Runtime.progressed] at hnone
      | returned outcome => exact hnext
      | threw what => exact hnext
    · simp only [Pool.put, Function.update_of_ne hji]
      apply h.idle j hj
      intro lease' hget
      have hnone := hfree lease' hget
      have hne := hother lease' j hget hji
      cases progress <;> simpa [Runtime.progressed, Function.update_of_ne hne] using hnone
  · intro lease' j c' phase hget hcall
    simp only [progressed_pool, progressed_leases] at hget ⊢
    by_cases hji : j = i
    · subst hji
      cases Handles.get?_inj hexclusive.nodup hget hlease
      simp only [Pool.put, Function.update_self]
      cases progress with
      | goesOn phase' =>
          simp only [Runtime.progressed, Function.update_self, Option.some_inj,
            Prod.mk.injEq] at hcall
          obtain ⟨rfl, rfl⟩ := hcall
          exact hnext
      | returned outcome => simp [Runtime.progressed] at hcall
      | threw what => simp [Runtime.progressed] at hcall
    · simp only [Pool.put, Function.update_of_ne hji]
      apply h.busy lease' j c' phase hget
      have hne := hother lease' j hget hji
      cases progress <;> simpa [Runtime.progressed, Function.update_of_ne hne] using hcall

/-- A step whose answer is allowed keeps what the rule says of the workers. -/
theorem WorkerRule.moves
    {r r' : Runtime} {e : Event} (rule : WorkerRule Idle Busy Acts Allowed) (hexclusive : r.Exclusive)
    (hnext : r.nextWorkerCorrelation = correlationOf r.attempts) (h : r.Workers Idle Busy)
    (hallows : r.Allows Acts Allowed e) (hmoves : Moves r e r') :
  r'.Workers Idle Busy
  := by
  cases hmoves with
  | operated hoperated hcount => exact h.operated rule hexclusive hoperated hcount
  | acquired hoperated hacquired => exact h.acquired rule hexclusive hoperated hacquired
  | leased hfree hstep => exact h.leases hexclusive (get?_of_step hfree hstep)
  | released hfree hstep =>
      rename_i op nowMs leases i
      have hleases := h.leases hexclusive (get?_of_step hfree hstep)
      apply hleases.operated rule (hexclusive.leases hfree hstep).1
        (Pool.operated_release r.pool i nowMs)
      apply Pool.release_count
  | acted hact => exact h.acted rule hallows hact
  | called hlease hfree => exact h.called rule hexclusive hlease hfree hnext _ _
  | executed hlease hcall hmoves =>
      rename_i lease i input c phase w progress
      have hbusy := h.busy lease i c phase hlease hcall
      have hallowed := hallows c phase hcall
      apply h.progressed hexclusive hlease
      cases progress with
      | goesOn phase' => exact rule.goesOn hbusy hallowed hmoves
      | returned outcome => exact rule.returned hbusy hallowed hmoves
      | threw what => exact rule.threw hbusy hallowed hmoves

theorem workers_init {r : Runtime} (h : machine.init r) :
  r.Workers Idle Busy
  := by
  obtain ⟨launchSpecs, idleTimeoutMs, pool, hcreate, rfl⟩ := h
  constructor
  · intro i hi
    have hcount := (Pool.sound_create hcreate).2.1
    simp only [ofPool, hcount] at hi
    exact absurd hi (Nat.not_lt_zero i)
  · intro lease i c phase hget hcall
    cases hcall

end Runtime

end Kernel
