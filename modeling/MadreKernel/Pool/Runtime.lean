import MadreKernel.Lib.Handles
import MadreKernel.Lib.Machine
import MadreKernel.Pool.Execute
import MadreKernel.Pool.Operations

/-!
# The worker runtime

A `Runtime` is the worker pool with its `Lease` objects, the calls of `execute` that run on
them, and the outcomes of the calls that have ended.  Its steps are the operations of the pool,
the operations on leases, the acts of the worker processes, and the steps of the calls, in any
order.  A lease object is neither moved nor destroyed while a call runs on it.
-/

namespace Kernel

/-- The end of a call of `execute` that returned. -/
structure Ended where
  attempt : Nat
  correlationId : UInt64
  /-- the worker that the lease of the attempt refers to -/
  worker : Nat
  outcome : WorkerOutcome

/-- The correlation id of an attempt, as long as the counter does not wrap around. -/
def correlationOf (attempt : Nat) : UInt64 := UInt64.ofNat (attempt + 1)

structure Runtime where
  pool : Pool
  leases : Handles Nat
  /-- the calls that run, by the number of their lease object -/
  calls : Nat → Option (Call × Phase)
  nextWorkerCorrelation : UInt64
  /-- how many calls of `execute` there have been -/
  attempts : Nat
  ended : List Ended

namespace Runtime

inductive Event where
  | acquire (engineId : Bytes) (spawn : Spawn)
  /-- an operation on leases, and the time at which a worker that it gives up is released -/
  | lease (op : Handles.Operation) (nowMs : Int64)
  | isWarm (engineId : Bytes)
  | reapIdle (currentMs : Int64)
  | shutdown
  | act (worker : Nat) (a : Worker.Act)
  /-- `execute` is called on a lease object -/
  | call (lease : Nat) (payload : Bytes) (attemptStartedAtMs : Int64) (stopAtMs : Option Int64)
      (timeoutWins : Bool)
  | execute (lease : Nat) (input : Input)

/-- `acquire`: a new lease object, unless it throws. -/
def acquire (r : Runtime) (engineId : Bytes) (spawn : Spawn) : Runtime :=
  match r.pool.acquire engineId spawn with
  | (.ok i, pool) => { r with pool := pool, leases := r.leases.give i }
  | (.error _, pool) => { r with pool := pool }

/-- An operation on leases; the worker that it gives up is released. -/
def operate (r : Runtime) (op : Handles.Operation) (nowMs : Int64) : Option Runtime :=
  if op.objects.any fun i => (r.calls i).isSome then none
  else
    (r.leases.step op).map fun (leases, released) =>
      { r with
        leases := leases
        pool := match released with
          | some i => r.pool.release i nowMs
          | none => r.pool }

/-- The call of `execute` with the next correlation id. -/
def call (r : Runtime) (lease : Nat) (payload : Bytes) (attemptStartedAtMs : Int64)
    (stopAtMs : Option Int64) (timeoutWins : Bool) : Option Runtime :=
  match r.leases.get? lease, r.calls lease with
  | some (some _), none =>
      some
        { r with
          calls := Function.update r.calls lease (some
            (⟨r.attempts, payload, r.nextWorkerCorrelation, attemptStartedAtMs, stopAtMs,
              timeoutWins⟩, .entering))
          nextWorkerCorrelation := r.nextWorkerCorrelation + 1
          attempts := r.attempts + 1 }
  | _, _ => none

/-- The runtime after a step of the call on a lease object, which refers to worker `i`. -/
def progressed (r : Runtime) (lease i : Nat) (c : Call) (w : Worker) : Progress → Runtime
  | .goesOn phase =>
      { r with
        pool := r.pool.put i w
        calls := Function.update r.calls lease (some (c, phase)) }
  | .returned outcome =>
      { r with
        pool := r.pool.put i w
        calls := Function.update r.calls lease none
        ended := r.ended ++ [⟨c.attempt, c.correlationId, i, outcome⟩] }
  | .threw _ =>
      { r with
        pool := r.pool.put i w
        calls := Function.update r.calls lease none }

/-- A step of the call on a lease object. -/
def execute (r : Runtime) (lease : Nat) (input : Input) : Option Runtime :=
  match r.leases.get? lease, r.calls lease with
  | some (some i), some (c, phase) =>
      (Execute.step c (r.pool.worker i) phase input).map fun (w, progress) =>
        r.progressed lease i c w progress
  | _, _ => none

def step (r : Runtime) : Event → Option Runtime
  | .acquire engineId spawn => some (r.acquire engineId spawn)
  | .lease op nowMs => r.operate op nowMs
  | .isWarm engineId => some { r with pool := (r.pool.isWarm engineId).2 }
  | .reapIdle currentMs => some { r with pool := r.pool.reapIdle currentMs }
  | .shutdown => some { r with pool := r.pool.shutdown }
  | .act i a => ((r.pool.worker i).act a).map fun w => { r with pool := r.pool.put i w }
  | .call lease payload attemptStartedAtMs stopAtMs timeoutWins =>
      r.call lease payload attemptStartedAtMs stopAtMs timeoutWins
  | .execute lease input => r.execute lease input

/-- A runtime with a new pool. -/
def ofPool (pool : Pool) : Runtime := ⟨pool, .empty, fun _ => none, 1, 0, []⟩

def machine : Machine Runtime Event where
  init r := ∃ launchSpecs idleTimeoutMs pool,
    Pool.create launchSpecs idleTimeoutMs = .ok pool ∧ r = ofPool pool
  step := step

@[simp]
theorem progressed_pool (r : Runtime) (lease i : Nat) (c : Call) (w : Worker) (p : Progress) :
  (r.progressed lease i c w p).pool = r.pool.put i w
  := by
  cases p <;> rfl

@[simp]
theorem progressed_leases (r : Runtime) (lease i : Nat) (c : Call) (w : Worker) (p : Progress) :
  (r.progressed lease i c w p).leases = r.leases
  := by
  cases p <;> rfl

/-! ### What a step does -/

/-- Everything that a step of the runtime can do. -/
inductive Moves (r : Runtime) : Event → Runtime → Prop where
  /-- An operation of the pool that hands out no worker. -/
  | operated {e : Event} {pool : Pool} (hoperated : r.pool.Operated pool)
      (hcount : pool.count = r.pool.count)
      (huse : ∀ i, (r.pool.worker i).SameUse (pool.worker i)) :
      Moves r e { r with pool := pool }
  | acquired {engineId : Bytes} {spawn : Spawn} {i : Nat} {pool : Pool}
      (hoperated : r.pool.Operated pool) (hacquired : r.pool.Acquired engineId i pool) :
      Moves r (.acquire engineId spawn) { r with pool := pool, leases := r.leases.give i }
  | leased {op : Handles.Operation} {nowMs : Int64} {leases : Handles Nat}
      (hfree : ∀ lease ∈ op.objects, r.calls lease = none)
      (hstep : r.leases.step op = some (leases, none)) :
      Moves r (.lease op nowMs) { r with leases := leases }
  | released {op : Handles.Operation} {nowMs : Int64} {leases : Handles Nat} {i : Nat}
      (hfree : ∀ lease ∈ op.objects, r.calls lease = none)
      (hstep : r.leases.step op = some (leases, some i)) :
      Moves r (.lease op nowMs) { r with leases := leases, pool := r.pool.release i nowMs }
  | acted {i : Nat} {a : Worker.Act} {w : Worker} (hact : (r.pool.worker i).act a = some w) :
      Moves r (.act i a) { r with pool := r.pool.put i w }
  | called {lease i : Nat} {payload : Bytes} {attemptStartedAtMs : Int64}
      {stopAtMs : Option Int64} {timeoutWins : Bool}
      (hlease : r.leases.get? lease = some (some i)) (hfree : r.calls lease = none) :
      Moves r (.call lease payload attemptStartedAtMs stopAtMs timeoutWins)
        { r with
          calls := Function.update r.calls lease (some
            (⟨r.attempts, payload, r.nextWorkerCorrelation, attemptStartedAtMs, stopAtMs,
              timeoutWins⟩, .entering))
          nextWorkerCorrelation := r.nextWorkerCorrelation + 1
          attempts := r.attempts + 1 }
  | executed {lease i : Nat} {input : Input} {c : Call} {phase : Phase} {w : Worker}
      {progress : Progress} (hlease : r.leases.get? lease = some (some i))
      (hcall : r.calls lease = some (c, phase))
      (hmoves : Execute.Moves c (r.pool.worker i) phase input w progress) :
      Moves r (.execute lease input) (r.progressed lease i c w progress)

theorem operate_moves
    {r r' : Runtime} {op : Handles.Operation} {nowMs : Int64} (h : r.operate op nowMs = some r') :
  Moves r (.lease op nowMs) r'
  := by
  rw [operate] at h
  split_ifs at h with hbusy
  have hfree : ∀ lease ∈ op.objects, r.calls lease = none := by
    intro lease hlease
    rw [List.any_eq_true, not_exists] at hbusy
    have hnot := hbusy lease
    simpa [hlease] using hnot
  rw [Option.map_eq_some_iff] at h
  obtain ⟨⟨leases, released⟩, hstep, heq⟩ := h
  cases heq
  cases released with
  | none => exact Moves.leased hfree hstep
  | some i => exact Moves.released hfree hstep

theorem step_moves
    {r r' : Runtime} {e : Event} (hsound : r.pool.Sound) (h : r.step e = some r') :
  Moves r e r'
  := by
  cases e with
  | acquire engineId spawn =>
      cases h
      have hspec := Pool.acquire_spec hsound engineId spawn
      rw [acquire]
      split
      · rename_i i pool heq
        rw [heq] at hspec
        exact Moves.acquired hspec.1 hspec.2
      · rename_i what pool heq
        rw [heq] at hspec
        exact Moves.operated hspec.1 hspec.2.1 hspec.2.2
  | lease op nowMs => exact operate_moves h
  | isWarm engineId =>
      cases h
      exact Moves.operated (Pool.operated_isWarm r.pool engineId)
        (Pool.isWarm_count r.pool engineId) (Pool.isWarm_sameUse r.pool engineId)
  | reapIdle currentMs =>
      cases h
      exact Moves.operated (Pool.operated_reapIdle r.pool currentMs)
        (Pool.reapIdle_count r.pool currentMs) (Pool.reapIdle_sameUse r.pool currentMs)
  | shutdown =>
      cases h
      exact Moves.operated (Pool.operated_shutdown r.pool) rfl (Pool.shutdown_sameUse r.pool)
  | act i a =>
      rw [step, Option.map_eq_some_iff] at h
      obtain ⟨w, hact, rfl⟩ := h
      exact Moves.acted hact
  | call lease payload attemptStartedAtMs stopAtMs timeoutWins =>
      rw [step, call] at h
      split at h
      · rename_i i hlease hfree
        cases h
        exact Moves.called hlease hfree
      · cases h
  | execute lease input =>
      rw [step, execute] at h
      split at h
      · rename_i i c phase hlease hcall
        rw [Option.map_eq_some_iff] at h
        obtain ⟨⟨w, progress⟩, hstep, rfl⟩ := h
        exact Moves.executed hlease hcall (Execute.step_moves hstep)
      · cases h

/-- A step changes the pool, but no worker that is there becomes another one. -/
theorem Moves.changed {r r' : Runtime} {e : Event} (h : Moves r e r') :
  r.pool.Changed r'.pool
  := by
  cases h with
  | operated hoperated => exact hoperated.changed
  | acquired hoperated => exact hoperated.changed
  | leased => exact (Pool.Operated.refl r.pool).changed
  | released => exact (Pool.operated_release ..).changed
  | acted hact => exact Pool.changed_put (Worker.act_later hact).1
  | called => exact (Pool.Operated.refl r.pool).changed
  | executed _ _ hmoves =>
      rw [progressed_pool]
      exact Pool.changed_put hmoves.later.1

/-- Only `acquire` starts a worker. -/
theorem Moves.count
    {r r' : Runtime} {e : Event} (h : Moves r e r')
    (hnot : ∀ engineId spawn, e ≠ .acquire engineId spawn) :
  r'.pool.count = r.pool.count
  := by
  cases h with
  | operated _ hcount => exact hcount
  | acquired => exact absurd rfl (hnot _ _)
  | leased => rfl
  | released => apply Pool.release_count
  | acted => rfl
  | called => rfl
  | executed =>
      rw [progressed_pool]
      rfl

end Runtime

end Kernel
