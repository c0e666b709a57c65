import MadreKernel.Kernel.Configuration
import MadreKernel.Pool.Timeout

/-!
# The Kernel with its workers

The system and the worker runtime of its process, put together.  The scheduler moves the lease that
it acquires into the attempt task that it starts.  The task calls `execute` on its lease with the
input that it has read, `execute` asks the store and the process whether the Work is cancelled and
whether the Kernel stops, and the task goes on with the outcome.  A task that ends destroys its
lease.

Each step of this machine is a run of the system and the runtime side by side, so that what holds in
every run of theirs holds here.
-/

namespace Kernel

open WorkStore

/-- The system and the runtime, and the lease objects of the attempt tasks, in their order.  The
moves between the object that `acquire` returns and the one that a task has are left out. -/
structure Composite where
  assembly : Assembly
  held : List Nat

namespace Composite

inductive Event where
  /-- A thread other than a task moves, and `acquire` is not called. -/
  | system (e : System.Event)
  /-- The scheduler acquires a worker for the attempt that has begun. -/
  | launch (nowMs : Int64) (faults : List (Option Bytes)) (spawn : Spawn)
  /-- A task moves that is not in `execute`. -/
  | task (i : Nat) (input : TaskInput) (releasedAtMs : Int64)
  /-- A task asks in `execute` whether to go on: the clock, and the faults of the store call. -/
  | ask (i : Nat) (nowMs : Int64) (faults : List (Option Bytes)) (releasedAtMs : Int64)
  /-- A task makes another step in `execute`. -/
  | execute (i : Nat) (input : Input) (releasedAtMs : Int64)
  /-- The workers and the pool move. -/
  | runtime (e : Runtime.Event)

/-- What a step of the call on a lease object comes to. -/
def progress? (r : Runtime) (lease : Nat) (input : Input) : Option Progress :=
  match r.leases.get? lease, r.calls lease with
  | some (some i), some (c, phase) => (Execute.step c (r.pool.worker i) phase input).map Prod.snd
  | _, _ => none

/-- The lease object that `acquire` returns. -/
def acquired (a : Assembly) (spawn : Spawn) : List Nat :=
  match Assembly.launching? a.system, a.runtime with
  | some engineId, some r =>
      match (r.pool.acquire engineId spawn).1 with
      | .ok _ => [r.leases.objects.length]
      | .error _ => []
  | _, _ => []

/-- The events of the runtime that are no calls of the scheduler or of a task.  The pool is shut
down when the scheduler and the tasks are gone. -/
def outside (s : System) : Runtime.Event → Bool
  | .act _ _ | .isWarm _ | .reapIdle _ => true
  | .shutdown => s.process.any fun p => p.tasks.isEmpty && match p.scheduler with
      | .left => true
      | _ => false
  | _ => false

/-- The task at a place, with its lease object. -/
def task? (c : Composite) (i : Nat) : Option (Process × Task × Nat) :=
  c.assembly.system.process.bind fun p => p.tasks[i]?.bind fun t => c.held[i]?.map fun lease =>
    (p, t, lease)

variable (cfg : Config) (launches : SortedMap Bytes WorkerLaunchSpec) (idleTimeoutMs : Int64)

/-- After the step of a task: a task that has ended destroys its lease, and one that has read its
input calls `execute`. -/
def follow (a : Assembly) (held : List Nat) (i lease : Nat) (t : Task) (releasedAtMs : Int64) :
    Option TaskPhase → Option Composite
  | none =>
      (a.step cfg launches idleTimeoutMs (.runtime (.lease (.destroy lease) releasedAtMs))).map
        fun a => ⟨a, held.eraseIdx i⟩
  | some (.executing input) =>
      (a.step cfg launches idleTimeoutMs (.runtime (.call lease input t.startedAtMs
        (stopTime t.work t.startedAtMs).1 (stopTime t.work t.startedAtMs).2))).map fun a => ⟨a, held⟩
  | some _ => some ⟨a, held⟩

/-- A step of the task at a place. -/
def moveTask (c : Composite) (i : Nat) (input : TaskInput) (releasedAtMs : Int64) :
    Option Composite :=
  (c.task? i).bind fun (p, t, lease) =>
    (taskStep p.stop c.assembly.system.store c.assembly.system.files t input).bind fun moved =>
      (c.assembly.step cfg launches idleTimeoutMs (.system (.task i input))).bind fun a =>
        follow cfg launches idleTimeoutMs a c.held i lease t releasedAtMs moved.next

/-- A step of the call of the task at a place. -/
def moveCall (c : Composite) (i : Nat) (input : Input) (releasedAtMs : Int64) : Option Composite :=
  (c.task? i).bind fun (_, _, lease) => c.assembly.runtime.bind fun r =>
    (progress? r lease input).bind fun progress =>
      (c.assembly.step cfg launches idleTimeoutMs (.runtime (.execute lease input))).bind fun a =>
        match progress with
        | .goesOn _ => some ⟨a, c.held⟩
        | .returned outcome =>
            moveTask cfg launches idleTimeoutMs ⟨a, c.held⟩ i (.outcome outcome) releasedAtMs
        | .threw what =>
            moveTask cfg launches idleTimeoutMs ⟨a, c.held⟩ i (.throw what) releasedAtMs

/-- The answers of `kernel_stopping`, `cancellation_requested` and `now_ms` to a task. -/
def answers (s : System) (p : Process) (t : Task) (nowMs : Int64) (faults : List (Option Bytes)) :
    Input :=
  .answers p.stop ((cancelRequested t.work.id).exec faults s.store).1 nowMs

def step (c : Composite) : Event → Option Composite
  | .system (.task _ _) => none
  | .system e =>
      (c.assembly.step cfg launches idleTimeoutMs (.system e)).map fun a =>
        ⟨a, if a.system.process.isSome then c.held else []⟩
  | .launch nowMs faults spawn =>
      (c.assembly.step cfg launches idleTimeoutMs (.launch nowMs faults spawn)).map fun a =>
        ⟨a, if a.system.process.isSome then c.held ++ acquired c.assembly spawn else []⟩
  | .task i input releasedAtMs =>
      (c.task? i).bind fun (_, t, _) =>
        match t.phase with
        | .executing _ => none
        | _ => moveTask cfg launches idleTimeoutMs c i input releasedAtMs
  | .ask i nowMs faults releasedAtMs =>
      (c.task? i).bind fun (p, t, _) =>
        moveCall cfg launches idleTimeoutMs c i (answers c.assembly.system p t nowMs faults)
          releasedAtMs
  | .execute i input releasedAtMs =>
      match input with
      | .answers _ _ _ => none
      | _ => moveCall cfg launches idleTimeoutMs c i input releasedAtMs
  | .runtime e =>
      if outside c.assembly.system e then
        (c.assembly.step cfg launches idleTimeoutMs (.runtime e)).map fun a => ⟨a, c.held⟩
      else none

def machine : Machine Composite Event where
  init c := c.assembly.system.Initial ∧ c.assembly.runtime = none ∧ c.held = []
  step := step cfg launches idleTimeoutMs

end Composite

end Kernel
