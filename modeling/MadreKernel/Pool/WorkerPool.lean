import MadreKernel.Pool.Worker
import Mathlib.Data.List.Nodup

/-!
# The worker pool

The operations of `WorkerPool`.  The worker objects are numbered in the order of their
construction, and a number stands for the `shared_ptr` to the object; `members` is the vector
of the pool.  `acquire`, `is_warm` and `reap_idle` are loops over the vector that probe workers
as they go, and a probe that finds a child dead closes its pipes.

A busy worker belongs to its lease, and `acquire` leaves it alone.  `is_warm` and `reap_idle`
do so only while its process runs.
-/

namespace Kernel

namespace Worker

/-- A number that no worker has yet. -/
def vacant : Worker where
  engineId := []
  launch := ⟨[], []⟩
  responseReader := []
  child := none
  lastWaitStatus := none
  busy := false
  lastUsedMs := 0
  stdin := []
  requests := []
  readCount := 0
  emitted := []
  flushed := 0
  received := 0
  answered := []

end Worker

structure Pool where
  launchSpecs : SortedMap Bytes WorkerLaunchSpec
  idleTimeoutMs : Int64
  /-- how many workers have been constructed -/
  count : Nat
  worker : Nat → Worker
  members : List Nat
  nodup : members.Nodup
  constructed : ∀ i ∈ members, i < count

/-- How the constructor of `WorkerProcess` ends. -/
inductive Spawn where
  | started (pid inputFd outputFd : Nat) (nowMs : Int64)
  | failed (what : Bytes)

namespace Pool

/-- The constructor of `WorkerPool`. -/
def create (launchSpecs : SortedMap Bytes WorkerLaunchSpec) (idleTimeoutMs : Int64) :
    Except Bytes Pool :=
  if idleTimeoutMs < 0 then
    .error (Bytes.ofString "worker idle timeout must be nonnegative")
  else if launchSpecs.entries.any fun (engineId, launch) =>
      engineId = [] || launch.executable = [] then
    .error (Bytes.ofString
      "worker launch configuration requires engine identity and executable")
  else .ok ⟨launchSpecs, idleTimeoutMs, 0, fun _ => .vacant, [], List.nodup_nil, by simp⟩

def put (p : Pool) (i : Nat) (w : Worker) : Pool :=
  { p with worker := Function.update p.worker i w }

def erase (p : Pool) (i : Nat) : Pool :=
  { p with
    members := p.members.erase i
    nodup := p.nodup.erase i
    constructed := fun j hj => p.constructed j (List.mem_of_mem_erase hj) }

/-- A new worker at the end of the vector. -/
def add (p : Pool) (w : Worker) : Pool :=
  { p with
    count := p.count + 1
    worker := Function.update p.worker p.count w
    members := p.members ++ [p.count]
    nodup := by
      apply p.nodup.append (List.nodup_singleton _)
      intro i hi hcount
      rw [List.mem_singleton.mp hcount] at hi
      exact absurd (p.constructed _ hi) (lt_irrefl _)
    constructed := by
      intro i hi
      rcases List.mem_append.mp hi with hi | hi
      · exact Nat.lt_succ_of_lt (p.constructed i hi)
      · rw [List.mem_singleton.mp hi]
        exact Nat.lt_succ_self _ }

/-! ### Loops over the vector -/

/-- How a loop goes on after it has visited a worker. -/
inductive Next where
  | keep
  | erase
  | stop
  deriving DecidableEq

/-- A loop over the vector, from an iterator on: the worker that it stops at. -/
def scan (visit : Worker → Worker × Next) : List Nat → Pool → Option Nat × Pool
  | [], p => (none, p)
  | i :: rest, p =>
      match visit (p.worker i) with
      | (w, .keep) => scan visit rest (p.put i w)
      | (w, .erase) => scan visit rest ((p.put i w).erase i)
      | (w, .stop) => (some i, p.put i w)

/-- The body of the loop of `acquire`: the first idle worker of the engine is taken. -/
def visitToAcquire (engineId : Bytes) (w : Worker) : Worker × Next :=
  if w.busy then (w, .keep)
  else
    match w.alive with
    | (false, w) => (w, .erase)
    | (true, w) => if w.engineId = engineId then ({ w with busy := true }, .stop) else (w, .keep)

/-- The body of the loop of `is_warm`. -/
def visitForWarm (engineId : Bytes) (w : Worker) : Worker × Next :=
  match w.alive with
  | (false, w) => (w, .erase)
  | (true, w) => if w.engineId = engineId then (w, .stop) else (w, .keep)

/-- `current_ms - worker->last_used_ms >= idle_timeout_ms_`, where the difference wraps around. -/
def idleEnough (w : Worker) (currentMs idleTimeoutMs : Int64) : Bool :=
  idleTimeoutMs ≤ currentMs - w.lastUsedMs

/-- The body of the loop of `reap_idle`. -/
def visitToReap (currentMs idleTimeoutMs : Int64) (w : Worker) : Worker × Next :=
  match w.alive with
  | (false, w) => (w, .erase)
  | (true, w) =>
      if !w.busy && idleEnough w currentMs idleTimeoutMs then (w.terminate, .erase)
      else (w, .keep)

/-! ### The operations -/

/-- `acquire`: the worker that the lease refers to, or what is thrown. -/
def acquire (p : Pool) (engineId : Bytes) (spawn : Spawn) : Except Bytes Nat × Pool :=
  match scan (visitToAcquire engineId) p.members p with
  | (some i, p) => (.ok i, p)
  | (none, p) =>
      match p.launchSpecs.find? engineId with
      | none =>
          (.error (Bytes.ofString "no worker launch configuration for engine " ++ engineId), p)
      | some launch =>
          match spawn with
          | .failed what => (.error what, p)
          | .started pid inputFd outputFd nowMs =>
              (.ok p.count,
                p.add { Worker.spawn launch engineId pid inputFd outputFd nowMs with busy := true })

def isWarm (p : Pool) (engineId : Bytes) : Bool × Pool :=
  match scan (visitForWarm engineId) p.members p with
  | (found, p) => (found.isSome, p)

def reapIdle (p : Pool) (currentMs : Int64) : Pool :=
  (scan (visitToReap currentMs p.idleTimeoutMs) p.members p).2

def shutdown (p : Pool) : Pool :=
  { p with
    worker := fun i => if i ∈ p.members then (p.worker i).terminate else p.worker i
    members := []
    nodup := List.nodup_nil
    constructed := by simp }

def release (p : Pool) (i : Nat) (nowMs : Int64) : Pool :=
  if i ∈ p.members then
    match { p.worker i with busy := false, lastUsedMs := nowMs : Worker }.alive with
    | (true, w) => p.put i w
    | (false, w) => (p.put i w).erase i
  else p

/-! ### What a loop does -/

/-- The workers that a loop visits, up to the one that it stops at. -/
def reached (visit : Worker → Worker × Next) (worker : Nat → Worker) : List Nat → List Nat
  | [] => []
  | i :: rest =>
      if (visit (worker i)).2 = .stop then [i] else i :: reached visit worker rest

theorem reached_congr
    {visit : Worker → Worker × Next} {worker worker' : Nat → Worker} {l : List Nat}
    (h : ∀ i ∈ l, worker' i = worker i) :
  reached visit worker' l = reached visit worker l
  := by
  induction l with
  | nil => rfl
  | cons i rest ih =>
      rw [reached, reached, h i List.mem_cons_self,
        ih fun j hj => h j (List.mem_cons_of_mem _ hj)]

theorem reached_subset
    {visit : Worker → Worker × Next} {worker : Nat → Worker} {l : List Nat} {i : Nat}
    (h : i ∈ reached visit worker l) :
  i ∈ l
  := by
  induction l with
  | nil => cases h
  | cons j rest ih =>
      rw [reached] at h
      split_ifs at h
      · exact List.mem_cons.mpr (Or.inl (List.mem_singleton.mp h))
      · rcases List.mem_cons.mp h with rfl | h
        · exact List.mem_cons_self
        · exact List.mem_cons_of_mem _ (ih h)

/-- A loop visits a worker when it stops at none before it. -/
theorem mem_reached_iff
    {visit : Worker → Worker × Next} {worker : Nat → Worker} {l : List Nat} {i : Nat}
    (hi : i ∈ l) :
  i ∈ reached visit worker l ↔ ∀ j ∈ l.takeWhile (· ≠ i), (visit (worker j)).2 ≠ .stop
  := by
  induction l with
  | nil => cases hi
  | cons j rest ih =>
      by_cases hij : j = i
      · subst hij
        rw [reached]
        split_ifs <;> simp
      · have hrest : i ∈ rest := (List.mem_cons.mp hi).resolve_left (Ne.symm hij)
        rw [reached, List.takeWhile_cons_of_pos (by simpa using hij), List.forall_mem_cons,
          ← ih hrest]
        split_ifs with hstop
        · simp [hstop, Ne.symm hij]
        · simp [hstop, Ne.symm hij]

/-- What a loop over the workers of `l` leaves. -/
structure Scanned (visit : Worker → Worker × Next) (l : List Nat) (p : Pool) (found : Option Nat)
    (p' : Pool) : Prop where
  worker : ∀ i, p'.worker i
    = if i ∈ reached visit p.worker l then (visit (p.worker i)).1 else p.worker i
  members : ∀ i, i ∈ p'.members
    ↔ i ∈ p.members ∧ (i ∈ reached visit p.worker l → (visit (p.worker i)).2 ≠ .erase)
  through : found = none → ∀ i ∈ l, i ∈ reached visit p.worker l ∧ (visit (p.worker i)).2 ≠ .stop
  stopped : ∀ i, found = some i ↔
    i ∈ reached visit p.worker l ∧ (visit (p.worker i)).2 = .stop
  count : p'.count = p.count
  launchSpecs : p'.launchSpecs = p.launchSpecs
  idleTimeoutMs : p'.idleTimeoutMs = p.idleTimeoutMs

/-- A loop that visits a worker and goes on. -/
theorem Scanned.cons
    {visit : Worker → Worker × Next} {i : Nat} {rest : List Nat} {p p₁ p' : Pool}
    {found : Option Nat} (h : Scanned visit rest p₁ found p') (hi : i ∉ rest)
    (hgo : (visit (p.worker i)).2 ≠ .stop)
    (hworker : p₁.worker = Function.update p.worker i (visit (p.worker i)).1)
    (hmembers : ∀ j, j ∈ p₁.members
      ↔ j ∈ p.members ∧ (j = i → (visit (p.worker i)).2 ≠ .erase))
    (hsame : p₁.count = p.count ∧ p₁.launchSpecs = p.launchSpecs
      ∧ p₁.idleTimeoutMs = p.idleTimeoutMs) :
  Scanned visit (i :: rest) p found p'
  := by
  have hother : ∀ j, j ≠ i → p₁.worker j = p.worker j := by
    intro j hj
    rw [hworker, Function.update_of_ne hj]
  have hreached : reached visit p₁.worker rest = reached visit p.worker rest := by
    apply reached_congr
    intro j hj
    apply hother
    rintro rfl
    exact hi hj
  have hcons : reached visit p.worker (i :: rest) = i :: reached visit p.worker rest := by
    rw [reached, if_neg hgo]
  have hnot : i ∉ reached visit p.worker rest := fun hmem => hi (reached_subset hmem)
  constructor
  · intro j
    rw [h.worker, hreached, hcons]
    by_cases hj : j = i
    · subst hj
      rw [if_neg hnot, if_pos List.mem_cons_self, hworker, Function.update_self]
    · simp only [hother j hj, List.mem_cons, hj, false_or]
  · intro j
    rw [h.members, hmembers, hreached, hcons]
    by_cases hj : j = i
    · subst hj
      simp [hnot]
    · simp [hother j hj, hj]
  · intro hnone j hj
    rw [hcons]
    rcases List.mem_cons.mp hj with rfl | hlater
    · exact ⟨List.mem_cons_self, hgo⟩
    · have hthrough := h.through hnone j hlater
      rw [hreached, hother j (by rintro rfl; exact hi hlater)] at hthrough
      exact ⟨List.mem_cons_of_mem _ hthrough.1, hthrough.2⟩
  · intro j
    rw [h.stopped, hreached, hcons]
    by_cases hj : j = i
    · subst hj
      simp [hnot, hgo]
    · simp [hother j hj, hj]
  · exact h.count.trans hsame.1
  · exact h.launchSpecs.trans hsame.2.1
  · exact h.idleTimeoutMs.trans hsame.2.2

theorem scan_scanned (visit : Worker → Worker × Next) {l : List Nat} (p : Pool) (h : l.Nodup) :
  Scanned visit l p (scan visit l p).1 (scan visit l p).2
  := by
  induction l generalizing p with
  | nil => constructor <;> simp [scan, reached]
  | cons i rest ih =>
      obtain ⟨hi, hrest⟩ := List.nodup_cons.mp h
      rw [scan]
      cases hvisit : visit (p.worker i) with
      | mk w next =>
          cases next with
          | keep =>
              apply (ih (p.put i w) hrest).cons hi
              · simp [hvisit]
              · rw [hvisit, put]
              · simp [hvisit, put]
              · exact ⟨rfl, rfl, rfl⟩
          | erase =>
              apply (ih ((p.put i w).erase i) hrest).cons hi
              · simp [hvisit]
              · rw [hvisit, erase, put]
              · intro j
                rw [hvisit]
                simp only [erase, put, p.nodup.mem_erase_iff]
                tauto
              · exact ⟨rfl, rfl, rfl⟩
          | stop =>
              have hreached : reached visit p.worker (i :: rest) = [i] := by
                rw [reached, if_pos (by rw [hvisit])]
              constructor
              · intro j
                rw [hreached]
                by_cases hj : j = i
                · subst hj
                  simp [put, hvisit]
                · simp [put, hj]
              · intro j
                rw [hreached]
                simp only [put, List.mem_singleton]
                constructor
                · intro hj
                  refine ⟨hj, ?_⟩
                  rintro rfl
                  simp [hvisit]
                · exact And.left
              · rintro ⟨⟩
              · intro j
                rw [hreached, List.mem_singleton, Option.some_inj]
                constructor
                · rintro rfl
                  exact ⟨rfl, by rw [hvisit]⟩
                · exact fun hj => hj.1.symm
              · rfl
              · rfl
              · rfl

/-! ### The workers that an operation leaves alone -/

/-- The operations that callers without the lease of a worker run. -/
inductive Operation where
  | acquire (engineId : Bytes) (spawn : Spawn)
  | isWarm (engineId : Bytes)
  | reapIdle (currentMs : Int64)

def after (p : Pool) : Operation → Pool
  | .acquire engineId spawn => (p.acquire engineId spawn).2
  | .isWarm engineId => (p.isWarm engineId).2
  | .reapIdle currentMs => p.reapIdle currentMs

/-- The process handle, the descriptors, the recorded exit status and the membership of a worker
are the same in two pools. -/
def Untouched (p p' : Pool) (i : Nat) : Prop :=
  (p'.worker i).pid = (p.worker i).pid
  ∧ (p'.worker i).inputFd = (p.worker i).inputFd
  ∧ (p'.worker i).outputFd = (p.worker i).outputFd
  ∧ (p'.worker i).lastWaitStatus = (p.worker i).lastWaitStatus
  ∧ (i ∈ p'.members ↔ i ∈ p.members)

/-- The process of the worker runs, or the loop of the operation does not come to the worker. -/
def spares (p : Pool) (i : Nat) : Operation → Bool
  | .acquire _ _ => true
  | .isWarm engineId =>
      (p.worker i).running
      || (p.members.takeWhile (· ≠ i)).any fun j =>
        (p.worker j).running && (p.worker j).engineId = engineId
  | .reapIdle _ => (p.worker i).running

theorem visitForWarm_running {engineId : Bytes} {w : Worker} (h : w.running = true) :
  visitForWarm engineId w = (w, if w.engineId = engineId then .stop else .keep)
  := by
  rw [visitForWarm, Worker.alive_of_running h]
  simp only
  split_ifs <;> rfl

theorem visitForWarm_not_running {engineId : Bytes} {w : Worker} (h : w.running = false) :
  (visitForWarm engineId w).2 = .erase
  := by
  obtain ⟨status, halive⟩ := Worker.alive_of_not_running h
  rw [visitForWarm, halive]

theorem visitForWarm_stop_iff {engineId : Bytes} {w : Worker} :
  (visitForWarm engineId w).2 = .stop ↔ (w.running && w.engineId = engineId) = true
  := by
  cases h : w.running with
  | true => simp [visitForWarm_running h]
  | false => simp [visitForWarm_not_running h]

theorem visitToReap_not_running {currentMs idleTimeoutMs : Int64} {w : Worker}
    (h : w.running = false) :
  (visitToReap currentMs idleTimeoutMs w).2 = .erase
  := by
  obtain ⟨status, halive⟩ := Worker.alive_of_not_running h
  rw [visitToReap, halive]

theorem visitToReap_ne_stop (currentMs idleTimeoutMs : Int64) (w : Worker) :
  (visitToReap currentMs idleTimeoutMs w).2 ≠ .stop
  := by
  rw [visitToReap]
  split
  · simp
  · split_ifs <;> simp

theorem visitToReap_busy {currentMs idleTimeoutMs : Int64} {w : Worker} (h : w.running = true)
    (hbusy : w.busy = true) :
  visitToReap currentMs idleTimeoutMs w = (w, .keep)
  := by
  rw [visitToReap, Worker.alive_of_running h]
  simp [hbusy]

theorem visitToAcquire_busy {engineId : Bytes} {w : Worker} (hbusy : w.busy = true) :
  visitToAcquire engineId w = (w, .keep)
  := by
  rw [visitToAcquire, if_pos hbusy]

/-- A worker that is visited and kept as it is. -/
theorem Scanned.untouched
    {visit : Worker → Worker × Next} {l : List Nat} {p p' : Pool} {found : Option Nat} {i : Nat}
    (h : Scanned visit l p found p')
    (hvisit : i ∈ reached visit p.worker l →
      (visit (p.worker i)).1 = p.worker i ∧ (visit (p.worker i)).2 ≠ .erase) :
  p'.worker i = p.worker i ∧ (i ∈ p'.members ↔ i ∈ p.members)
  := by
  constructor
  · rw [h.worker]
    split_ifs with hreached
    · exact (hvisit hreached).1
    · rfl
  · rw [h.members]
    constructor
    · exact And.left
    · intro hi
      exact ⟨hi, fun hreached => (hvisit hreached).2⟩

/-- A worker that is visited and erased. -/
theorem Scanned.not_untouched
    {visit : Worker → Worker × Next} {l : List Nat} {p p' : Pool} {found : Option Nat} {i : Nat}
    (h : Scanned visit l p found p') (hi : i ∈ p.members)
    (hreached : i ∈ reached visit p.worker l) (herase : (visit (p.worker i)).2 = .erase) :
  ¬Untouched p p' i
  := by
  rintro ⟨-, -, -, -, hmember⟩
  exact ((h.members i).mp (hmember.mpr hi)).2 hreached herase

theorem untouched_of_same
    {p p' : Pool} {i : Nat} (h : p'.worker i = p.worker i ∧ (i ∈ p'.members ↔ i ∈ p.members)) :
  Untouched p p' i
  := by
  rw [Untouched, h.1]
  exact ⟨rfl, rfl, rfl, rfl, h.2⟩

/-- `acquire` leaves a busy worker as it is. -/
theorem acquire_busy
    {p : Pool} {i : Nat} (hi : i ∈ p.members) (hbusy : (p.worker i).busy = true)
    (engineId : Bytes) (spawn : Spawn) :
  (p.acquire engineId spawn).2.worker i = p.worker i
    ∧ (i ∈ (p.acquire engineId spawn).2.members ↔ i ∈ p.members)
  := by
  have hscan := scan_scanned (visitToAcquire engineId) p p.nodup
  have hsame := hscan.untouched (i := i) (fun _ => by rw [visitToAcquire_busy hbusy]; simp)
  rw [acquire]
  split
  · rename_i found p' heq
    rw [heq] at hsame
    exact hsame
  · rename_i p' heq
    rw [heq] at hsame hscan
    split
    · exact hsame
    · split
      · exact hsame
      · have hne : i ≠ p'.count := by
          rw [hscan.count]
          exact (p.constructed i hi).ne
        simp only [add, Function.update_of_ne hne, List.mem_append, List.mem_singleton, hne,
          or_false]
        exact hsame

/-- A busy worker is left alone by the operations of other callers exactly when its process runs
or their loop does not come to it; `acquire` always leaves it alone. -/
theorem leased_untouched_iff
    (p : Pool) (i : Nat) (op : Operation) (hi : i ∈ p.members) (hbusy : (p.worker i).busy = true) :
  Untouched p (p.after op) i ↔ p.spares i op = true
  := by
  cases op with
  | acquire engineId spawn =>
      exact iff_of_true (untouched_of_same (acquire_busy hi hbusy engineId spawn)) rfl
  | isWarm engineId =>
      have hscan := scan_scanned (visitForWarm engineId) p p.nodup
      cases hrun : (p.worker i).running with
      | true =>
          apply iff_of_true
          · apply untouched_of_same
            apply hscan.untouched
            intro _
            rw [visitForWarm_running hrun]
            simp only
            split_ifs <;> simp
          · simp [spares, hrun]
      | false =>
          have hspares : p.spares i (.isWarm engineId) = true
              ↔ i ∉ reached (visitForWarm engineId) p.worker p.members := by
            rw [mem_reached_iff hi]
            simp only [spares, hrun, Bool.false_or, List.any_eq_true, not_forall, not_not,
              exists_prop, visitForWarm_stop_iff]
          rw [hspares]
          constructor
          · intro huntouched hreached
            exact hscan.not_untouched hi hreached (visitForWarm_not_running hrun) huntouched
          · intro hnot
            exact untouched_of_same (hscan.untouched fun hreached => absurd hreached hnot)
  | reapIdle currentMs =>
      have hscan := scan_scanned (visitToReap currentMs p.idleTimeoutMs) p p.nodup
      cases hrun : (p.worker i).running with
      | true =>
          apply iff_of_true
          · apply untouched_of_same
            apply hscan.untouched
            intro _
            rw [visitToReap_busy hrun hbusy]
            simp
          · exact hrun
      | false =>
          apply iff_of_false
          · apply hscan.not_untouched hi _ (visitToReap_not_running hrun)
            rw [mem_reached_iff hi]
            intro j _
            apply visitToReap_ne_stop
          · simp [spares, hrun]

namespace Sample

def engine : Bytes := Bytes.ofString "engine"

/-- A pool with one engine. -/
def idle : Pool where
  launchSpecs := SortedMap.ofEntries [(engine, ⟨Bytes.ofString "worker", []⟩)]
  idleTimeoutMs := 1000
  count := 0
  worker := fun _ => .vacant
  members := []
  nodup := List.nodup_nil
  constructed := by simp

/-- The worker of the engine is leased, and it runs. -/
def leased : Pool := (idle.acquire engine (.started 7 8 9 0)).2

/-- The leased worker has exited. -/
def exited : Pool := leased.put 0 ((leased.worker 0).exitAs (.exited 0))

end Sample

theorem leased_untouched_running :
  0 ∈ Sample.leased.members ∧ (Sample.leased.worker 0).busy = true
    ∧ Untouched Sample.leased (Sample.leased.after (.reapIdle 5000)) 0
  := by
  have hi : 0 ∈ Sample.leased.members := by decide +kernel
  have hbusy : (Sample.leased.worker 0).busy = true := by decide +kernel
  use hi, hbusy
  apply (leased_untouched_iff Sample.leased 0 (.reapIdle 5000) hi hbusy).mpr
  decide +kernel

/-- `reap_idle` closes the pipes of a leased worker whose process has exited, and erases it. -/
theorem reap_touches_leased :
  ¬∀ (p : Pool) (i : Nat) (op : Operation), i ∈ p.members → (p.worker i).busy = true →
    Untouched p (p.after op) i
  := by
  intro h
  have huntouched := h Sample.exited 0 (.reapIdle 0) (by decide +kernel) (by decide +kernel)
  have hpid := huntouched.1
  revert hpid
  decide +kernel

end Pool

end Kernel
