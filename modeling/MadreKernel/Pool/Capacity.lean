import MadreKernel.Kernel.Reservations
import MadreKernel.Kernel.Selection
import MadreKernel.Pool.Exclusivity
import Mathlib.Algebra.Order.BigOperators.Group.List

/-!
# Live workers and the capacity

The scheduler reserves the resources of an engine and then acquires a worker of it.  The
reservation is released when the attempt ends, while the process of the worker is kept for the
next attempt of its engine.  A process is launched against the reservations that are out, so
the processes that are kept warm are not counted, and the live workers together may need more
than the machine has.
-/

namespace Kernel

/-- The engines of a Kernel, no two of which have the same id. -/
structure Inventory where
  engines : List EngineDescriptorFacts
  distinct : (engines.map (·.id)).Nodup

namespace Inventory

/-- What the engine with an id declares. -/
def declared (inv : Inventory) (id : Bytes) : Option ResourceRequirement :=
  (inv.engines.find? (·.id = id)).map (·.resources)

theorem declared_of_mem {inv : Inventory} {engine : EngineDescriptorFacts}
    (h : engine ∈ inv.engines) :
  inv.declared engine.id = some engine.resources
  := by
  obtain ⟨found, hfound⟩ : ∃ found, inv.engines.find? (·.id = engine.id) = some found := by
    apply Option.isSome_iff_exists.mp
    rw [List.find?_isSome]
    exact ⟨engine, h, decide_eq_true rfl⟩
  have hid : found.id = engine.id := by
    simpa using List.find?_some hfound
  have hsame := List.inj_on_of_nodup_map inv.distinct (List.mem_of_find?_eq_some hfound) h hid
  rw [declared, hfound, hsame]
  rfl

end Inventory

namespace Pool

/-- The workers whose process runs. -/
def live (p : Pool) : List Nat := (List.range p.count).filter fun i => (p.worker i).running

/-- An idle worker of the engine, which `acquire` hands out. -/
def hasIdle (p : Pool) (engineId : Bytes) : Bool :=
  p.members.any fun i =>
    !(p.worker i).busy && (p.worker i).running && (p.worker i).engineId = engineId

/-- What the engines of some workers declare. -/
def requirements (p : Pool) (inv : Inventory) (workers : List Nat) : List ResourceRequirement :=
  workers.filterMap fun i => inv.declared (p.worker i).engineId

end Pool

/-- The scheduler, the reservations and the worker runtime. -/
structure Dispatcher where
  runtime : Runtime
  manager : ResourceManager
  /-- the engine whose resources the scheduler has reserved for the attempt that it begins -/
  reserved : Option EngineDescriptorFacts
  /-- the reservations of the attempts, each with the worker that was acquired for it -/
  attempts : List (Nat × ResourceRequirement)

namespace Dispatcher

inductive Event where
  /-- the scheduler has selected an engine of the inventory -/
  | reserve (k : Nat)
  /-- the Work has expired, or it was not begun -/
  | abandon
  /-- a worker is acquired for the attempt -/
  | dispatch (spawn : Spawn)
  /-- an attempt releases its reservation -/
  | finish (k : Nat)
  /-- anything else that happens to the runtime -/
  | runtime (e : Runtime.Event)

def reserve (s : Dispatcher) (engine : EngineDescriptorFacts) : Dispatcher :=
  match s.manager.canEverReserve engine.resources with
  | .ok true =>
      match s.manager.tryReserve engine.resources with
      | .ok (true, manager) => { s with manager := manager, reserved := some engine }
      | .ok (false, manager) => { s with manager := manager }
      | .error _ => s
  | _ => s

/-- The worker and the reservation go to the attempt, unless `acquire` throws. -/
def dispatch (s : Dispatcher) (engine : EngineDescriptorFacts) (spawn : Spawn) : Dispatcher :=
  match (s.runtime.pool.acquire engine.id spawn).1 with
  | .ok i =>
      { s with
        runtime := s.runtime.acquire engine.id spawn
        reserved := none
        attempts := s.attempts ++ [(i, engine.resources)] }
  | .error _ =>
      { s with
        runtime := s.runtime.acquire engine.id spawn
        manager := s.manager.release engine.resources
        reserved := none }

def step (inv : Inventory) (s : Dispatcher) : Event → Option Dispatcher
  | .reserve k =>
      match s.reserved, inv.engines[k]? with
      | none, some engine => some (s.reserve engine)
      | _, _ => none
  | .abandon =>
      s.reserved.map fun engine =>
        { s with manager := s.manager.release engine.resources, reserved := none }
  | .dispatch spawn => s.reserved.map fun engine => s.dispatch engine spawn
  | .finish k =>
      s.attempts[k]?.map fun (_, r) =>
        { s with manager := s.manager.release r, attempts := s.attempts.eraseIdx k }
  | .runtime (.acquire _ _) => none
  | .runtime e => (s.runtime.step e).map fun runtime => { s with runtime := runtime }

def machine (inv : Inventory) (capacity : ResourceCapacity) : Machine Dispatcher Event where
  init s := Runtime.machine.init s.runtime ∧ ResourceManager.create capacity = .ok s.manager
    ∧ s.reserved = none ∧ s.attempts = []
  step := step inv

/-- What the engines of the live workers declare. -/
def declared (inv : Inventory) (s : Dispatcher) : List ResourceRequirement :=
  s.runtime.pool.requirements inv s.runtime.pool.live

/-- What the engines of the live workers without a reservation declare. -/
def unreserved (inv : Inventory) (s : Dispatcher) : List ResourceRequirement :=
  s.runtime.pool.requirements inv
    (s.runtime.pool.live.filter fun i => i ∉ s.attempts.map (·.1))

/-- The live workers without a reservation fit into what the reservations leave free. -/
def fitsUnreserved (inv : Inventory) (s : Dispatcher) : Bool :=
  ((s.unreserved inv).map (·.ramBytes.toNat)).sum + s.manager.ramUsed.toNat
      ≤ s.manager.capacity.ramBytes.toNat
    && (s.unreserved inv).all fun r =>
      vramOf (s.unreserved inv) r.gpuId + (s.manager.vramUsed r.gpuId).toNat
        ≤ (s.manager.vramCapacity r.gpuId).toNat

/-- A step that launches no process, or one beside which the live workers without a reservation
fit into what the reservations leave free. -/
def launchFits (inv : Inventory) (s : Dispatcher) : Event → Bool
  | .dispatch (.started _ _ _ _) =>
      s.reserved.all fun engine =>
        s.runtime.pool.hasIdle engine.id || s.fitsUnreserved inv
  | _ => true

/-! ### Sums -/

/-- Keys with different entries weigh at most what the entries weigh. -/
theorem sum_le_of_covered
    {κ ρ : Type} {keys : List κ} (value : κ → Option ρ) {entries : List (κ × ρ)}
    (hnodup : keys.Nodup) (hcovered : ∀ k ∈ keys, ∃ r, value k = some r ∧ (k, r) ∈ entries)
    (weight : ρ → Nat) :
  ((keys.filterMap value).map weight).sum ≤ (entries.map fun e => weight e.2).sum
  := by
  induction keys generalizing entries with
  | nil => simp
  | cons k keys ih =>
      obtain ⟨hk, hkeys⟩ := List.nodup_cons.mp hnodup
      obtain ⟨r, hr, hentry⟩ := hcovered k List.mem_cons_self
      obtain ⟨before, after, rfl⟩ := List.append_of_mem hentry
      have hothers : ∀ k' ∈ keys, ∃ r', value k' = some r' ∧ (k', r') ∈ before ++ after := by
        intro k' hk'
        obtain ⟨r', hr', hentry'⟩ := hcovered k' (List.mem_cons_of_mem _ hk')
        refine ⟨r', hr', ?_⟩
        rw [List.mem_append, List.mem_cons] at hentry'
        rw [List.mem_append]
        rcases hentry' with hbefore | heq | hafter
        · exact Or.inl hbefore
        · cases heq
          exact absurd hk' hk
        · exact Or.inr hafter
      have hrest := ih hkeys hothers
      rw [List.filterMap_cons_some hr]
      simp only [List.map_append, List.map_cons, List.sum_append, List.sum_cons] at hrest ⊢
      omega

/-- The VRAM of a GPU that a requirement declares. -/
def vramAt (gpu : Bytes) (r : ResourceRequirement) : Nat :=
  if r.gpuId = gpu then r.gpuVramBytes.toNat else 0

theorem vramOf_eq (rs : List ResourceRequirement) (gpu : Bytes) :
  vramOf rs gpu = (rs.map (vramAt gpu)).sum
  := by
  induction rs with
  | nil => rfl
  | cons r rs ih => rw [ResourceManager.vramOf_cons, List.map_cons, List.sum_cons, ih, vramAt]

theorem weight_le_of_sublist
    {rs rs' : List ResourceRequirement} (h : rs.Sublist rs') (weight : ResourceRequirement → Nat) :
  (rs.map weight).sum ≤ (rs'.map weight).sum
  := (h.map weight).sum_le_sum fun _ _ => Nat.zero_le _

/-! ### The live workers -/

end Dispatcher

namespace Pool

/-- `acquire` stops at an idle worker of the engine. -/
theorem visitToAcquire_idle
    {w : Worker} (hbusy : w.busy = false) (hrun : w.running = true) :
  (visitToAcquire w.engineId w).2 = .stop
  := by
  rw [visitToAcquire, hbusy, if_neg Bool.false_ne_true, Worker.alive_of_running hrun]
  simp

/-- `acquire` starts at most one worker, and only when it finds no idle one. -/
theorem acquire_count (p : Pool) (engineId : Bytes) (spawn : Spawn) :
  (p.acquire engineId spawn).2.count = p.count
  ∨ (p.hasIdle engineId = false ∧ (p.acquire engineId spawn).1 = .ok p.count
    ∧ (p.acquire engineId spawn).2.count = p.count + 1
    ∧ ∃ pid inputFd outputFd nowMs, spawn = .started pid inputFd outputFd nowMs)
  := by
  have hscan := scan_scanned (visitToAcquire engineId) p p.nodup
  rw [acquire]
  split
  · rename_i i p' heq
    rw [heq] at hscan
    exact Or.inl hscan.count
  · rename_i p' heq
    rw [heq] at hscan
    split
    · exact Or.inl hscan.count
    · cases spawn with
      | failed what => exact Or.inl hscan.count
      | started pid inputFd outputFd nowMs =>
          right
          refine ⟨?_, ?_, ?_, pid, inputFd, outputFd, nowMs, rfl⟩
          · rw [hasIdle, List.any_eq_false]
            intro i hi hidle
            simp only [Bool.and_eq_true, Bool.not_eq_true', decide_eq_true_eq] at hidle
            obtain ⟨⟨hbusy, hrun⟩, rfl⟩ := hidle
            exact (hscan.through rfl i hi).2 (visitToAcquire_idle hbusy hrun)
          · exact congrArg Except.ok hscan.count
          · exact congrArg (· + 1) hscan.count

/-- Some of the workers that live after a change: they lived before. -/
theorem live_filter_sublist
    {p p' : Pool} (h : p.Changed p') {keep keep' : Nat → Bool}
    (hkeep : ∀ i < p.count, keep' i = true → keep i = true)
    (hnew : ∀ i, p.count ≤ i → i < p'.count → keep' i = false) :
  (p'.live.filter keep').Sublist (p.live.filter keep)
  := by
  obtain ⟨added, hadded⟩ := Nat.exists_eq_add_of_le h.count_le
  have hsplit : p'.live.filter keep'
      = (p.live.filter keep).filter fun i => keep' i && (p'.worker i).running := by
    have hlast : ((List.range added).map (p.count + ·)).filter
        (fun i => keep' i && (p'.worker i).running) = [] := by
      rw [List.filter_eq_nil_iff]
      intro i hi
      obtain ⟨j, hj, rfl⟩ := List.mem_map.mp hi
      rw [hnew _ (Nat.le_add_right _ _) (by rw [hadded]; simpa using hj)]
      simp
    rw [live, live, List.filter_filter, List.filter_filter, List.filter_filter, hadded,
      List.range_add, List.filter_append, hlast, List.append_nil]
    apply List.filter_congr
    intro i hi
    have hlt := List.mem_range.mp hi
    have hrunning := (h.later i hlt).running
    have hkept := hkeep i hlt
    cases hk : keep' i <;> cases hr : (p'.worker i).running <;> simp_all
  rw [hsplit]
  apply List.filter_sublist

/-- What the engine of a worker declares does not change. -/
theorem requirements_sublist
    {p p' : Pool} (h : p.Changed p') (inv : Inventory) (keep keep' : Nat → Bool)
    (hkeep : ∀ i < p.count, keep' i = true → keep i = true)
    (hnew : ∀ i, p.count ≤ i → i < p'.count → keep' i = false) :
  (p'.requirements inv (p'.live.filter keep')).Sublist (p.requirements inv (p.live.filter keep))
  := by
  have hlive := live_filter_sublist h hkeep hnew
  have hsame : p'.requirements inv (p'.live.filter keep')
      = p.requirements inv (p'.live.filter keep') := by
    apply List.filterMap_congr
    intro i hi
    have hold := List.mem_of_mem_filter (List.mem_of_mem_filter (hlive.subset hi))
    rw [(h.later i (List.mem_range.mp hold)).engineId]
  rw [hsame]
  apply hlive.filterMap

end Pool

namespace Dispatcher

/-! ### The reservations -/

/-- The reservations that are out. -/
def reservations (s : Dispatcher) : List ResourceRequirement :=
  s.reserved.toList.map (·.resources) ++ s.attempts.map (·.2)

/-- The reservations are accounted for, and an attempt holds what the engine of its worker
declares. -/
structure Accounted (inv : Inventory) (capacity : ResourceCapacity) (s : Dispatcher) : Prop where
  exclusive : s.runtime.Exclusive
  capacity_eq : s.manager.capacity = capacity
  holds : s.manager.Holds s.reservations
  known : ∀ engine ∈ s.reserved, engine ∈ inv.engines
  attempts : ∀ a ∈ s.attempts, a.1 < s.runtime.pool.count
    ∧ inv.declared (s.runtime.pool.worker a.1).engineId = some a.2

section

variable {inv : Inventory} {capacity : ResourceCapacity}

theorem accounted_init {s : Dispatcher} (h : (machine inv capacity).init s) :
  s.Accounted inv capacity
  := by
  obtain ⟨hruntime, hcreate, hreserved, hattempts⟩ := h
  have hholds := ResourceManager.holds_create hcreate
  constructor
  · exact Runtime.exclusive_init hruntime
  · rw [ResourceManager.create] at hcreate
    split_ifs at hcreate
    rw [← Except.ok.inj hcreate]
    rfl
  · rw [reservations, hreserved, hattempts]
    exact hholds
  · simp [hreserved]
  · simp [hattempts]

theorem Accounted.reserve
    {s : Dispatcher} {engine : EngineDescriptorFacts} (h : s.Accounted inv capacity)
    (hfree : s.reserved = none) (hengine : engine ∈ inv.engines) :
  (s.reserve engine).Accounted inv capacity
  := by
  have hout : s.reservations = s.attempts.map (·.2) := by
    rw [reservations, hfree]
    rfl
  rw [Dispatcher.reserve]
  split
  · split
    · rename_i manager hgrant
      obtain ⟨-, -, -, -, hcapacity, -⟩ := ResourceManager.tryReserve_true hgrant
      constructor
      · exact h.exclusive
      · exact hcapacity.trans h.capacity_eq
      · have hholds := h.holds.tryReserve hgrant
        rw [hout] at hholds
        exact hholds
      · rintro engine' ⟨⟩
        exact hengine
      · exact h.attempts
    · rename_i manager hrefuse
      obtain ⟨hcapacity, -⟩ := ResourceManager.tryReserve_false hrefuse
      exact ⟨h.exclusive, hcapacity.trans h.capacity_eq, h.holds.tryReserve hrefuse, h.known,
        h.attempts⟩
    · exact h
  · exact h

/-- The scheduler gives its reservation back. -/
theorem Accounted.abandon
    {s : Dispatcher} {engine : EngineDescriptorFacts} (h : s.Accounted inv capacity)
    (hreserved : s.reserved = some engine) :
  Accounted inv capacity
    { s with manager := s.manager.release engine.resources, reserved := none }
  := by
  have hholds := h.holds
  rw [reservations, hreserved] at hholds
  exact ⟨h.exclusive, h.capacity_eq, hholds.release, by simp, h.attempts⟩

theorem Accounted.finish
    {s : Dispatcher} {k i : Nat} {r : ResourceRequirement} (h : s.Accounted inv capacity)
    (hk : s.attempts[k]? = some (i, r)) :
  Accounted inv capacity
    { s with manager := s.manager.release r, attempts := s.attempts.eraseIdx k }
  := by
  obtain ⟨hlt, hget⟩ := List.getElem?_eq_some_iff.mp hk
  have hperm : s.reservations.Perm
      (r :: (s.reserved.toList.map (·.resources) ++ (s.attempts.eraseIdx k).map (·.2))) := by
    have hattempts := ((List.getElem_cons_eraseIdx_perm hlt).map (·.2)).symm
    rw [hget] at hattempts
    exact (hattempts.append_left _).trans List.perm_middle
  refine ⟨h.exclusive, h.capacity_eq, (h.holds.perm hperm).release, h.known, ?_⟩
  intro a ha
  exact h.attempts a (List.mem_of_mem_eraseIdx ha)

/-- A change of the runtime leaves the attempts their workers. -/
theorem Accounted.changed
    {s : Dispatcher} {runtime : Runtime} (h : s.Accounted inv capacity)
    (hexclusive : runtime.Exclusive) (hchanged : s.runtime.pool.Changed runtime.pool) :
  Accounted inv capacity { s with runtime := runtime }
  := by
  refine ⟨hexclusive, h.capacity_eq, h.holds, h.known, ?_⟩
  intro a ha
  obtain ⟨hlt, hdeclared⟩ := h.attempts a ha
  refine ⟨hlt.trans_le hchanged.count_le, ?_⟩
  simp only [(hchanged.later a.1 hlt).engineId]
  exact hdeclared

theorem acquire_pool (r : Runtime) (engineId : Bytes) (spawn : Spawn) :
  (r.acquire engineId spawn).pool = (r.pool.acquire engineId spawn).2
  := by
  rw [Runtime.acquire]
  split
  · rename_i i pool heq
    rw [heq]
  · rename_i what pool heq
    rw [heq]

theorem Accounted.dispatch
    {s : Dispatcher} {engine : EngineDescriptorFacts} (h : s.Accounted inv capacity)
    (hreserved : s.reserved = some engine) (spawn : Spawn) :
  (s.dispatch engine spawn).Accounted inv capacity
  := by
  have hmoves := Runtime.step_moves (e := .acquire engine.id spawn) h.exclusive.sound rfl
  have hacquired := h.changed (h.exclusive.moves hmoves) hmoves.changed
  rw [Dispatcher.dispatch]
  split
  · rename_i i hok
    have hengine := Runtime.acquired_of_ok h.exclusive.sound hok
    constructor
    · exact hacquired.exclusive
    · exact h.capacity_eq
    · have hholds := h.holds
      rw [reservations, hreserved] at hholds
      apply hholds.perm
      simp only [reservations, Option.toList, List.map_nil, List.nil_append, List.map_append,
        List.map_cons, List.singleton_append]
      apply (List.perm_append_singleton _ _).symm
    · simp
    · intro a ha
      rcases List.mem_append.mp ha with ha | ha
      · exact hacquired.attempts a ha
      · cases List.mem_singleton.mp ha
        simp only [acquire_pool, hengine.engine]
        exact ⟨hengine.lt, Inventory.declared_of_mem (h.known engine hreserved)⟩
  · apply hacquired.abandon hreserved

theorem Accounted.step
    {s s' : Dispatcher} {e : Event} (h : s.Accounted inv capacity)
    (hstep : step inv s e = some s') :
  s'.Accounted inv capacity
  := by
  rw [Dispatcher.step.eq_def] at hstep
  split at hstep
  · split at hstep
    · rename_i engine hfree hengine
      cases hstep
      exact h.reserve hfree (List.mem_of_getElem? hengine)
    · cases hstep
  · obtain ⟨engine, hreserved, rfl⟩ := Option.map_eq_some_iff.mp hstep
    exact h.abandon hreserved
  · obtain ⟨engine, hreserved, rfl⟩ := Option.map_eq_some_iff.mp hstep
    exact h.dispatch hreserved _
  · obtain ⟨⟨i, r⟩, hattempt, rfl⟩ := Option.map_eq_some_iff.mp hstep
    exact h.finish hattempt
  · cases hstep
  · obtain ⟨runtime, hruntime, rfl⟩ := Option.map_eq_some_iff.mp hstep
    have hmoves := Runtime.step_moves h.exclusive.sound hruntime
    exact h.changed (h.exclusive.moves hmoves) hmoves.changed

/-! ### The live workers fit -/

/-- What the engines of the live workers declare is within the capacity. -/
def Fits (inv : Inventory) (capacity : ResourceCapacity) (s : Dispatcher) : Prop :=
  ((s.declared inv).map (·.ramBytes.toNat)).sum ≤ capacity.ramBytes.toNat
  ∧ ∀ gpu, vramOf (s.declared inv) gpu ≤ ((capacity.gpuVramBytes.find? gpu).getD 0).toNat

/-- Workers that end, and no new ones. -/
theorem Fits.changed
    {s s' : Dispatcher} (h : s.Fits inv capacity)
    (hchanged : s.runtime.pool.Changed s'.runtime.pool)
    (hcount : s'.runtime.pool.count = s.runtime.pool.count) :
  s'.Fits inv capacity
  := by
  have hsublist : (s'.declared inv).Sublist (s.declared inv) := by
    have hlive := Pool.requirements_sublist hchanged inv (fun _ => true) (fun _ => true)
      (fun _ _ => id) (fun i hle hlt => by omega)
    simpa [declared] using hlive
  constructor
  · exact (weight_le_of_sublist hsublist _).trans h.1
  · intro gpu
    have hle := h.2 gpu
    rw [vramOf_eq] at hle ⊢
    exact (weight_le_of_sublist hsublist _).trans hle

/-- The live workers weigh at most as much as the reservations of the attempts and the live
workers without a reservation. -/
theorem Accounted.weight_le
    {s : Dispatcher} (h : s.Accounted inv capacity) (weight : ResourceRequirement → Nat) :
  ((s.declared inv).map weight).sum
    ≤ ((s.unreserved inv).map weight).sum + ((s.attempts.map (·.2)).map weight).sum
  := by
  have hsplit := (List.filter_append_perm (fun i => i ∉ s.attempts.map (·.1))
    s.runtime.pool.live).symm
  have hsum : ((s.declared inv).map weight).sum = ((s.unreserved inv).map weight).sum
      + ((s.runtime.pool.requirements inv (s.runtime.pool.live.filter fun i =>
        !decide (i ∉ s.attempts.map (·.1)))).map weight).sum := by
    rw [declared, Pool.requirements, ((hsplit.filterMap _).map weight).sum_eq,
      List.filterMap_append, List.map_append, List.sum_append]
    rfl
  have hcovered : ∀ i ∈ s.runtime.pool.live.filter (fun i => !decide (i ∉ s.attempts.map (·.1))),
      ∃ r, inv.declared (s.runtime.pool.worker i).engineId = some r ∧ (i, r) ∈ s.attempts := by
    intro i hi
    have hmem := (List.mem_filter.mp hi).2
    simp only [Bool.not_eq_true', decide_eq_false_iff_not, not_not, List.mem_map] at hmem
    obtain ⟨⟨j, r⟩, hattempt, rfl⟩ := hmem
    exact ⟨r, (h.attempts _ hattempt).2, hattempt⟩
  have hle := sum_le_of_covered (fun i => inv.declared (s.runtime.pool.worker i).engineId)
    ((List.nodup_range.filter _).filter _) hcovered weight
  rw [hsum, List.map_map]
  exact Nat.add_le_add_left hle _

/-- The live workers without a reservation leave room for the reservations. -/
theorem room_of_fitsUnreserved
    {s : Dispatcher} (h : s.Accounted inv capacity) (hfits : s.fitsUnreserved inv = true) :
  ((s.unreserved inv).map (·.ramBytes.toNat)).sum
      + (s.reservations.map (·.ramBytes.toNat)).sum ≤ capacity.ramBytes.toNat
  ∧ ∀ gpu, vramOf (s.unreserved inv) gpu + vramOf s.reservations gpu
      ≤ ((capacity.gpuVramBytes.find? gpu).getD 0).toNat
  := by
  simp only [fitsUnreserved, Bool.and_eq_true, decide_eq_true_eq, List.all_eq_true] at hfits
  obtain ⟨hram, hvram⟩ := hfits
  rw [h.holds.ram, h.capacity_eq] at hram
  refine ⟨hram, ?_⟩
  intro gpu
  have hcapacity : s.manager.vramCapacity gpu = (capacity.gpuVramBytes.find? gpu).getD 0 := by
    rw [ResourceManager.vramCapacity, h.capacity_eq]
  rw [← h.holds.vram, ← hcapacity]
  by_cases hused : ∃ r ∈ s.unreserved inv, r.gpuId = gpu
  · obtain ⟨r, hr, rfl⟩ := hused
    exact hvram r hr
  · -- No worker without a reservation uses the GPU.
    have hnone : (s.unreserved inv).filter (·.gpuId = gpu) = [] := by
      rw [List.filter_eq_nil_iff]
      intro r hr hgpu
      exact hused ⟨r, hr, of_decide_eq_true hgpu⟩
    rw [vramOf, hnone, List.map_nil, List.sum_nil, Nat.zero_add]
    apply h.holds.vram_le

/-- A launch beside which the live workers without a reservation fit. -/
theorem Fits.launched
    {s : Dispatcher} {engine : EngineDescriptorFacts} {spawn : Spawn}
    (h : s.Accounted inv capacity) (hreserved : s.reserved = some engine)
    (hfits : s.fitsUnreserved inv = true)
    (hok : (s.runtime.pool.acquire engine.id spawn).1 = .ok s.runtime.pool.count)
    (hcount : (s.runtime.pool.acquire engine.id spawn).2.count = s.runtime.pool.count + 1) :
  (s.dispatch engine spawn).Fits inv capacity
  := by
  have haccounted := h.dispatch hreserved spawn
  have hmoves := Runtime.step_moves (e := .acquire engine.id spawn) h.exclusive.sound rfl
  have hchanged := hmoves.changed
  obtain ⟨hram, hvram⟩ := room_of_fitsUnreserved h hfits
  have hdispatch : s.dispatch engine spawn = { s with
      runtime := s.runtime.acquire engine.id spawn
      reserved := none
      attempts := s.attempts ++ [(s.runtime.pool.count, engine.resources)] } := by
    rw [Dispatcher.dispatch, hok]
  have hreservations : ((s.dispatch engine spawn).attempts.map (·.2)).Perm s.reservations := by
    rw [hdispatch, reservations, hreserved]
    simp only [List.map_append, List.map_cons, List.map_nil, Option.toList]
    apply List.perm_append_comm
  -- The new worker has a reservation, so the others without one were there before.
  have hothers : ((s.dispatch engine spawn).unreserved inv).Sublist (s.unreserved inv) := by
    rw [hdispatch]
    apply Pool.requirements_sublist hchanged inv
    · intro i _ hi
      simp only [List.map_append, List.mem_append, not_or, decide_eq_true_eq] at hi
      exact decide_eq_true hi.1
    · intro i hle hlt
      rw [acquire_pool, hcount] at hlt
      have hi : i = s.runtime.pool.count := by omega
      simp [hi]
  have hweight : ∀ weight : ResourceRequirement → Nat,
      (((s.dispatch engine spawn).declared inv).map weight).sum
        ≤ ((s.unreserved inv).map weight).sum + (s.reservations.map weight).sum := by
    intro weight
    have hle := haccounted.weight_le weight
    rw [(hreservations.map weight).sum_eq] at hle
    exact hle.trans (Nat.add_le_add_right (weight_le_of_sublist hothers weight) _)
  constructor
  · exact (hweight _).trans hram
  · intro gpu
    have hle := hvram gpu
    rw [vramOf_eq, vramOf_eq] at hle
    rw [vramOf_eq]
    exact (hweight _).trans hle

theorem Fits.step
    {s s' : Dispatcher} {e : Event} (h : s.Fits inv capacity) (haccounted : s.Accounted inv capacity)
    (hguard : s.launchFits inv e = true) (hstep : Dispatcher.step inv s e = some s') :
  s'.Fits inv capacity
  := by
  rw [Dispatcher.step.eq_def] at hstep
  split at hstep
  · split at hstep
    · rename_i engine hfree hengine
      cases hstep
      rw [Dispatcher.reserve]
      split
      · split
        · exact h
        · exact h
        · exact h
      · exact h
    · cases hstep
  · obtain ⟨engine, hreserved, rfl⟩ := Option.map_eq_some_iff.mp hstep
    exact h
  · rename_i spawn
    obtain ⟨engine, hreserved, rfl⟩ := Option.map_eq_some_iff.mp hstep
    have hmoves := Runtime.step_moves (e := .acquire engine.id spawn) haccounted.exclusive.sound rfl
    have hruntime : (s.dispatch engine spawn).runtime = s.runtime.acquire engine.id spawn := by
      rw [Dispatcher.dispatch]
      split <;> rfl
    rcases s.runtime.pool.acquire_count engine.id spawn with
      hcount | ⟨hidle, hok, hcount, pid, inputFd, outputFd, nowMs, rfl⟩
    · apply h.changed
      · rw [hruntime]
        exact hmoves.changed
      · rw [hruntime, acquire_pool, hcount]
    · rw [launchFits, hreserved, Option.all_some, hidle, Bool.false_or] at hguard
      exact Fits.launched haccounted hreserved hguard hok hcount
  · obtain ⟨⟨i, r⟩, hattempt, rfl⟩ := Option.map_eq_some_iff.mp hstep
    exact h
  · cases hstep
  · rename_i e' hnot
    obtain ⟨runtime, hruntime, rfl⟩ := Option.map_eq_some_iff.mp hstep
    have hmoves := Runtime.step_moves haccounted.exclusive.sound hruntime
    exact h.changed hmoves.changed (hmoves.count hnot)

end

/-- In a run in which every process is launched only when the live workers without a reservation
fit into what the reservations leave free, the live workers together need at most the RAM of the
machine, and of each GPU at most its VRAM. -/
theorem live_workers_fit
    (inv : Inventory) (capacity : ResourceCapacity) (s₀ s : Dispatcher) (es : List Event)
    (hinit : (machine inv capacity).init s₀) (hrun : (machine inv capacity).run s₀ es = some s)
    (hguard : (machine inv capacity).Within (fun s e => s.launchFits inv e = true) s₀ es) :
  ((s.declared inv).map (·.ramBytes.toNat)).sum ≤ capacity.ramBytes.toNat
  ∧ ∀ gpu, vramOf (s.declared inv) gpu ≤ ((capacity.gpuVramBytes.find? gpu).getD 0).toNat
  := by
  have hstart : s₀.Accounted inv capacity ∧ s₀.Fits inv capacity := by
    refine ⟨accounted_init hinit, ?_⟩
    obtain ⟨⟨launchSpecs, idleTimeoutMs, pool, hcreate, hruntime⟩, -⟩ := hinit
    have hnone : s₀.declared inv = [] := by
      rw [declared, hruntime, Pool.live, Runtime.ofPool, (Pool.sound_create hcreate).2.1]
      rfl
    rw [Fits, hnone]
    exact ⟨Nat.zero_le _, fun _ => Nat.zero_le _⟩
  have hend := hguard.preserves (P := fun s => s.Accounted inv capacity ∧ s.Fits inv capacity)
    (fun hs hlaunch hstep => ⟨hs.1.step hstep, hs.2.step hs.1 hlaunch hstep⟩) hstart hrun
  exact hend.2

namespace Sample

/-- An engine whose workers need a given part of the RAM. -/
def engine (id : Bytes) (hid : 0 ∉ id) (ramBytes : UInt64) : EngineDescriptorFacts where
  id := id
  workTypes := []
  capabilities := []
  modelIds := []
  supportedEfforts := []
  placement := []
  availability := []
  resources := ⟨1, ramBytes, [], 0⟩
  id_nulFree := hid
  modelIds_nulFree := by
    simp

def inventory (ramBytes : UInt64) : Inventory where
  engines := [engine [97] (by decide) ramBytes, engine [98] (by decide) ramBytes]
  distinct := by
    simp [engine]

/-- A machine with 100 octets of RAM. -/
def capacity : ResourceCapacity := ⟨2, 100, ∅⟩

/-- Nothing runs, and each engine has a launch spec. -/
def start : Dispatcher where
  runtime := Runtime.ofPool
    { Pool.Sample.idle with
      launchSpecs := SortedMap.ofEntries [([97], ⟨[119], []⟩), ([98], ⟨[119], []⟩)] }
  manager := .ofCapacity capacity
  reserved := none
  attempts := []

theorem init_start (ramBytes : UInt64) :
  (machine (inventory ramBytes) capacity).init start
  := by
  refine ⟨⟨start.runtime.pool.launchSpecs, 1000, start.runtime.pool, ?_, rfl⟩, ?_, rfl, rfl⟩
  · rw [Pool.create, if_neg (by decide), if_neg (by decide +kernel)]
    rfl
  · rw [ResourceManager.create, if_neg (by decide)]
    rfl

/-- An attempt on the first engine ends, its worker is kept, and an attempt on the second engine
begins. -/
def events : List Event :=
  [.reserve 0, .dispatch (.started 7 8 9 0), .runtime (.lease (.destroy 0) 1), .finish 0,
    .reserve 1, .dispatch (.started 10 11 12 2)]

end Sample

theorem live_workers_fit_two :
  ∃ s, (machine (Sample.inventory 40) Sample.capacity).run Sample.start Sample.events = some s
    ∧ s.runtime.pool.live = [0, 1]
    ∧ ((s.declared (Sample.inventory 40)).map (·.ramBytes.toNat)).sum ≤ 100
  := by
  have hcheck : ((machine (Sample.inventory 40) Sample.capacity).runWithin
      (fun s e => s.launchFits (Sample.inventory 40) e) Sample.start Sample.events).any
      (fun s => s.runtime.pool.live = [0, 1]) = true := by
    decide +kernel
  obtain ⟨s, hrunWithin, hlive⟩ := (Option.any_eq_true _ _).mp hcheck
  obtain ⟨hguard, hrun⟩ := Machine.within_of_runWithin hrunWithin
  refine ⟨s, hrun, of_decide_eq_true hlive, ?_⟩
  exact (live_workers_fit _ _ _ _ _ (Sample.init_start 40) hrun hguard).1

/-- A worker is launched beside one that is kept warm, and together they need more RAM than the
machine has. -/
theorem launched_beside_warm :
  ¬∀ inv capacity s, (machine inv capacity).Reachable s →
    ((s.declared inv).map (·.ramBytes.toNat)).sum ≤ capacity.ramBytes.toNat
    ∧ ∀ gpu, vramOf (s.declared inv) gpu ≤ ((capacity.gpuVramBytes.find? gpu).getD 0).toNat
  := by
  intro h
  have hcheck : ((machine (Sample.inventory 60) Sample.capacity).run Sample.start
      Sample.events).any
      (fun s => ((s.declared (Sample.inventory 60)).map (·.ramBytes.toNat)).sum = 120) = true := by
    decide +kernel
  obtain ⟨s, hrun, hsum⟩ := (Option.any_eq_true _ _).mp hcheck
  have hreach : (machine (Sample.inventory 60) Sample.capacity).Reachable s :=
    ⟨Sample.start, _, Sample.init_start 60, hrun⟩
  have hle := (h _ _ s hreach).1
  rw [of_decide_eq_true hsum] at hle
  revert hle
  decide

end Dispatcher

end Kernel
