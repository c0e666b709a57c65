import MadreKernel.Kernel.Grants
import MadreKernel.Kernel.Options
import MadreKernel.Kernel.Records
import MadreKernel.Pool.Exclusivity

/-!
# The Kernel of a command line

`main` makes an inventory of engines and a table of worker launches from one set of options, and
gives both to the Kernel.  The table has a launch for each engine of the inventory and for nothing
else, the resources of every engine are valid, and the constructors of the resource manager and of
the worker pool accept what they get.

The Kernel is then a system together with the worker runtime of its process.  The scheduler selects
engines of the inventory only, so that it never asks the resource manager about resources that are
not valid, and never asks the pool for a worker without a launch.
-/

namespace Kernel

/-! ### The launch table -/

/-- The launch of a fake worker. -/
def fakeLaunch (options : Options) (engine : EngineDescriptorFacts) : WorkerLaunchSpec where
  executable := options.fakeWorker.toBytes
  arguments := [Bytes.ofString "--engine-id", engine.id, Bytes.ofString "--delay-ms",
    Bytes.ofString (toString options.fakeDelayMs.toInt)]

/-- The launch of the worker that is configured. -/
def configuredLaunch (options : Options) : WorkerLaunchSpec where
  executable := options.workerExecutable.toBytes
  arguments := options.workerArguments.map (·.toBytes)

def buildWorkerLaunches (options : Options) : SortedMap Bytes WorkerLaunchSpec :=
  let launches := (fakeEngines options).foldl
    (fun launches engine => launches.emplace engine.id (fakeLaunch options engine)) ∅
  if hasConfiguredWorker options then
    launches.emplace options.workerEngineId.toBytes (configuredLaunch options)
  else launches

/-- The launches of the engines of an inventory. -/
def launchEntries (options : Options) : List (Bytes × WorkerLaunchSpec) :=
  (fakeEngines options).map (fun engine => (engine.id, fakeLaunch options engine))
    ++ if hasConfiguredWorker options then
        [(options.workerEngineId.toBytes, configuredLaunch options)]
      else []

theorem buildWorkerLaunches_eq (options : Options) :
  buildWorkerLaunches options = SortedMap.ofEntries (launchEntries options)
  := by
  rw [buildWorkerLaunches, launchEntries, SortedMap.ofEntries, List.foldl_append, List.foldl_map]
  split_ifs
  all_goals rfl

variable {arguments : List CString} {options : Options} {inventory : List EngineDescriptorFacts}

/-- There is one launch for each engine of the inventory, in order. -/
theorem map_fst_launchEntries (h : buildEngineInventory options = .ok inventory) :
  (launchEntries options).map Prod.fst = inventory.map (·.id)
  := by
  rw [buildEngineInventory_eq h, launchEntries, List.map_append, List.map_append, List.map_map]
  split_ifs
  all_goals rfl

theorem find?_buildWorkerLaunches
    (h : buildEngineInventory options = .ok inventory) (id : Bytes) (launch : WorkerLaunchSpec) :
  (buildWorkerLaunches options).find? id = some launch ↔ (id, launch) ∈ launchEntries options
  := by
  rw [buildWorkerLaunches_eq]
  apply SortedMap.find?_ofEntries_eq_some_iff
  rw [map_fst_launchEntries h]
  exact nodup_buildEngineInventory h

/-- The engines with a launch are those of the inventory. -/
theorem exists_launch_iff (h : buildEngineInventory options = .ok inventory) (id : Bytes) :
  (∃ launch, (buildWorkerLaunches options).find? id = some launch) ↔ id ∈ inventory.map (·.id)
  := by
  rw [← map_fst_launchEntries h, List.mem_map]
  constructor
  · rintro ⟨launch, hfind⟩
    use (id, launch), (find?_buildWorkerLaunches h id launch).mp hfind
  · rintro ⟨⟨id, launch⟩, hmem, rfl⟩
    use launch, (find?_buildWorkerLaunches h id launch).mpr hmem

theorem find?_configured
    (h : buildEngineInventory options = .ok inventory)
    (hconfigured : hasConfiguredWorker options = true) :
  (buildWorkerLaunches options).find? options.workerEngineId.toBytes
    = some (configuredLaunch options)
  := by
  rw [find?_buildWorkerLaunches h, launchEntries, if_pos hconfigured]
  exact List.mem_append_right _ List.mem_cons_self

/-! ### What the checks of `parse_options` establish -/

/-- What the checks of `parse_options` establish of a configured worker. -/
structure Options.CheckedWorker (options : Options) : Prop where
  engineId : options.workerEngineId.toBytes ≠ []
  executable : options.workerExecutable.toBytes ≠ []
  cpuSlots : ¬ options.workerCpuSlots < 1
  ramBytes : options.workerRamBytes ≠ 0
  gpu : decide (options.workerGpuId.toBytes = []) = decide (options.workerGpuVramBytes = 0)

/-- What the checks of `parse_options` establish. -/
structure Options.Checked (options : Options) : Prop where
  idle : ¬ options.workerIdleMs < 0
  cpuSlots : ¬ options.capacity.cpuSlots < 1
  ramBytes : options.capacity.ramBytes ≠ 0
  worker : hasConfiguredWorker options = true → options.CheckedWorker

theorem parseOptions_checked (h : parseOptions arguments = .ok options) :
  options.Checked
  := by
  rw [parseOptions] at h
  obtain ⟨parsed, -, h⟩ := bind_eq_ok h
  simp only at h
  split_ifs at h with hphysical hworker hgpu
  cases h
  simp only [not_or] at hphysical
  obtain ⟨-, -, -, hidle, hcpu, hram⟩ := hphysical
  refine ⟨hidle, hcpu, hram, ?_⟩
  intro hconfigured
  simp only [not_and, not_or, not_not] at hworker hgpu
  obtain ⟨hid, hexecutable, -, -, hslots, hbytes⟩ := hworker hconfigured
  exact ⟨hid, hexecutable, hslots, hbytes, hgpu hconfigured⟩

/-- The resources of the engines of the fake worker are valid, and their ids are not empty. -/
theorem fakeEngineInventory_valid :
  ∀ engine ∈ fakeEngineInventory,
    ResourceManager.validateRequirement engine.resources = .ok () ∧ engine.id ≠ []
  := by
  decide +kernel

theorem mem_fakeEngines {engine : EngineDescriptorFacts} (h : engine ∈ fakeEngines options) :
  options.fakeWorker.toBytes ≠ [] ∧ engine ∈ fakeEngineInventory
  := by
  rw [fakeEngines] at h
  split_ifs at h with hfake
  · cases h
  · exact ⟨hfake, h⟩

/-- The resources of every engine of an inventory are valid. -/
theorem Options.Checked.requirements
    (hchecked : options.Checked) (h : buildEngineInventory options = .ok inventory) :
  ∀ engine ∈ inventory, ResourceManager.validateRequirement engine.resources = .ok ()
  := by
  intro engine hengine
  rw [buildEngineInventory_eq h, List.mem_append] at hengine
  rcases hengine with hfake | hconfigured
  · exact (fakeEngineInventory_valid engine (mem_fakeEngines hfake).2).1
  · split_ifs at hconfigured with hworker
    · rw [List.mem_singleton] at hconfigured
      obtain ⟨-, -, hslots, hbytes, hgpu⟩ := hchecked.worker hworker
      simp [hconfigured, configuredEngine, ResourceManager.validateRequirement, hslots, hbytes, hgpu]
    · cases hconfigured

/-- The resource manager accepts the capacity. -/
theorem Options.Checked.create_manager (hchecked : options.Checked) :
  ResourceManager.create options.capacity = .ok (.ofCapacity options.capacity)
  := by
  simp [ResourceManager.create, hchecked.cpuSlots, hchecked.ramBytes]

/-- Every launch has an engine and an executable. -/
theorem Options.Checked.launches
    (hchecked : options.Checked) {entry : Bytes × WorkerLaunchSpec}
    (hentry : entry ∈ launchEntries options) :
  entry.1 ≠ [] ∧ entry.2.executable ≠ []
  := by
  rw [launchEntries, List.mem_append] at hentry
  rcases hentry with hfake | hconfigured
  · obtain ⟨engine, hengine, rfl⟩ := List.mem_map.mp hfake
    obtain ⟨hexecutable, hmem⟩ := mem_fakeEngines hengine
    exact ⟨(fakeEngineInventory_valid engine hmem).2, hexecutable⟩
  · split_ifs at hconfigured with hworker
    · rw [List.mem_singleton] at hconfigured
      rw [hconfigured]
      exact ⟨(hchecked.worker hworker).engineId, (hchecked.worker hworker).executable⟩
    · cases hconfigured

/-- The worker pool accepts the launches. -/
theorem Options.Checked.create_pool
    (hchecked : options.Checked) (h : buildEngineInventory options = .ok inventory) :
  ∃ pool, Pool.create (buildWorkerLaunches options) options.workerIdleMs = .ok pool
  := by
  rw [Pool.create]
  split_ifs with hidle hentries
  · exact absurd hidle hchecked.idle
  · obtain ⟨⟨id, launch⟩, hmem, hempty⟩ := List.any_eq_true.mp hentries
    rw [SortedMap.mem_entries_iff, find?_buildWorkerLaunches h] at hmem
    obtain ⟨hid, hexecutable⟩ := hchecked.launches hmem
    simp [hid, hexecutable] at hempty
  · exact ⟨_, rfl⟩

/-! ### The scheduler and the worker pool -/

/-- The system, and the worker runtime of its process. -/
structure Assembly where
  system : System
  runtime : Option Runtime

namespace Assembly

inductive Event where
  /-- The system moves without the worker pool. -/
  | system (e : System.Event)
  /-- The scheduler acquires a worker for the attempt that has begun. -/
  | launch (nowMs : Int64) (faults : List (Option Bytes)) (spawn : Spawn)
  | runtime (e : Runtime.Event)

/-- The engine for whose attempt the scheduler needs a worker. -/
def launching? (s : System) : Option Bytes :=
  s.process.bind fun p =>
    match p.scheduler with
    | .launching _ selection _ _ => some selection.engine.id
    | _ => none

/-- The system after a step; the runtime goes with its process. -/
def moved (runtime : Option Runtime) (s : System) : Assembly :=
  ⟨s, if s.process.isSome then runtime else none⟩

variable (cfg : Config) (launches : SortedMap Bytes WorkerLaunchSpec) (idleTimeoutMs : Int64)

def step (a : Assembly) : Event → Option Assembly
  | .system (.start nowMs faults) =>
      -- the constructor of the Kernel makes the resource manager and the worker pool
      match ResourceManager.create cfg.capacity, Pool.create launches idleTimeoutMs with
      | .ok _, .ok pool =>
          (a.system.step cfg (.start nowMs faults)).map (moved (some (Runtime.ofPool pool)))
      | _, _ => none
  | .system (.scheduler input) =>
      if launching? a.system = none then
        (a.system.step cfg (.scheduler input)).map (moved a.runtime)
      else none
  | .system e => (a.system.step cfg e).map (moved a.runtime)
  | .launch nowMs faults spawn =>
      match launching? a.system, a.runtime with
      | some engineId, some r =>
          let acquired := (r.pool.acquire engineId spawn).1.map fun _ => ()
          (a.system.step cfg (.scheduler ⟨nowMs, faults, acquired⟩)).map
            (moved (some (r.acquire engineId spawn)))
      | _, _ => none
  | .runtime (.acquire _ _) => none
  | .runtime e => a.runtime.bind fun r => (r.step e).map fun r => { a with runtime := some r }

def machine : Machine Assembly Event where
  init a := a.system.Initial ∧ a.runtime = none
  step := step cfg launches idleTimeoutMs

/-! ### What every run of it keeps -/

/-- The system runs as it does with any worker pool, and the pool of a process has the launches of
its constructor. -/
structure Holds (a : Assembly) : Prop where
  reachable : (Kernel.machine cfg).Reachable a.system
  runtime : a.runtime.isSome = a.system.process.isSome
  launches : ∀ r ∈ a.runtime, r.pool.launchSpecs = launches ∧ r.pool.Sound

variable {cfg launches idleTimeoutMs}

/-- The system moves, with a runtime when it has a process. -/
theorem holds_moved
    {s s' : System} {e : System.Event} {runtime : Option Runtime}
    (hreach : (Kernel.machine cfg).Reachable s) (hstep : s.step cfg e = some s')
    (hruntime : s'.process.isSome = true → runtime.isSome = true)
    (hlaunches : ∀ r ∈ runtime, r.pool.launchSpecs = launches ∧ r.pool.Sound) :
  (moved runtime s').Holds cfg launches
  := by
  constructor
  · exact hreach.step hstep
  · rw [moved]
    split_ifs with hprocess
    · rw [hprocess, hruntime hprocess]
    · rw [Bool.not_eq_true] at hprocess
      rw [hprocess]
      rfl
  · intro r hr
    rw [moved] at hr
    split_ifs at hr
    · exact hlaunches r hr
    · cases hr

/-- Only the start of a Kernel makes a process. -/
theorem process_of_step
    {s s' : System} {e : System.Event} (hstep : s.step cfg e = some s')
    (hstart : ∀ nowMs faults, e ≠ .start nowMs faults) :
  s.process.isSome = true
  := by
  cases hprocess : s.process with
  | some p => rfl
  | none =>
      cases e with
      | start nowMs faults => exact absurd rfl (hstart nowMs faults)
      | _ =>
          simp only [System.step, hprocess] at hstep
          cases hstep

/-- A step of the runtime keeps the launches of its pool. -/
theorem launches_of_moves
    {r r' : Runtime} {e : Runtime.Event} (h : Runtime.Moves r e r')
    (hlaunches : r.pool.launchSpecs = launches ∧ r.pool.Sound) :
  r'.pool.launchSpecs = launches ∧ r'.pool.Sound
  := ⟨h.changed.launchSpecs.trans hlaunches.1, h.changed.sound hlaunches.2⟩

theorem launches_of_create {pool : Pool} (h : Pool.create launches idleTimeoutMs = .ok pool) :
  pool.launchSpecs = launches ∧ pool.Sound
  := by
  refine ⟨?_, (Pool.sound_create h).1⟩
  rw [Pool.create] at h
  split_ifs at h
  cases h
  rfl

/-- A step of the system that makes no process. -/
theorem Holds.system
    {a a' : Assembly} {e : System.Event} (h : a.Holds cfg launches)
    (hstart : ∀ nowMs faults, e ≠ .start nowMs faults)
    (hstep : (a.system.step cfg e).map (moved a.runtime) = some a') :
  a'.Holds cfg launches
  := by
  obtain ⟨s', hs', rfl⟩ := Option.map_eq_some_iff.mp hstep
  apply holds_moved h.reachable hs' _ h.launches
  intro _
  rw [h.runtime]
  exact process_of_step hs' hstart

theorem Holds.step
    {a a' : Assembly} {e : Event} (h : a.Holds cfg launches)
    (hstep : a.step cfg launches idleTimeoutMs e = some a') :
  a'.Holds cfg launches
  := by
  cases e with
  | system e =>
      cases e with
      | start nowMs faults =>
          rw [Assembly.step] at hstep
          split at hstep
          next pool _ hpool =>
            obtain ⟨s', hs', rfl⟩ := Option.map_eq_some_iff.mp hstep
            apply holds_moved h.reachable hs' (fun _ => rfl)
            rintro r ⟨⟩
            exact launches_of_create hpool
          next => cases hstep
      | scheduler input =>
          rw [Assembly.step] at hstep
          split_ifs at hstep
          exact h.system (by simp) hstep
      | crash => exact h.system (by simp) hstep
      | stop => exact h.system (by simp) hstep
      | task i input => exact h.system (by simp) hstep
      | handler input => exact h.system (by simp) hstep
  | launch nowMs faults spawn =>
      rw [Assembly.step] at hstep
      split at hstep
      next engineId r hengine hr =>
        obtain ⟨s', hs', rfl⟩ := Option.map_eq_some_iff.mp hstep
        apply holds_moved h.reachable hs' (fun _ => rfl)
        rintro r' ⟨⟩
        have hlaunches := h.launches r hr
        exact launches_of_moves (Runtime.step_moves hlaunches.2 (e := .acquire engineId spawn) rfl)
          hlaunches
      next => cases hstep
  | runtime e =>
      have hbind : (a.runtime.bind fun r => (r.step e).map fun r =>
          ({ a with runtime := some r } : Assembly)) = some a' := by
        cases e with
        | acquire engineId spawn => cases hstep
        | _ => exact hstep
      obtain ⟨r, hr, hmap⟩ := Option.bind_eq_some_iff.mp hbind
      obtain ⟨r', hr', rfl⟩ := Option.map_eq_some_iff.mp hmap
      have hlaunches := h.launches r hr
      refine ⟨h.reachable, ?_, ?_⟩
      · rw [← h.runtime, hr]
        rfl
      · rintro r'' ⟨⟩
        exact launches_of_moves (Runtime.step_moves hlaunches.2 hr') hlaunches

theorem reachable_holds {a : Assembly} (h : (machine cfg launches idleTimeoutMs).Reachable a) :
  a.Holds cfg launches
  := by
  apply h.invariant
  · rintro a ⟨hinit, hnone⟩
    refine ⟨⟨a.system, [], hinit, rfl⟩, ?_, ?_⟩
    · rw [hnone, hinit.2.1]
      rfl
    · intro r hr
      rw [hnone] at hr
      cases hr
  · intro a e a' _ hholds hstep
    exact hholds.step hstep

/-! ### What the scheduler never meets -/

/-- The calls of the scheduler do not throw for the configuration: asking for the resources of the
engine that is selected returns, and a worker is not acquired only when its process is not started.
-/
structure NeverThrows (inventory : List EngineDescriptorFacts) (a : Assembly) : Prop where
  resources : ∀ p schedulerNow work selection, a.system.process = some p →
    p.scheduler = .dispatching schedulerNow work → selectEngine work inventory = .ok selection →
    (∃ fits, p.resources.canEverReserve selection.engine.resources = .ok fits)
      ∧ ∃ result, p.resources.tryReserve selection.engine.resources = .ok result
  worker : ∀ engineId, launching? a.system = some engineId →
    ∃ r, a.runtime = some r ∧ ∀ spawn what,
      (r.pool.acquire engineId spawn).1 = .error what → spawn = .failed what

theorem canEverReserve_of_valid
    (m : ResourceManager) {r : ResourceRequirement}
    (hr : ResourceManager.validateRequirement r = .ok ()) :
  ∃ fits, m.canEverReserve r = .ok fits
  := by
  obtain ⟨m', htry⟩ := (ResourceManager.ofCapacity m.capacity).tryReserve_of_valid hr
  rw [ResourceManager.canEverReserve_eq, htry]
  exact ⟨_, rfl⟩

/-- A worker of an engine with a launch is acquired, unless its process is not started. -/
theorem acquire_error
    {p : Pool} {engineId what : Bytes} {launch : WorkerLaunchSpec} {spawn : Spawn}
    (hlaunch : p.launchSpecs.find? engineId = some launch)
    (h : (p.acquire engineId spawn).1 = .error what) :
  spawn = .failed what
  := by
  have hscan := Pool.scan_scanned (Pool.visitToAcquire engineId) p p.nodup
  rw [Pool.acquire] at h
  split at h
  next => cases h
  next p' heq =>
    rw [heq] at hscan
    have hlaunch' : p'.launchSpecs.find? engineId = some launch := by
      rw [hscan.launchSpecs, hlaunch]
    rw [hlaunch'] at h
    cases spawn with
    | started pid inputFd outputFd nowMs => cases h
    | failed what' =>
        cases h
        rfl

theorem Holds.neverThrows
    {a : Assembly} (h : a.Holds cfg launches)
    (hvalid : ∀ engine ∈ cfg.inventory,
      ResourceManager.validateRequirement engine.resources = .ok ())
    (hlaunches : ∀ engine ∈ cfg.inventory, ∃ launch, launches.find? engine.id = some launch) :
  a.NeverThrows cfg.inventory
  := by
  constructor
  · intro p schedulerNow work selection _ _ hselect
    have hrequirement := hvalid _ (selectEngine_suits hselect).1
    obtain ⟨m, htry⟩ := p.resources.tryReserve_of_valid hrequirement
    exact ⟨canEverReserve_of_valid p.resources hrequirement, _, htry⟩
  · intro engineId hengine
    obtain ⟨p, hprocess, hphase⟩ := Option.bind_eq_some_iff.mp hengine
    split at hphase
    next work selection number startedAtMs hscheduler =>
      cases hphase
      have hheld : p.scheduler.selected? = some (work, selection) := by
        rw [hscheduler]
        rfl
      have hmem := (selectEngine_suits (reachable_selected h.reachable hprocess hheld)).1
      have hsome : a.runtime.isSome = true := by
        rw [h.runtime, hprocess]
        rfl
      obtain ⟨r, hr⟩ := Option.isSome_iff_exists.mp hsome
      use r, hr
      intro spawn what herror
      obtain ⟨launch, hlaunch⟩ := hlaunches selection.engine hmem
      rw [← (h.launches r hr).1] at hlaunch
      exact acquire_error hlaunch herror
    next => cases hphase

end Assembly

/-- A configuration that the command line and the inventory accept cannot make the scheduler throw:
the ids of the engines differ, the launches are those of the engines, every requirement is valid,
the constructors accept what they get, and in every reachable state the scheduler never asks for
resources that are not valid and never for a worker without a launch. -/
theorem accepted_configuration_safe
    (hparse : parseOptions arguments = .ok options)
    (hbuild : buildEngineInventory options = .ok inventory) :
  (inventory.map (·.id)).Nodup
    ∧ (∀ id, (∃ launch, (buildWorkerLaunches options).find? id = some launch)
      ↔ id ∈ inventory.map (·.id))
    ∧ (hasConfiguredWorker options = true →
      (buildWorkerLaunches options).find? options.workerEngineId.toBytes
        = some ⟨options.workerExecutable.toBytes, options.workerArguments.map (·.toBytes)⟩)
    ∧ (∀ engine ∈ inventory, ResourceManager.validateRequirement engine.resources = .ok ())
    ∧ (∃ manager, ResourceManager.create options.capacity = .ok manager)
    ∧ (∃ pool, Pool.create (buildWorkerLaunches options) options.workerIdleMs = .ok pool)
    ∧ ∀ a, (Assembly.machine (options.config inventory) (buildWorkerLaunches options)
        options.workerIdleMs).Reachable a → a.NeverThrows inventory
  := by
  have hchecked := parseOptions_checked hparse
  have hvalid := hchecked.requirements hbuild
  refine ⟨nodup_buildEngineInventory hbuild, exists_launch_iff hbuild, find?_configured hbuild,
    hvalid, ⟨_, hchecked.create_manager⟩, hchecked.create_pool hbuild, ?_⟩
  intro a ha
  apply (Assembly.reachable_holds ha).neverThrows hvalid
  intro engine hengine
  exact (exists_launch_iff hbuild engine.id).mpr (List.mem_map_of_mem hengine)

/-- A Kernel with a fake worker and a configured one. -/
theorem accepted_configuration_safe_both :
  ∃ options inventory,
    parseOptions (["--data-dir", "d", "--endpoint", "e", "--fake-worker", "f",
        "--worker-engine-id", "w", "--worker-executable", "x"].map literal) = .ok options
      ∧ buildEngineInventory options = .ok inventory ∧ inventory.length = 4
      ∧ (buildWorkerLaunches options).find? (literal "w").toBytes
        = some ⟨(literal "x").toBytes, []⟩
      ∧ ∀ a, (Assembly.machine (options.config inventory) (buildWorkerLaunches options)
          options.workerIdleMs).Reachable a → a.NeverThrows inventory
  := by
  let options : Options := {
    dataDir := literal "d"
    endpoint := literal "e"
    fakeWorker := literal "f"
    workerEngineId := literal "w"
    workerExecutable := literal "x" }
  have hoptions : parseOptions (["--data-dir", "d", "--endpoint", "e", "--fake-worker", "f",
      "--worker-engine-id", "w", "--worker-executable", "x"].map literal) = .ok options := rfl
  have hinventory : buildEngineInventory options
      = .ok (fakeEngineInventory ++ [configuredEngine options]) := rfl
  obtain ⟨-, -, hlaunch, -, -, -, hreachable⟩ := accepted_configuration_safe hoptions hinventory
  use options, fakeEngineInventory ++ [configuredEngine options], hoptions, hinventory, rfl
  exact ⟨hlaunch rfl, hreachable⟩

end Kernel
