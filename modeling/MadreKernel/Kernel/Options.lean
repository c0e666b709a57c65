import Mathlib.Tactic.FinCases
import MadreKernel.Kernel.Engines
import MadreKernel.Kernel.Numbers
import MadreKernel.Kernel.System

/-!
# The command line

`parse_options` reads the command line of the Kernel and checks what it has read, and
`build_engine_inventory` makes the inventory of engines of it: those of the fake worker, and the one
that is configured.  Arguments hold no NUL octet.

The checks are about resources and about texts that are missing.  What is known of the other texts
is that the lists come from `split_csv`: their items are not empty and hold no comma.
-/

namespace Kernel

def kMiB : UInt64 := 1024 * 1024

/-- A string literal, which ends at its first NUL octet. -/
def literal (s : String) : CString := .ofBytes (Bytes.ofString s)

structure Options where
  dataDir : CString := literal ""
  endpoint : CString := literal ""
  fakeWorker : CString := literal ""
  fakeDelayMs : Int32 := 250
  workerIdleMs : Int64 := 1000
  capacity : ResourceCapacity := ⟨2, 512 * kMiB, ∅⟩
  workerEngineId : CString := literal ""
  workerExecutable : CString := literal ""
  workerModelId : CString := literal ""
  workerArguments : List CString := []
  workerWorkTypes : List Bytes := [Bytes.ofString "text-generation/v1"]
  workerCapabilities : List Bytes := [Bytes.ofString "basic-text"]
  workerEfforts : List Bytes := [Bytes.ofString "STANDARD"]
  workerCpuSlots : Int32 := 1
  workerRamBytes : UInt64 := 256 * kMiB
  workerGpuId : CString := literal ""
  workerGpuVramBytes : UInt64 := 0

def addGpuCapacity (capacity : ResourceCapacity) (specification : Bytes) :
    Except Bytes ResourceCapacity := do
  let id := specification.takeWhile (· ≠ Wire.equalsSign)
  let size := (specification.dropWhile (· ≠ Wire.equalsSign)).drop 1
  if Wire.equalsSign ∉ specification ∨ id = [] ∨ size = [] then
    .error (Bytes.ofString "GPU capacity must use ID=MiB")
  else
    let mib ← stoull size
    if mib = 0 ∨ (capacity.gpuVramBytes.find? id).isSome = true then
      .error (Bytes.ofString "GPU capacity identity must be unique and positive")
    else
      return { capacity with gpuVramBytes := capacity.gpuVramBytes.emplace id (mib * kMiB) }

def hasConfiguredWorker (options : Options) : Bool :=
  options.workerEngineId.toBytes ≠ [] || options.workerExecutable.toBytes ≠ []
    || options.workerModelId.toBytes ≠ [] || options.workerArguments ≠ []

/-! ### The inventory -/

def fakeEngine (id : String) (capabilities modelIds supportedEfforts : List String)
    (resources : ResourceRequirement) : EngineDescriptorFacts where
  id := (literal id).toBytes
  workTypes := [Bytes.ofString "text-generation/v1"]
  capabilities := capabilities.map Bytes.ofString
  modelIds := modelIds.map fun m => (literal m).toBytes
  supportedEfforts := supportedEfforts.map Bytes.ofString
  placement := Bytes.ofString "LOCAL_WORKER_PROCESS"
  availability := Bytes.ofString "AVAILABLE"
  resources := resources
  id_nulFree := CString.zero_notMem_toBytes _
  modelIds_nulFree := by
    intro m hm
    obtain ⟨s, -, rfl⟩ := List.mem_map.mp hm
    apply CString.zero_notMem_toBytes

def fakeEngineInventory : List EngineDescriptorFacts :=
  [fakeEngine "fake-standard" ["basic-text"] ["standard-v1", "shared-v1"] ["STANDARD"]
      ⟨1, 64 * kMiB, [], 0⟩,
    fakeEngine "fake-capable" ["basic-text", "structured-output", "long-context"]
      ["high-v1", "shared-v1"] ["STANDARD", "HIGH"]
      ⟨1, 96 * kMiB, Bytes.ofString "fake-gpu-0", 64 * kMiB⟩,
    fakeEngine "fake-vision" ["basic-text", "image-input"] ["vision-v1"] ["HIGH"]
      ⟨1, 96 * kMiB, Bytes.ofString "fake-gpu-0", 96 * kMiB⟩]

/-- The engine that is configured. -/
def configuredEngine (options : Options) : EngineDescriptorFacts where
  id := options.workerEngineId.toBytes
  workTypes := options.workerWorkTypes
  capabilities := options.workerCapabilities
  modelIds := if options.workerModelId.toBytes = [] then [] else [options.workerModelId.toBytes]
  supportedEfforts := options.workerEfforts
  placement := Bytes.ofString "LOCAL_WORKER_PROCESS"
  availability := Bytes.ofString "AVAILABLE"
  resources := ⟨options.workerCpuSlots, options.workerRamBytes, options.workerGpuId.toBytes,
    options.workerGpuVramBytes⟩
  id_nulFree := CString.zero_notMem_toBytes _
  modelIds_nulFree := by
    intro m hm
    split_ifs at hm
    · cases hm
    · rw [List.mem_singleton] at hm
      rw [hm]
      apply CString.zero_notMem_toBytes

theorem modelIds_configuredEngine (options : Options) :
  (configuredEngine options).modelIds
    = if options.workerModelId.toBytes = [] then [] else [options.workerModelId.toBytes]
  := rfl

/-- The engines of the fake worker, when there is one. -/
def fakeEngines (options : Options) : List EngineDescriptorFacts :=
  if options.fakeWorker.toBytes = [] then [] else fakeEngineInventory

def buildEngineInventory (options : Options) : Except Bytes (List EngineDescriptorFacts) :=
  if hasConfiguredWorker options = false then .ok (fakeEngines options)
  else if (fakeEngines options).any fun engine => engine.id = options.workerEngineId.toBytes then
    .error (Bytes.ofString "configured worker engine identity duplicates an existing engine")
  else .ok (fakeEngines options ++ [configuredEngine options])

/-! ### Options -/

def usage : Bytes :=
  Bytes.ofString ("usage: madre-kernel --data-dir <path> --endpoint <local-endpoint> "
    ++ "[--fake-worker <path>] [--fake-delay-ms N] [--worker-idle-ms N] "
    ++ "[--cpu-capacity N] [--ram-capacity-mib N] "
    ++ "[--gpu-capacity ID=MiB]... "
    ++ "[--worker-engine-id ID --worker-executable PATH [--worker-model-id ID] "
    ++ "[--worker-arg ARG]... [--worker-work-types CSV] "
    ++ "[--worker-capabilities CSV] [--worker-efforts CSV] "
    ++ "[--worker-cpu-slots N] [--worker-ram-mib N] "
    ++ "[--worker-gpu-id ID --worker-gpu-vram-mib N]]")

/-- The arguments that are known, each with the options after it and the one that follows it. -/
def flags : List (String × (Options → CString → Except Bytes Options)) :=
  [("--data-dir", fun options value => .ok { options with dataDir := value }),
    ("--endpoint", fun options value => .ok { options with endpoint := value }),
    ("--fake-worker", fun options value => .ok { options with fakeWorker := value }),
    ("--fake-delay-ms", fun options value => do
      return { options with fakeDelayMs := ← stoi value.toBytes }),
    ("--worker-idle-ms", fun options value => do
      return { options with workerIdleMs := ← leadingI64 value.toBytes }),
    ("--cpu-capacity", fun options value => do
      return { options with
        capacity := { options.capacity with cpuSlots := ← stoi value.toBytes } }),
    ("--ram-capacity-mib", fun options value => do
      return { options with
        capacity := { options.capacity with ramBytes := (← stoull value.toBytes) * kMiB } }),
    ("--gpu-capacity", fun options value => do
      return { options with capacity := ← addGpuCapacity options.capacity value.toBytes }),
    ("--worker-engine-id", fun options value => .ok { options with workerEngineId := value }),
    ("--worker-executable", fun options value => .ok { options with workerExecutable := value }),
    ("--worker-model-id", fun options value => .ok { options with workerModelId := value }),
    ("--worker-arg", fun options value =>
      .ok { options with workerArguments := options.workerArguments ++ [value] }),
    ("--worker-work-types", fun options value =>
      .ok { options with workerWorkTypes := splitCsv value.toBytes }),
    ("--worker-capabilities", fun options value =>
      .ok { options with workerCapabilities := splitCsv value.toBytes }),
    ("--worker-efforts", fun options value =>
      .ok { options with workerEfforts := splitCsv value.toBytes }),
    ("--worker-cpu-slots", fun options value => do
      return { options with workerCpuSlots := ← stoi value.toBytes }),
    ("--worker-ram-mib", fun options value => do
      return { options with workerRamBytes := (← stoull value.toBytes) * kMiB }),
    ("--worker-gpu-id", fun options value => .ok { options with workerGpuId := value }),
    ("--worker-gpu-vram-mib", fun options value => do
      return { options with workerGpuVramBytes := (← stoull value.toBytes) * kMiB })]

/-- The options after an argument and the one that follows it. -/
def setOption (options : Options) (argument value : CString) : Except Bytes Options :=
  match flags.find? fun flag => argument.toBytes = Bytes.ofString flag.1 with
  | none => .error usage
  | some flag => flag.2 options value

/-- The loop of `parse_options`; an argument that none follows is not known. -/
def parseArguments (options : Options) : List CString → Except Bytes Options
  | [] => .ok options
  | [_] => .error usage
  | argument :: value :: rest => do
      let options ← setOption options argument value
      parseArguments options rest

/-- `parse_options` on the arguments after the name of the program. -/
def parseOptions (arguments : List CString) : Except Bytes Options := do
  let options ← parseArguments {} arguments
  let configured := hasConfiguredWorker options = true
  if options.dataDir.toBytes = [] ∨ options.endpoint.toBytes = [] ∨ options.fakeDelayMs < 0
      ∨ options.workerIdleMs < 0 ∨ options.capacity.cpuSlots < 1
      ∨ options.capacity.ramBytes = 0 then
    .error (Bytes.ofString "invalid Kernel physical process/resource configuration")
  else if configured ∧ (options.workerEngineId.toBytes = [] ∨ options.workerExecutable.toBytes = []
      ∨ options.workerWorkTypes = [] ∨ options.workerEfforts = [] ∨ options.workerCpuSlots < 1
      ∨ options.workerRamBytes = 0) then
    .error (Bytes.ofString
      "configured worker requires engine, executable and positive physical resources")
  else if configured
      ∧ decide (options.workerGpuId.toBytes = []) ≠ decide (options.workerGpuVramBytes = 0) then
    .error (Bytes.ofString "configured worker GPU identity and VRAM must be declared together")
  else return options

/-- The configuration that `main` gives to the Kernel. -/
def Options.config (options : Options) (inventory : List EngineDescriptorFacts) : Config where
  dataDir := options.dataDir.toBytes
  inventory := inventory
  capacity := options.capacity
  dataDir_nulFree := options.dataDir.zero_notMem_toBytes

/-! ### The lists of an accepted command line -/

theorem mem_splitCsvFrom {token csv x : Bytes} (htoken : comma ∉ token)
    (h : x ∈ splitCsvFrom token csv) :
  x ≠ [] ∧ comma ∉ x
  := by
  induction csv generalizing token with
  | nil =>
      rw [splitCsvFrom] at h
      split_ifs at h with hempty
      · cases h
      · rw [List.mem_singleton] at h
        rw [h]
        exact ⟨hempty, htoken⟩
  | cons b rest ih =>
      rw [splitCsvFrom] at h
      split_ifs at h with hcomma hempty
      · exact ih List.not_mem_nil h
      · rcases List.mem_cons.mp h with rfl | h
        · exact ⟨hempty, htoken⟩
        · exact ih List.not_mem_nil h
      · apply ih _ h
        intro hmem
        rcases List.mem_append.mp hmem with hmem | hmem
        · exact htoken hmem
        · exact hcomma (List.mem_singleton.mp hmem).symm

/-- The items of a list of texts can be told apart in the text that joins them. -/
def Parted (values : List Bytes) : Prop := ∀ x ∈ values, x ≠ [] ∧ comma ∉ x

theorem parted_splitCsv (csv : Bytes) :
  Parted (splitCsv csv)
  := fun _ hx => mem_splitCsvFrom List.not_mem_nil hx

/-- The lists of the options can be told apart. -/
structure Options.Separable (options : Options) : Prop where
  workTypes : Parted options.workerWorkTypes
  capabilities : Parted options.workerCapabilities
  efforts : Parted options.workerEfforts

theorem separable_initial :
  Options.Separable {}
  := by
  have hall : ∀ s ∈ ["text-generation/v1", "basic-text", "STANDARD"],
      Bytes.ofString s ≠ [] ∧ comma ∉ Bytes.ofString s := by
    decide +kernel
  constructor
  all_goals
    intro x hx
    rw [List.mem_singleton] at hx
    rw [hx]
    apply hall
    simp

theorem setOption_separable
    {options options' : Options} {argument value : CString} (hs : options.Separable)
    (h : setOption options argument value = .ok options') :
  options'.Separable
  := by
  have hsame : ∀ o : Options, o.workerWorkTypes = options.workerWorkTypes →
      o.workerCapabilities = options.workerCapabilities →
      o.workerEfforts = options.workerEfforts → o.Separable := by
    intro o htypes hcapabilities hefforts
    constructor
    · rw [htypes]
      exact hs.workTypes
    · rw [hcapabilities]
      exact hs.capabilities
    · rw [hefforts]
      exact hs.efforts
  have hparted := parted_splitCsv value.toBytes
  have hall : ∀ flag ∈ flags, flag.2 options value = .ok options' → options'.Separable := by
    intro flag hflag hset
    fin_cases hflag
    -- three arguments set a list, and every other one leaves the lists as they are
    all_goals
      first
      | cases hset
        first
        | exact hsame _ rfl rfl rfl
        | exact ⟨hparted, hs.capabilities, hs.efforts⟩
        | exact ⟨hs.workTypes, hparted, hs.efforts⟩
        | exact ⟨hs.workTypes, hs.capabilities, hparted⟩
      | obtain ⟨n, -, hset⟩ := bind_eq_ok hset
        cases hset
        exact hsame _ rfl rfl rfl
  rw [setOption] at h
  split at h
  next => cases h
  next flag hfind => exact hall flag (List.mem_of_find?_eq_some hfind) h

theorem parseArguments_separable
    {options options' : Options} {arguments : List CString} (hs : options.Separable)
    (h : parseArguments options arguments = .ok options') :
  options'.Separable
  := by
  induction arguments using List.twoStepInduction generalizing options with
  | nil =>
      cases h
      exact hs
  | singleton argument => cases h
  | cons_cons argument value rest ih =>
      rw [parseArguments] at h
      obtain ⟨next, hset, h⟩ := bind_eq_ok h
      exact ih (setOption_separable hs hset) h

theorem parseOptions_separable {arguments : List CString} {options : Options}
    (h : parseOptions arguments = .ok options) :
  options.Separable
  := by
  rw [parseOptions] at h
  obtain ⟨parsed, hparse, h⟩ := bind_eq_ok h
  simp only at h
  split_ifs at h
  cases h
  exact parseArguments_separable separable_initial hparse

/-! ### The engines of an inventory -/

theorem nodup_fakeEngineInventory :
  (fakeEngineInventory.map (·.id)).Nodup
  := by
  decide +kernel

theorem nodup_fakeEngines (options : Options) :
  ((fakeEngines options).map (·.id)).Nodup
  := by
  rw [fakeEngines]
  split_ifs
  · exact List.nodup_nil
  · exact nodup_fakeEngineInventory

theorem length_fakeEngines_le (options : Options) :
  (fakeEngines options).length ≤ 3
  := by
  rw [fakeEngines]
  split_ifs
  · exact Nat.zero_le 3
  · exact Nat.le_refl 3

/-- The inventory has the engines of the fake worker, and the one that is configured. -/
theorem buildEngineInventory_eq
    {options : Options} {inventory : List EngineDescriptorFacts}
    (h : buildEngineInventory options = .ok inventory) :
  inventory = fakeEngines options
    ++ if hasConfiguredWorker options then [configuredEngine options] else []
  := by
  rw [buildEngineInventory] at h
  split_ifs at h with hnone hdup
  · cases h
    simp [hnone]
  · cases h
    rw [Bool.not_eq_false] at hnone
    rw [hnone]
    rfl

/-- The engine ids of an inventory differ. -/
theorem nodup_buildEngineInventory
    {options : Options} {inventory : List EngineDescriptorFacts}
    (h : buildEngineInventory options = .ok inventory) :
  (inventory.map (·.id)).Nodup
  := by
  rw [buildEngineInventory] at h
  split_ifs at h with hnone hdup
  · cases h
    exact nodup_fakeEngines options
  · cases h
    rw [List.map_append, List.map_singleton, List.nodup_append]
    refine ⟨nodup_fakeEngines options, List.nodup_singleton _, ?_⟩
    intro id hid id' hid'
    obtain ⟨engine, hengine, rfl⟩ := List.mem_map.mp hid
    rw [List.mem_singleton] at hid'
    rw [hid']
    intro heq
    apply hdup
    rw [List.any_eq_true]
    exact ⟨engine, hengine, decide_eq_true heq⟩

theorem length_buildEngineInventory_le
    {options : Options} {inventory : List EngineDescriptorFacts}
    (h : buildEngineInventory options = .ok inventory) :
  inventory.length ≤ 4
  := by
  have hfake := length_fakeEngines_le options
  rw [buildEngineInventory_eq h, List.length_append]
  split_ifs
  · rw [List.length_singleton]
    omega
  · rw [List.length_nil]
    omega

end Kernel
