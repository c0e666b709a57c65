import MadreKernel.Client.Inventory

/-!
# Command lines whose engine facts survive

The facts about the engines of the fake worker survive.  `Transferable` is what a command line with
a configured worker has to satisfy besides, for its facts to survive: none of it is checked.
-/

namespace Client

open LocalKernelClient Kernel Kernel.Serving

/-! ### Visible texts -/

/-- A text of visible ASCII characters. -/
def visible (text : Bytes) : Bool := text.all fun b => 33 ≤ b && b < 127

theorem toNat_of_visible {text : Bytes} (h : visible text = true) {b : UInt8} (hb : b ∈ text) :
  33 ≤ b.toNat ∧ b.toNat < 127
  := by
  have hboth := List.all_eq_true.mp h b hb
  rw [Bool.and_eq_true, decide_eq_true_eq, decide_eq_true_eq] at hboth
  exact hboth

theorem plainText_of_visible {text : Bytes} (h : visible text = true) :
  Wire.plainText text = true
  := by
  rw [Wire.plainText, Bool.not_eq_true', List.any_eq_false]
  intro b hb hmem
  have hbounds := toNat_of_visible h hb
  simp only [List.mem_cons, List.not_mem_nil, or_false, decide_eq_true_eq] at hmem
  rcases hmem with rfl | rfl
  all_goals
    revert hbounds
    decide

theorem wellFormed_of_visible {text : Bytes} (h : visible text = true) :
  WellFormed text
  := by
  have hchar : ∀ n < 127, (Char.ofNat n).toNat = n := by
    decide
  induction text with
  | nil => exact ⟨⟨[]⟩, rfl⟩
  | cons b text ih =>
      have hb := toNat_of_visible h List.mem_cons_self
      have htext : visible text = true := (Bool.and_eq_true_iff.mp h).2
      have hone : WellFormed [b] := by
        use ⟨[Char.ofNat b.toNat]⟩
        rw [JavaString.getBytes, Unicode.utf8_of_ascii]
        · rw [List.map_singleton, hchar _ hb.2, UInt8.ofNat_toNat]
        · intro c hc
          rw [List.mem_singleton] at hc
          rw [hc, hchar _ hb.2]
          omega
      exact wellFormed_append hone (ih htext)

/-- A visible text that is not empty is not blank. -/
theorem nonblank_of_visible {s : JavaString} (hne : s.getBytes ≠ [])
    (h : visible s.getBytes = true) :
  s.isBlank = false
  := by
  obtain ⟨codePoints⟩ := s
  cases codePoints with
  | nil => exact absurd rfl hne
  | cons c rest =>
      have hmem : ∀ b ∈ String.utf8EncodeChar c, 33 ≤ b.toNat ∧ b.toNat < 127 := by
        intro b hb
        apply toNat_of_visible h
        exact List.mem_flatMap.mpr ⟨c, List.mem_cons_self, hb⟩
      have hascii : c.toNat < 128 := by
        by_contra hlarge
        obtain ⟨b, hb⟩ := List.exists_mem_of_ne_nil _ String.utf8EncodeChar_ne_nil
        have hsmall := hmem b hb
        have hle := Unicode.le_of_mem_utf8EncodeChar (Nat.le_of_not_lt hlarge) hb
        omega
      have hbounds : 33 ≤ c.toNat ∧ c.toNat < 127 := by
        rw [Unicode.utf8EncodeChar_of_ascii hascii] at hmem
        have hc := hmem _ (List.mem_singleton_self _)
        rw [UInt8.toNat_ofNat', Nat.mod_eq_of_lt (by omega)] at hc
        exact hc
      have hall : ∀ n < 127, 33 ≤ n → JavaString.isWhitespace (Char.ofNat n) = false := by
        decide +kernel
      have hwhite := hall _ hbounds.2 hbounds.1
      rw [Char.ofNat_toNat] at hwhite
      rw [JavaString.isBlank, List.all_cons, hwhite, Bool.false_and]

theorem setSurvives_of_visible {values : List Bytes} (hparted : Parted values)
    (h : ∀ x ∈ values, visible x = true) :
  SetSurvives values
  := by
  constructor
  · exact fun x hx => wellFormed_of_visible (h x hx)
  · exact hparted
  · rintro s rfl
    have hs := List.mem_singleton_self s.getBytes
    exact nonblank_of_visible (hparted _ hs).1 (h _ hs)

/-- The facts about the engines of the fake worker are conveyed. -/
theorem conveyed_of_mem_fakeEngineInventory {engine : EngineDescriptorFacts}
    (h : engine ∈ fakeEngineInventory) :
  Conveyed engine
  := by
  have hall : ∀ engine ∈ fakeEngineInventory, (∀ text ∈ engine.texts, visible text = true)
      ∧ (∀ x ∈ engine.workTypes ++ engine.capabilities ++ engine.modelIds, x ≠ [] ∧ comma ∉ x)
      ∧ (∀ x ∈ engine.supportedEfforts, x = effortText .standard ∨ x = effortText .high)
      ∧ engine.resources.ramBytes.toNat < 2 ^ 63
      ∧ engine.resources.gpuVramBytes.toNat < 2 ^ 63 := by
    decide +kernel
  obtain ⟨hvisible, hparted, hefforts, hram, hvram⟩ := hall engine h
  have hset : ∀ values ∈ [engine.workTypes, engine.capabilities, engine.modelIds],
      SetSurvives values := by
    intro values hvalues
    simp only [List.mem_cons, List.not_mem_nil, or_false] at hvalues
    apply setSurvives_of_visible
    · intro x hx
      apply hparted
      simp only [List.mem_append]
      rcases hvalues with rfl | rfl | rfl
      · exact Or.inl (Or.inl hx)
      · exact Or.inl (Or.inr hx)
      · exact Or.inr hx
    · intro x hx
      apply hvisible
      simp only [EngineDescriptorFacts.texts, List.mem_append]
      rcases hvalues with rfl | rfl | rfl
      · exact Or.inl (Or.inl (Or.inl (Or.inr hx)))
      · exact Or.inl (Or.inl (Or.inr hx))
      · exact Or.inl (Or.inr hx)
  constructor
  · exact fun text htext => plainText_of_visible (hvisible text htext)
  · exact fun text htext => wellFormed_of_visible (hvisible text htext)
  · exact hset _ (by simp)
  · exact hset _ (by simp)
  · exact hset _ (by simp)
  · exact hefforts
  · exact hram
  · exact hvram

/-! ### The configured engine -/

/-- The texts of the engine that is configured. -/
def configuredTexts (options : Options) : List Bytes :=
  [options.workerEngineId.toBytes, options.workerModelId.toBytes, options.workerGpuId.toBytes]
    ++ options.workerWorkTypes ++ options.workerCapabilities ++ options.workerEfforts

/-- The length of the texts and numbers about the engine that is configured. -/
def configuredLength (options : Options) : Nat :=
  options.workerEngineId.toBytes.length + (joinCsv options.workerWorkTypes).length
    + (joinCsv options.workerCapabilities).length + options.workerModelId.toBytes.length
    + (joinCsv options.workerEfforts).length
    + (Bytes.ofString (toString options.workerCpuSlots.toInt)).length
    + (Decimal.digits options.workerRamBytes.toNat).length + options.workerGpuId.toBytes.length
    + (Decimal.digits options.workerGpuVramBytes.toNat).length

/-- What a configured worker has to satisfy for its facts to survive: texts without CR and LF that
are well-formed, no list that is a single blank text, no model id that is blank or holds a comma,
the efforts of the client, sizes that are not negative as signed numbers, and a reply that is not
too long. -/
structure Transferable (options : Options) : Prop where
  plain : ∀ text ∈ configuredTexts options, Wire.plainText text = true
  wellFormed : ∀ text ∈ configuredTexts options, WellFormed text
  workTypes : ∀ s : JavaString, options.workerWorkTypes = [s.getBytes] → s.isBlank = false
  capabilities : ∀ s : JavaString, options.workerCapabilities = [s.getBytes] → s.isBlank = false
  modelId : ∀ s : JavaString, options.workerModelId.toBytes = s.getBytes → s.getBytes ≠ [] →
    s.isBlank = false
  modelId_comma : comma ∉ options.workerModelId.toBytes
  efforts : ∀ x ∈ options.workerEfforts, x = effortText .standard ∨ x = effortText .high
  ramBytes : options.workerRamBytes.toNat < 2 ^ 63
  gpuVramBytes : options.workerGpuVramBytes.toNat < 2 ^ 63
  fits : configuredLength options + (if options.fakeWorker.toBytes = [] then 323 else 1570)
    ≤ Wire.kMaxMetadata

/-- What holds of the texts of the configured engine and of the texts that are always the same. -/
theorem forall_texts_configuredEngine {P : Bytes → Prop} (hempty : P [])
    (hplacement : P (Bytes.ofString "LOCAL_WORKER_PROCESS"))
    (havailability : P (Bytes.ofString "AVAILABLE")) (options : Options) :
  (∀ text ∈ (configuredEngine options).texts, P text) ↔ ∀ text ∈ configuredTexts options, P text
  := by
  have hmodel : (∀ m ∈ (configuredEngine options).modelIds, P m)
      ↔ P options.workerModelId.toBytes := by
    rw [modelIds_configuredEngine]
    split_ifs with hnone
    · rw [hnone]
      simp [hempty]
    · simp
  simp only [EngineDescriptorFacts.texts, configuredTexts, List.forall_mem_append,
    List.forall_mem_cons, hmodel]
  simp only [configuredEngine, hplacement, havailability, List.not_mem_nil, IsEmpty.forall_iff,
    implies_true, and_true, true_and]
  tauto

theorem literals_visible :
  visible (Bytes.ofString "LOCAL_WORKER_PROCESS") = true
    ∧ visible (Bytes.ofString "AVAILABLE") = true
  := by
  decide +kernel

theorem plain_configuredEngine (options : Options) :
  (∀ text ∈ (configuredEngine options).texts, Wire.plainText text = true)
    ↔ ∀ text ∈ configuredTexts options, Wire.plainText text = true
  := by
  apply forall_texts_configuredEngine (P := fun text => Wire.plainText text = true)
  · rfl
  · exact plainText_of_visible literals_visible.1
  · exact plainText_of_visible literals_visible.2

theorem wellFormed_configuredEngine (options : Options) :
  (∀ text ∈ (configuredEngine options).texts, WellFormed text)
    ↔ ∀ text ∈ configuredTexts options, WellFormed text
  := by
  apply forall_texts_configuredEngine
  · exact ⟨⟨[]⟩, rfl⟩
  · exact wellFormed_of_visible literals_visible.1
  · exact wellFormed_of_visible literals_visible.2

theorem conveyed_configuredEngine {options : Options} (hs : options.Separable)
    (h : Transferable options) :
  Conveyed (configuredEngine options)
  := by
  have hwellFormed : ∀ text ∈ configuredTexts options, WellFormed text := h.wellFormed
  simp only [configuredTexts, List.forall_mem_append, List.forall_mem_cons] at hwellFormed
  obtain ⟨⟨⟨⟨-, hmodel, -⟩, htypes⟩, hcapabilities⟩, -⟩ := hwellFormed
  constructor
  · exact (plain_configuredEngine options).mpr h.plain
  · exact (wellFormed_configuredEngine options).mpr h.wellFormed
  · exact ⟨htypes, hs.workTypes, h.workTypes⟩
  · exact ⟨hcapabilities, hs.capabilities, h.capabilities⟩
  · rw [modelIds_configuredEngine]
    split_ifs with hnone
    · exact ⟨List.forall_mem_nil _, List.forall_mem_nil _, fun s hs => by cases hs⟩
    · constructor
      · exact List.forall_mem_singleton.mpr hmodel
      · exact List.forall_mem_singleton.mpr ⟨hnone, h.modelId_comma⟩
      · intro s heq
        rw [List.singleton_inj] at heq
        apply h.modelId s heq
        rw [← heq]
        exact hnone
  · exact h.efforts
  · exact h.ramBytes
  · exact h.gpuVramBytes

/-- A set that the client makes of a single blank text is not that text. -/
theorem nonblank_of_image {values : List Bytes} {v : JavaString} (hv : v.getBytes = joinCsv values)
    (himage : (splitSet v).toFinset.image JavaString.getBytes = values.toFinset) {s : JavaString}
    (hs : values = [s.getBytes]) :
  s.isBlank = false
  := by
  rw [hs, joinCsv, List.intercalate_singleton] at hv
  obtain rfl := JavaString.getBytes_injective hv
  rw [← Bool.not_eq_true]
  intro hblank
  rw [splitSet, if_pos hblank, hs] at himage
  simp at himage

/-- What it takes for a descriptor to describe the configured engine. -/
theorem transferable_of_described
    {options : Options} {response : Protocol.Frame} {kernel : Metadata} {base : JavaString}
    {warm : Bool} {isWarm : Bytes → Bool} {d : EngineDescriptor}
    (hplain : ∀ text ∈ (configuredEngine options).texts, Wire.plainText text = true)
    (hfits : configuredLength options + (if options.fakeWorker.toBytes = [] then 323 else 1570)
      ≤ Wire.kMaxMetadata)
    (hsame : SameMetadata response.metadata kernel)
    (hholds : HoldsFields kernel base.getBytes (configuredEngine options) warm)
    (hparse : parseEngineDescriptor response base = .ok d)
    (hd : Describes isWarm (configuredEngine options) d) :
  Transferable options
  := by
  obtain ⟨⟨types, htypes, htypesSet⟩, ⟨capabilities, hcapabilities, hcapabilitiesSet⟩, models,
    hmodels, hmodelsSet⟩ := sets_of_parseEngineDescriptor hsame hholds hparse
  have hworkTypes := hd.workTypes
  have hdCapabilities := hd.capabilities
  have hmodelIds := hd.modelIds
  rw [htypesSet] at hworkTypes
  rw [hcapabilitiesSet] at hdCapabilities
  rw [hmodelsSet] at hmodelIds
  have hmodelList : options.workerModelId.toBytes ≠ [] →
      (configuredEngine options).modelIds = [options.workerModelId.toBytes] := fun hne => if_neg hne
  constructor
  · exact (plain_configuredEngine options).mp hplain
  · exact (wellFormed_configuredEngine options).mp hd.wellFormed
  · exact fun s hs => nonblank_of_image htypes hworkTypes hs
  · exact fun s hs => nonblank_of_image hcapabilities hdCapabilities hs
  · intro s hs hne
    rw [← hs] at hne
    apply nonblank_of_image hmodels hmodelIds
    rw [hmodelList hne, hs]
  · by_cases hnone : options.workerModelId.toBytes = []
    · rw [hnone]
      exact List.not_mem_nil
    · apply comma_notMem_of_mem_image (v := models)
      rw [hmodelIds, hmodelList hnone]
      simp
  · intro x hx
    have himage : x ∈ d.supportedEfforts.image effortText := by
      rw [hd.efforts]
      exact List.mem_toFinset.mpr hx
    obtain ⟨effort, -, rfl⟩ := Finset.mem_image.mp himage
    cases effort with
    | standard => exact Or.inl rfl
    | high => exact Or.inr rfl
  · have hram : d.requiredRamBytes.toInt = options.workerRamBytes.toNat := hd.ramBytes
    have hlt := d.requiredRamBytes.toInt_lt
    omega
  · have hvram : d.requiredGpuVramBytes.toInt = options.workerGpuVramBytes.toNat :=
      hd.gpuVramBytes
    have hlt := d.requiredGpuVramBytes.toInt_lt
    omega
  · exact hfits

/-! ### The length of the reply -/

theorem length_fieldNames :
  (Bytes.ofString "id").length = 2 ∧ (Bytes.ofString "work_types").length = 10
    ∧ (Bytes.ofString "capabilities").length = 12 ∧ (Bytes.ofString "model_ids").length = 9
    ∧ (Bytes.ofString "supported_efforts").length = 17
    ∧ (Bytes.ofString "placement").length = 9 ∧ (Bytes.ofString "availability").length = 12
    ∧ (Bytes.ofString "required_cpu_slots").length = 18
    ∧ (Bytes.ofString "required_ram_bytes").length = 18
    ∧ (Bytes.ofString "required_gpu_id").length = 15
    ∧ (Bytes.ofString "required_gpu_vram_bytes").length = 23
    ∧ (Bytes.ofString "warm").length = 4
    ∧ (Bytes.ofString "LOCAL_WORKER_PROCESS").length = 20
    ∧ (Bytes.ofString "AVAILABLE").length = 9 ∧ (Bytes.ofString "false").length = 5
  := by
  decide +kernel

theorem textLength_configuredEngine (options : Options) (i : Nat) :
  Wire.textLength (descriptorFields (Kernel.engineBase i) (configuredEngine options) false)
    = 12 * (Kernel.engineBase i).length + 207 + configuredLength options
  := by
  have hmodelIds : (joinCsv (configuredEngine options).modelIds).length
      = options.workerModelId.toBytes.length := by
    rw [modelIds_configuredEngine]
    split_ifs with hnone
    · rw [hnone]
      rfl
    · rw [joinCsv, List.intercalate_singleton]
  rw [textLength_descriptorFields]
  simp only [descriptorFields, Wire.textLength, List.map_cons, List.map_nil, List.sum_cons,
    List.sum_nil, List.nil_append, hmodelIds, length_fieldNames, Bool.false_eq_true, if_false]
  simp only [configuredEngine, configuredLength, length_fieldNames]
  omega

/-- The reply is longest when no engine is warm. -/
theorem textLength_listFields_le
    (inventory : List EngineDescriptorFacts) (warm : Bytes → Bool) :
  Wire.textLength (listFields inventory warm)
    ≤ Wire.textLength (listFields inventory fun _ => false)
  := by
  have hwords : (Bytes.ofString "true").length ≤ (Bytes.ofString "false").length := by
    decide +kernel
  have hone : ∀ base engine w, Wire.textLength (descriptorFields base engine w)
      ≤ Wire.textLength (descriptorFields base engine false) := by
    intro base engine w
    cases w with
    | false => exact Nat.le_refl _
    | true =>
        simp only [descriptorFields, Wire.textLength, List.map_cons, List.map_nil, List.sum_cons,
          List.sum_nil, if_true, Bool.false_eq_true, if_false]
        omega
  have hall : ∀ places : List (EngineDescriptorFacts × Nat),
      Wire.textLength (places.flatMap fun e =>
          descriptorFields (Kernel.engineBase e.2) e.1 (warm e.1.id))
        ≤ Wire.textLength (places.flatMap fun e =>
          descriptorFields (Kernel.engineBase e.2) e.1 false) := by
    intro places
    induction places with
    | nil => exact Nat.le_refl _
    | cons e places ih =>
        rw [List.flatMap_cons, List.flatMap_cons, textLength_append, textLength_append]
        exact Nat.add_le_add (hone _ _ _) ih
  rw [listFields, listFields, ← List.singleton_append, ← List.singleton_append, textLength_append,
    textLength_append]
  exact Nat.add_le_add_left (hall _) _

/-- The length of the reply about the fake engines and the configured one. -/
theorem textLength_listFields_configured (options : Options) :
  Wire.textLength (listFields (fakeEngines options ++ [configuredEngine options]) fun _ => false)
    = configuredLength options + if options.fakeWorker.toBytes = [] then 323 else 1570
  := by
  have hconfigured := textLength_configuredEngine options (fakeEngines options).length
  have hfake : Wire.textLength (fakeEngineInventory.zipIdx.flatMap fun e =>
        descriptorFields (Kernel.engineBase e.2) e.1 false) = 1247
      ∧ (Kernel.engineBase 0).length = 9 ∧ (Kernel.engineBase 3).length = 9
      ∧ Wire.textLength [(Bytes.ofString "count", Decimal.digits 1)] = 8
      ∧ Wire.textLength [(Bytes.ofString "count", Decimal.digits 4)] = 8 := by
    decide +kernel
  obtain ⟨hlength, hbase, hbase', hcount, hcount'⟩ := hfake
  rw [listFields, List.zipIdx_append, List.flatMap_append, ← List.singleton_append,
    textLength_append, textLength_append]
  simp only [List.zipIdx_singleton, List.flatMap_singleton, Nat.zero_add, hconfigured]
  rw [fakeEngines]
  split_ifs with hnone
  · have hnil : Wire.textLength [] = 0 := rfl
    simp only [List.nil_append, List.length_singleton, List.length_nil, List.zipIdx_nil,
      List.flatMap_nil, hcount, hbase, hnil]
    omega
  · have hthree : fakeEngineInventory.length = 3 := rfl
    rw [List.length_append, List.length_singleton, hthree, hcount', hlength, hbase']
    omega

/-- The reply about the fake engines alone fits in a frame. -/
theorem textLength_listFields_fakeEngines (options : Options) :
  Wire.textLength (listFields (fakeEngines options) fun _ => false) ≤ Wire.kMaxMetadata
  := by
  have hall : Wire.textLength (listFields [] fun _ => false) ≤ Wire.kMaxMetadata
      ∧ Wire.textLength (listFields fakeEngineInventory fun _ => false) ≤ Wire.kMaxMetadata := by
    decide +kernel
  rw [fakeEngines]
  split_ifs
  · exact hall.1
  · exact hall.2

/-! ### Accepted command lines -/

/-- Calls to a store and a file system that are empty, and to a pool without processes. -/
def emptyCalls : Calls where
  nowMs := 0
  draws := (0, 0)
  write := fun _ _ => .ok ()
  submit := fun _ => .ok ()
  find := fun _ => .ok none
  acknowledge := fun _ => .ok false
  cancel := fun _ => .ok none
  fileExists := fun _ => .ok false
  fileSize := fun _ => .ok 0
  content := fun _ => .ok []
  isWarm := fun _ => false

/-- The facts about the engines of an accepted command line survive exactly when those of the
configured engine can be transferred, or none is configured. -/
theorem facts_survive_iff
    {arguments : List CString} {options : Options} {inventory : List EngineDescriptorFacts}
    (hoptions : parseOptions arguments = .ok options)
    (hinventory : buildEngineInventory options = .ok inventory) :
  FactsSurvive (options.config inventory)
    ↔ (hasConfiguredWorker options = true → Transferable options)
  := by
  have heq := buildEngineInventory_eq hinventory
  have hsmall : (options.config inventory).inventory.length < 2 ^ 31 :=
    Nat.lt_of_le_of_lt (length_buildEngineInventory_le hinventory) (by decide)
  constructor
  · intro hsurvive hconfigured
    rw [if_pos hconfigured] at heq
    have hmem : configuredEngine options ∈ inventory := by
      rw [heq]
      simp
    obtain ⟨hplain, hfits, hdescribed⟩ := hsurvive.described hsmall emptyCalls
    obtain ⟨response, kernel, base, d, hsame, hholds, hparse, hd⟩ := hdescribed _ hmem
    have hreply : Wire.textLength (listFields inventory fun _ => false) ≤ Wire.kMaxMetadata := hfits
    rw [heq, textLength_listFields_configured] at hreply
    exact transferable_of_described (hplain _ hmem) hreply hsame hholds hparse hd
  · intro htransferable
    apply survive_of_conveyed
    · exact hsmall
    · exact nodup_buildEngineInventory hinventory
    · intro engine hengine
      have hmem : engine ∈ inventory := hengine
      rw [heq, List.mem_append] at hmem
      rcases hmem with hfake | hconfigured
      · rw [fakeEngines] at hfake
        split_ifs at hfake
        · cases hfake
        · exact conveyed_of_mem_fakeEngineInventory hfake
      · split_ifs at hconfigured with h
        · rw [List.mem_singleton] at hconfigured
          rw [hconfigured]
          exact conveyed_configuredEngine (parseOptions_separable hoptions) (htransferable h)
        · cases hconfigured
    · intro warm
      apply Nat.le_trans (textLength_listFields_le _ warm)
      have hinventory : (options.config inventory).inventory = inventory := rfl
      rw [hinventory, heq]
      split_ifs with h
      · rw [textLength_listFields_configured]
        exact (htransferable h).fits
      · rw [List.append_nil]
        apply textLength_listFields_fakeEngines

/-- The facts about an engine with a plain command line survive. -/
theorem facts_survive_plain :
  ∃ options inventory,
    parseOptions (["--data-dir", "d", "--endpoint", "e", "--worker-engine-id", "w",
        "--worker-executable", "x", "--worker-model-id", "m"].map literal) = .ok options
      ∧ buildEngineInventory options = .ok inventory ∧ FactsSurvive (options.config inventory)
  := by
  let options : Options := {
    dataDir := literal "d"
    endpoint := literal "e"
    workerEngineId := literal "w"
    workerExecutable := literal "x"
    workerModelId := literal "m" }
  have hoptions : parseOptions (["--data-dir", "d", "--endpoint", "e", "--worker-engine-id", "w",
      "--worker-executable", "x", "--worker-model-id", "m"].map literal) = .ok options := rfl
  have hvisible : (∀ text ∈ configuredTexts options, visible text = true)
      ∧ (∀ x ∈ options.workerEfforts, x = effortText .standard ∨ x = effortText .high)
      ∧ options.workerWorkTypes ≠ [[]] ∧ options.workerCapabilities ≠ [[]]
      ∧ comma ∉ options.workerModelId.toBytes
      ∧ configuredLength options + 323 ≤ Wire.kMaxMetadata := by
    decide +kernel
  obtain ⟨hvisible, hefforts, htypes, hcapabilities, hcomma, hfits⟩ := hvisible
  have hinventory : buildEngineInventory options = .ok [configuredEngine options] := rfl
  use options, [configuredEngine options], hoptions, hinventory
  rw [facts_survive_iff hoptions hinventory]
  intro _
  constructor
  · exact fun text htext => plainText_of_visible (hvisible text htext)
  · exact fun text htext => wellFormed_of_visible (hvisible text htext)
  · intro s hs
    apply nonblank_of_visible
    · intro hempty
      rw [hempty] at hs
      exact htypes hs
    · apply hvisible
      simp [configuredTexts, hs]
  · intro s hs
    apply nonblank_of_visible
    · intro hempty
      rw [hempty] at hs
      exact hcapabilities hs
    · apply hvisible
      simp [configuredTexts, hs]
  · intro s hs hne
    apply nonblank_of_visible hne
    apply hvisible
    simp [configuredTexts, hs]
  · exact hcomma
  · exact hefforts
  · decide
  · decide
  · exact hfits

/-- The efforts of an accepted command line may be ones that the client does not know. -/
theorem facts_lost_unknown_effort :
  ¬ ∀ arguments options inventory, parseOptions arguments = .ok options →
    buildEngineInventory options = .ok inventory → FactsSurvive (options.config inventory)
  := by
  intro h
  let options : Options := {
    dataDir := literal "d"
    endpoint := literal "e"
    workerEngineId := literal "w"
    workerExecutable := literal "x"
    workerEfforts := [Bytes.ofString "LOW"] }
  have hsurvive := h (["--data-dir", "d", "--endpoint", "e", "--worker-engine-id", "w",
    "--worker-executable", "x", "--worker-efforts", "LOW"].map literal) options
    [configuredEngine options] rfl rfl
  obtain ⟨bytes, -, hreads⟩ := hsurvive.engines emptyCalls (fun _ => ⟨[]⟩) 0 0
  obtain ⟨descriptors, rest, -, hall⟩ := hreads (Source.ofBytes bytes)
    ⟨Source.polled_ofBytes bytes, Source.content_ofBytes bytes⟩
  have hinventory : (options.config [configuredEngine options]).inventory
      = [configuredEngine options] := rfl
  rw [hinventory, List.forall₂_cons_left_iff] at hall
  obtain ⟨d, -, hd, -, -⟩ := hall
  have hlow : Bytes.ofString "LOW" ∈ d.supportedEfforts.image effortText := by
    rw [hd.efforts]
    exact List.mem_toFinset.mpr (List.mem_singleton_self _)
  obtain ⟨effort, -, heq⟩ := Finset.mem_image.mp hlow
  revert heq
  cases effort with
  | standard => decide +kernel
  | high => decide +kernel

end Client
