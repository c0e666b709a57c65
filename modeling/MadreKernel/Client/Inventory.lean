import MadreKernel.Client.Connection
import MadreKernel.Kernel.Options

/-!
# Engine facts on the way to the client

The Kernel flattens the facts about its engines into metadata, and `engines` and `engineStatus` make
descriptors of them.  A descriptor describes an engine when it has the same facts.  The facts of an
engine are conveyed when its texts are well-formed and plain, its lists can be told apart and are
not a single blank text, its efforts are those of the client and its sizes are not negative as
signed numbers; the metadata of the whole inventory have to fit in a frame.

The command line is checked for none of this.  The engines of the fake worker are always conveyed.
-/

namespace Client

open LocalKernelClient Kernel Kernel.Serving

/-- A descriptor has the facts about an engine. -/
structure Describes (warm : Bytes → Bool) (engine : EngineDescriptorFacts) (d : EngineDescriptor) :
    Prop where
  id : d.engineId.getBytes = engine.id
  workTypes : d.supportedWorkTypes.image JavaString.getBytes = engine.workTypes.toFinset
  capabilities : d.supportedCapabilities.image JavaString.getBytes = engine.capabilities.toFinset
  modelIds : d.modelIds.image JavaString.getBytes = engine.modelIds.toFinset
  efforts : d.supportedEfforts.image effortText = engine.supportedEfforts.toFinset
  placement : d.placement.getBytes = engine.placement
  availability : d.availability.getBytes = engine.availability
  cpuSlots : d.requiredCpuSlots = engine.resources.cpuSlots
  ramBytes : d.requiredRamBytes.toInt = engine.resources.ramBytes.toNat
  gpuId : d.requiredGpuId.map JavaString.getBytes
    = if engine.resources.gpuId = [] then none else some engine.resources.gpuId
  gpuVramBytes : d.requiredGpuVramBytes.toInt = engine.resources.gpuVramBytes.toNat
  warm : d.warm = warm engine.id

/-- Both calls of the client give the facts about the engines of the Kernel. -/
structure FactsSurvive (cfg : Config) : Prop where
  engines : ∀ (calls : Calls) (malformed : Bytes → JavaString) (helloCorrelation correlation : Int64),
    ∃ bytes, Converses cfg calls (helloFrame helloCorrelation) (listEnginesCommand correlation) bytes
      ∧ ∀ src : Source, src.PolledDelivers bytes → ∃ descriptors rest,
        (engines (Protocol.read malformed) helloCorrelation correlation).run src
            = .done descriptors rest
          ∧ List.Forall₂ (Describes calls.isWarm) cfg.inventory descriptors
  engineStatus : ∀ (calls : Calls) (malformed : Bytes → JavaString)
      (helloCorrelation correlation : Int64), ∀ engine ∈ cfg.inventory,
    ∀ id : JavaString, id.getBytes = engine.id →
    ∃ bytes,
      Converses cfg calls (helloFrame helloCorrelation) (engineStatusCommand id correlation) bytes
      ∧ ∀ src : Source, src.PolledDelivers bytes → ∃ descriptor rest,
        (engineStatus (Protocol.read malformed) helloCorrelation correlation id).run src
            = .done descriptor rest
          ∧ Describes calls.isWarm engine descriptor

/-! ### Well-formed texts -/

theorem wellFormed_ofString (s : String) :
  WellFormed (Bytes.ofString s)
  := ⟨.ofString s, JavaString.getBytes_ofString s⟩

theorem wellFormed_digits (n : Nat) :
  WellFormed (Decimal.digits n)
  := by
  rw [← Decimal.ofString_toString_natCast]
  apply wellFormed_ofString

theorem wellFormed_append {x y : Bytes} (hx : WellFormed x) (hy : WellFormed y) :
  WellFormed (x ++ y)
  := by
  obtain ⟨s, rfl⟩ := hx
  obtain ⟨t, rfl⟩ := hy
  exact ⟨s ++ t, JavaString.getBytes_append s t⟩

/-- The text that joins some strings. -/
theorem getBytes_intercalate (l : List JavaString) :
  (JavaString.mk ([','].intercalate (l.map JavaString.codePoints))).getBytes
    = joinCsv (l.map JavaString.getBytes)
  := by
  rw [JavaString.getBytes, Unicode.utf8_intercalate (by decide), List.map_map]
  rfl

theorem exists_map_getBytes {values : List Bytes} (h : ∀ x ∈ values, WellFormed x) :
  ∃ l : List JavaString, l.map JavaString.getBytes = values
  := by
  have hrange : values ∈ Set.range (List.map JavaString.getBytes) := by
    rw [Set.range_list_map]
    exact h
  exact hrange

theorem wellFormed_joinCsv {values : List Bytes} (h : ∀ x ∈ values, WellFormed x) :
  WellFormed (joinCsv values)
  := by
  obtain ⟨l, rfl⟩ := exists_map_getBytes h
  exact ⟨_, getBytes_intercalate l⟩

theorem wellFormed_descriptorFields
    {base : Bytes} (hbase : WellFormed base) {engine : EngineDescriptorFacts}
    (h : ∀ text ∈ engine.texts, WellFormed text) (warm : Bool) :
  ∀ e ∈ descriptorFields base engine warm, WellFormed e.1 ∧ WellFormed e.2
  := by
  intro e he
  constructor
  · have hkey := List.mem_map_of_mem (f := Prod.fst) he
    rw [map_fst_descriptorFields] at hkey
    obtain ⟨name, hname, heq⟩ := List.mem_map.mp hkey
    obtain ⟨s, -, rfl⟩ := List.mem_map.mp hname
    rw [← heq]
    exact wellFormed_append hbase (wellFormed_ofString s)
  · simp only [EngineDescriptorFacts.texts, List.forall_mem_append, List.forall_mem_cons] at h
    obtain ⟨⟨⟨⟨⟨hid, hplacement, havailability, hgpu, -⟩, htypes⟩, hcapabilities⟩, hmodels⟩,
      hefforts⟩ := h
    have hvalues : ∀ e ∈ descriptorFields base engine warm, WellFormed e.2 := by
      simp only [descriptorFields, List.forall_mem_cons]
      exact ⟨hid, wellFormed_joinCsv htypes, wellFormed_joinCsv hcapabilities,
        wellFormed_joinCsv hmodels, wellFormed_joinCsv hefforts, hplacement, havailability,
        wellFormed_ofString _, wellFormed_digits _, hgpu, wellFormed_digits _,
        wellFormed_ofString _, List.forall_mem_nil _⟩
    exact hvalues e he

theorem getBytes_engineBase (i : Nat) :
  (LocalKernelClient.engineBase i).getBytes = Kernel.engineBase i
  := by
  rw [LocalKernelClient.engineBase, Kernel.engineBase, JavaString.getBytes_append,
    JavaString.getBytes_append, JavaString.getBytes_ofString, JavaString.getBytes_ofString,
    JavaString.getBytes_ofString, Decimal.ofString_toString_natCast]

theorem wellFormed_listFields
    {inventory : List EngineDescriptorFacts}
    (h : ∀ engine ∈ inventory, ∀ text ∈ engine.texts, WellFormed text) (warm : Bytes → Bool) :
  ∀ e ∈ listFields inventory warm, WellFormed e.1 ∧ WellFormed e.2
  := by
  rw [listFields, List.forall_mem_cons]
  refine ⟨⟨wellFormed_ofString _, wellFormed_digits _⟩, ?_⟩
  intro e he
  obtain ⟨p, hp, he⟩ := List.mem_flatMap.mp he
  have hengine : p.1 ∈ inventory := List.fst_mem_of_mem_zipIdx hp
  exact wellFormed_descriptorFields ⟨_, getBytes_engineBase p.2⟩ (h _ hengine) _ e he

/-! ### Sets and efforts -/

/-- The texts of a list can be taken apart behind their join, and are not a single blank text. -/
structure SetSurvives (values : List Bytes) : Prop where
  wellFormed : ∀ x ∈ values, WellFormed x
  parted : Parted values
  nonblank : ∀ s : JavaString, values = [s.getBytes] → s.isBlank = false

theorem splitSet_intercalate
    {l : List JavaString} (hparted : Parted (l.map JavaString.getBytes))
    (hblank : ∀ s, l = [s] → s.isBlank = false) :
  splitSet ⟨[','].intercalate (l.map JavaString.codePoints)⟩ = l.eraseDups
  := by
  have hsplits : ∀ s ∈ l, s.codePoints ≠ [] ∧ ',' ∉ s.codePoints := by
    intro s hs
    obtain ⟨hne, hcomma⟩ := hparted _ (List.mem_map_of_mem hs)
    constructor
    · intro hempty
      apply hne
      rw [JavaString.getBytes, hempty]
      rfl
    · intro hmem
      apply hcomma
      apply List.mem_flatMap.mpr
      exact ⟨',', hmem, by decide⟩
  cases l with
  | nil => rfl
  | cons s l =>
      have hnonblank : JavaString.isBlank
          ⟨[','].intercalate ((s :: l).map JavaString.codePoints)⟩ = false := by
        cases l with
        | nil =>
            rw [List.map_singleton, List.intercalate_singleton]
            exact hblank s rfl
        | cons t l =>
            have hcomma : ',' ∈ [','].intercalate ((s :: t :: l).map JavaString.codePoints) := by
              rw [List.map_cons, List.map_cons, List.intercalate_cons_cons]
              simp
            rw [JavaString.isBlank, List.all_eq_false]
            exact ⟨',', hcomma, by decide⟩
      rw [splitSet, hnonblank, if_neg (by decide), split_intercalate (List.cons_ne_nil s l) hsplits]

/-- The elements of a set of the client are the texts of the list that the Kernel joined. -/
theorem image_splitSet {values : List Bytes} (h : SetSurvives values) {v : JavaString}
    (hv : v.getBytes = joinCsv values) :
  (splitSet v).toFinset.image JavaString.getBytes = values.toFinset
  := by
  obtain ⟨l, rfl⟩ := exists_map_getBytes h.wellFormed
  rw [← getBytes_intercalate] at hv
  obtain rfl := JavaString.getBytes_injective hv
  rw [splitSet_intercalate h.parted]
  · ext x
    simp
  · rintro s rfl
    exact h.nonblank s rfl

/-- An element of a set of the client holds no comma. -/
theorem comma_notMem_of_mem_image {v : JavaString} {x : Bytes}
    (h : x ∈ (splitSet v).toFinset.image JavaString.getBytes) :
  comma ∉ x
  := by
  obtain ⟨s, hs, rfl⟩ := Finset.mem_image.mp h
  rw [List.mem_toFinset, splitSet] at hs
  split_ifs at hs with hblank
  · cases hs
  · rw [List.mem_eraseDups] at hs
    exact (Unicode.marks_ascii (by decide)).notMem_flatMap (comma_notMem_of_mem_split hs)

theorem exists_mapM {ε α β : Type} {f : α → Except ε β} {R : α → β → Prop} {l : List α}
    (h : ∀ a ∈ l, ∃ b, f a = .ok b ∧ R a b) :
  ∃ bs, l.mapM f = .ok bs ∧ List.Forall₂ R l bs
  := by
  induction l with
  | nil => exact ⟨[], rfl, .nil⟩
  | cons a l ih =>
      obtain ⟨b, hb, hab⟩ := h a List.mem_cons_self
      obtain ⟨bs, hbs, hall⟩ := ih fun a' ha' => h a' (List.mem_cons_of_mem a ha')
      use b :: bs
      rw [List.mapM_cons, hb]
      simp only [bind, Except.bind, hbs]
      exact ⟨rfl, .cons hab hall⟩

theorem forall₂_of_mapM {ε α β : Type} {f : α → Except ε β} {l : List α} {bs : List β}
    (h : l.mapM f = .ok bs) :
  List.Forall₂ (fun a b => f a = .ok b) l bs
  := by
  induction l generalizing bs with
  | nil =>
      cases h
      exact .nil
  | cons a l ih =>
      rw [List.mapM_cons] at h
      obtain ⟨b, hb, h⟩ := bind_eq_ok h
      obtain ⟨bs', hbs, h⟩ := bind_eq_ok h
      cases h
      exact .cons hb (ih hbs)

/-- The efforts of the client are those of the list that the Kernel joined. -/
theorem exists_splitEfforts
    {values : List Bytes} (h : ∀ x ∈ values, x = effortText .standard ∨ x = effortText .high)
    {v : JavaString} (hv : v.getBytes = joinCsv values) :
  ∃ efforts, splitEfforts v = .ok efforts
    ∧ efforts.toFinset.image effortText = values.toFinset
  := by
  have hnames : ∀ name ∈ ["STANDARD", "HIGH"], Bytes.ofString name ≠ []
      ∧ comma ∉ Bytes.ofString name ∧ (JavaString.ofString name).isBlank = false := by
    decide +kernel
  have htexts : ∀ x ∈ values, ∃ name ∈ ["STANDARD", "HIGH"], x = Bytes.ofString name := by
    intro x hx
    rcases h x hx with rfl | rfl
    · exact ⟨"STANDARD", by simp, rfl⟩
    · exact ⟨"HIGH", by simp, rfl⟩
  have hsurvives : SetSurvives values := by
    constructor
    · intro x hx
      obtain ⟨name, -, rfl⟩ := htexts x hx
      apply wellFormed_ofString
    · intro x hx
      obtain ⟨name, hname, rfl⟩ := htexts x hx
      obtain ⟨hne, hcomma, -⟩ := hnames name hname
      exact ⟨hne, hcomma⟩
    · rintro s rfl
      obtain ⟨name, hname, heq⟩ := htexts _ (List.mem_singleton_self _)
      rw [← JavaString.getBytes_ofString] at heq
      obtain rfl := JavaString.getBytes_injective heq
      exact (hnames name hname).2.2
  have himage := image_splitSet hsurvives hv
  have heffort : ∀ s ∈ splitSet v, ∃ effort, effortOf s = .ok effort
      ∧ effortText effort = s.getBytes := by
    intro s hs
    have hmem : s.getBytes ∈ values := by
      rw [← List.mem_toFinset, ← himage]
      exact Finset.mem_image_of_mem _ (List.mem_toFinset.mpr hs)
    rcases h _ hmem with heq | heq
    · use .standard, ?_, heq.symm
      rw [effortText, ← JavaString.getBytes_ofString] at heq
      rw [JavaString.getBytes_injective heq]
      rfl
    · use .high, ?_, heq.symm
      rw [effortText, ← JavaString.getBytes_ofString] at heq
      rw [JavaString.getBytes_injective heq, effortOf, if_neg]
      · rfl
      · simp
  obtain ⟨efforts, hefforts, hall⟩ := exists_mapM heffort
  refine ⟨efforts, hefforts, ?_⟩
  have hmaps : efforts.map effortText = (splitSet v).map JavaString.getBytes := by
    rw [← List.forall₂_eq_eq_eq, List.forall₂_map_left_iff, List.forall₂_map_right_iff]
    exact hall.flip
  rw [← himage]
  ext x
  simp only [Finset.mem_image, List.mem_toFinset, ← List.mem_map, hmaps]

/-! ### A descriptor -/

/-- The facts of an engine reach the client when they fit in a frame. -/
structure Conveyed (engine : EngineDescriptorFacts) : Prop where
  plain : ∀ text ∈ engine.texts, Wire.plainText text = true
  wellFormed : ∀ text ∈ engine.texts, WellFormed text
  workTypes : SetSurvives engine.workTypes
  capabilities : SetSurvives engine.capabilities
  modelIds : SetSurvives engine.modelIds
  efforts : ∀ x ∈ engine.supportedEfforts, x = effortText .standard ∨ x = effortText .high
  ramBytes : engine.resources.ramBytes.toNat < 2 ^ 63
  gpuVramBytes : engine.resources.gpuVramBytes.toNat < 2 ^ 63

/-- The metadata of a response hold the fields of an engine. -/
def HoldsFields (kernel : Metadata) (base : Bytes) (engine : EngineDescriptorFacts) (warm : Bool) :
    Prop :=
  ∀ e ∈ descriptorFields base engine warm, kernel.find? e.1 = some e.2

section

variable {response : Protocol.Frame} {kernel : Metadata} {base : JavaString}
  {engine : EngineDescriptorFacts} {warm : Bool}

theorem map_optionalIdentity (value : JavaString) :
  (optionalIdentity value).map JavaString.getBytes
    = if value.getBytes = [] then none else some value.getBytes
  := by
  have hempty : value.getBytes = [] ↔ value.codePoints = [] := by
    constructor
    · intro h
      have hvalue : value = ⟨[]⟩ := JavaString.getBytes_injective h
      rw [hvalue]
    · intro h
      rw [JavaString.getBytes, h]
      rfl
  rw [optionalIdentity]
  simp only [hempty]
  split_ifs
  · rfl
  · rfl

theorem toInt_ofInt_natCast {n : Nat} (h : n < 2 ^ 63) :
  (Int64.ofInt n).toInt = n
  := by
  apply Int64.toInt_ofInt_of_le
  · exact Int.le_trans (by decide) (Int.natCast_nonneg n)
  · exact_mod_cast h

/-- The fields of an engine, as the client finds them. -/
theorem HoldsFields.required
    (hsame : SameMetadata response.metadata kernel)
    (hholds : HoldsFields kernel base.getBytes engine warm) :
  ∃ id workTypes capabilities modelIds efforts placement availability gpuId warmText,
    required response (base ++ .ofString "id") = .ok id ∧ id.getBytes = engine.id
    ∧ required response (base ++ .ofString "work_types") = .ok workTypes
    ∧ workTypes.getBytes = joinCsv engine.workTypes
    ∧ required response (base ++ .ofString "capabilities") = .ok capabilities
    ∧ capabilities.getBytes = joinCsv engine.capabilities
    ∧ required response (base ++ .ofString "model_ids") = .ok modelIds
    ∧ modelIds.getBytes = joinCsv engine.modelIds
    ∧ required response (base ++ .ofString "supported_efforts") = .ok efforts
    ∧ efforts.getBytes = joinCsv engine.supportedEfforts
    ∧ required response (base ++ .ofString "placement") = .ok placement
    ∧ placement.getBytes = engine.placement
    ∧ required response (base ++ .ofString "availability") = .ok availability
    ∧ availability.getBytes = engine.availability
    ∧ required response (base ++ .ofString "required_gpu_id") = .ok gpuId
    ∧ gpuId.getBytes = engine.resources.gpuId
    ∧ required response (base ++ .ofString "warm") = .ok warmText
    ∧ warmText.getBytes = Bytes.ofString (if warm then "true" else "false")
    ∧ requiredInt response (base ++ .ofString "required_cpu_slots")
      = .ok engine.resources.cpuSlots
    ∧ kernel.find? (base ++ .ofString "required_ram_bytes").getBytes
      = some (Decimal.digits engine.resources.ramBytes.toNat)
    ∧ kernel.find? (base ++ .ofString "required_gpu_vram_bytes").getBytes
      = some (Decimal.digits engine.resources.gpuVramBytes.toNat)
  := by
  have hkey : ∀ name, base.getBytes ++ Bytes.ofString name
      = (base ++ .ofString name).getBytes := by
    intro name
    rw [JavaString.getBytes_append, JavaString.getBytes_ofString]
  simp only [HoldsFields, descriptorFields, List.forall_mem_cons, hkey] at hholds
  obtain ⟨hid, htypes, hcapabilities, hmodels, hefforts, hplacement, havailability, hcpu, hram, hgpu,
    hvram, hwarm, -⟩ := hholds
  obtain ⟨id, hid⟩ := required_of_sameMetadata hsame hid
  obtain ⟨workTypes, htypes⟩ := required_of_sameMetadata hsame htypes
  obtain ⟨capabilities, hcapabilities⟩ := required_of_sameMetadata hsame hcapabilities
  obtain ⟨modelIds, hmodels⟩ := required_of_sameMetadata hsame hmodels
  obtain ⟨efforts, hefforts⟩ := required_of_sameMetadata hsame hefforts
  obtain ⟨placement, hplacement⟩ := required_of_sameMetadata hsame hplacement
  obtain ⟨availability, havailability⟩ := required_of_sameMetadata hsame havailability
  obtain ⟨gpuId, hgpu⟩ := required_of_sameMetadata hsame hgpu
  obtain ⟨warmText, hwarm⟩ := required_of_sameMetadata hsame hwarm
  exact ⟨id, workTypes, capabilities, modelIds, efforts, placement, availability, gpuId, warmText,
    hid.1, hid.2, htypes.1, htypes.2, hcapabilities.1, hcapabilities.2, hmodels.1, hmodels.2,
    hefforts.1, hefforts.2, hplacement.1, hplacement.2, havailability.1, havailability.2, hgpu.1,
    hgpu.2, hwarm.1, hwarm.2, requiredInt_of_sameMetadata hsame hcpu, hram, hvram⟩

/-- The descriptor of an engine whose facts are conveyed. -/
theorem exists_parseEngineDescriptor
    (hsame : SameMetadata response.metadata kernel)
    (hholds : HoldsFields kernel base.getBytes engine warm) (h : Conveyed engine)
    {isWarm : Bytes → Bool} (hisWarm : isWarm engine.id = warm) :
  ∃ d, parseEngineDescriptor response base = .ok d ∧ Describes isWarm engine d
  := by
  obtain ⟨id, workTypes, capabilities, modelIds, efforts, placement, availability, gpuId, warmText,
    hid, hidBytes, htypes, htypesBytes, hcapabilities, hcapabilitiesBytes, hmodels, hmodelsBytes,
    hefforts, heffortsBytes, hplacement, hplacementBytes, havailability, havailabilityBytes, hgpu,
    hgpuBytes, hwarm, hwarmBytes, hcpu, hram, hvram⟩ := hholds.required hsame
  obtain ⟨parsed, hparsed, heffortsImage⟩ := exists_splitEfforts h.efforts heffortsBytes
  have hram := requiredLong_of_sameMetadata hsame h.ramBytes hram
  have hvram := requiredLong_of_sameMetadata hsame h.gpuVramBytes hvram
  rw [← JavaString.getBytes_ofString] at hwarmBytes
  obtain rfl := JavaString.getBytes_injective hwarmBytes
  rw [parseEngineDescriptor]
  simp only [hid, htypes, hcapabilities, hmodels, hefforts, hparsed, hplacement, havailability,
    hcpu, hram, hgpu, hvram, hwarm, bind, Except.bind]
  refine ⟨_, rfl, ?_⟩
  constructor
  · exact hidBytes
  · exact image_splitSet h.workTypes htypesBytes
  · exact image_splitSet h.capabilities hcapabilitiesBytes
  · exact image_splitSet h.modelIds hmodelsBytes
  · exact heffortsImage
  · exact hplacementBytes
  · exact havailabilityBytes
  · rfl
  · exact toInt_ofInt_natCast h.ramBytes
  · rw [← hgpuBytes]
    exact map_optionalIdentity gpuId
  · exact toInt_ofInt_natCast h.gpuVramBytes
  · rw [parseBoolean_ofString, hisWarm]

/-- A descriptor that is parsed has the sets that the joined lists are split into. -/
theorem sets_of_parseEngineDescriptor
    (hsame : SameMetadata response.metadata kernel)
    (hholds : HoldsFields kernel base.getBytes engine warm) {d : EngineDescriptor}
    (h : parseEngineDescriptor response base = .ok d) :
  (∃ v : JavaString, v.getBytes = joinCsv engine.workTypes
      ∧ d.supportedWorkTypes = (splitSet v).toFinset)
    ∧ (∃ v : JavaString, v.getBytes = joinCsv engine.capabilities
      ∧ d.supportedCapabilities = (splitSet v).toFinset)
    ∧ ∃ v : JavaString, v.getBytes = joinCsv engine.modelIds
      ∧ d.modelIds = (splitSet v).toFinset
  := by
  obtain ⟨id, workTypes, capabilities, modelIds, efforts, placement, availability, gpuId, warmText,
    hid, -, htypes, htypesBytes, hcapabilities, hcapabilitiesBytes, hmodels, hmodelsBytes,
    hefforts, -, hplacement, -, havailability, -, hgpu, -, hwarm, -, hcpu, -, -⟩ :=
    hholds.required hsame
  rw [parseEngineDescriptor] at h
  simp only [hid, htypes, hcapabilities, hmodels, hefforts, hplacement, havailability, hcpu, hgpu,
    hwarm, bind, Except.bind] at h
  split at h
  next => cases h
  next parsed hparsed =>
    split at h
    next => cases h
    next ramBytes hram =>
      split at h
      next => cases h
      next gpuVramBytes hvram =>
        cases h
        exact ⟨⟨_, htypesBytes, rfl⟩, ⟨_, hcapabilitiesBytes, rfl⟩, _, hmodelsBytes, rfl⟩

end

/-! ### The two commands -/

section

variable {cfg : Config} {calls : Calls}

theorem handle_listEngines
    {correlation : Int64} {second : Frame} (h : SameFrame (listEnginesCommand correlation) second) :
  handle cfg calls second = .ok (listEngines cfg.inventory calls.isWarm second)
  := by
  have htype : second.type = 60 := type_of_sameFrame h rfl
  rw [handle, htype]
  rfl

/-- Engines with different ids are found by their ids. -/
theorem find?_of_nodup_ids {inventory : List EngineDescriptorFacts}
    (hids : (inventory.map (·.id)).Nodup) {engine : EngineDescriptorFacts}
    (hengine : engine ∈ inventory) :
  inventory.find? (fun descriptor => descriptor.id = engine.id) = some engine
  := by
  induction inventory with
  | nil => cases hengine
  | cons descriptor inventory ih =>
      rw [List.map_cons, List.nodup_cons] at hids
      rcases List.mem_cons.mp hengine with rfl | hengine
      · rw [List.find?_cons_of_pos (by simp)]
      · rw [List.find?_cons_of_neg, ih hids.2 hengine]
        intro heq
        apply hids.1
        rw [of_decide_eq_true heq]
        exact List.mem_map_of_mem hengine

theorem handle_engineStatus
    {id : JavaString} {correlation : Int64} {second : Frame}
    (h : SameFrame (engineStatusCommand id correlation) second) {engine : EngineDescriptorFacts}
    (hengine : engine ∈ cfg.inventory) (hids : (cfg.inventory.map (·.id)).Nodup)
    (hid : id.getBytes = engine.id) :
  handle cfg calls second = .ok (engineReply engine (calls.isWarm engine.id) second)
  := by
  have htype : second.type = 70 := type_of_sameFrame h rfl
  have hvalue : metadataValue second "engine_id" = .ok engine.id := by
    rw [metadataValue_of_sameFrame h (List.nodup_singleton _) (List.mem_singleton_self _), hid]
  have hfind := find?_of_nodup_ids hids hengine
  have hhandle : handle cfg calls second
      = Kernel.engineStatus cfg.inventory calls.isWarm second := by
    rw [handle, htype]
    rfl
  rw [hhandle, Kernel.engineStatus, hvalue]
  simp only [bind, Except.bind, hfind]
  rfl

theorem find?_listEngines
    (inventory : List EngineDescriptorFacts) (warm : Bytes → Bool) (request : Frame)
    {key value : Bytes} (h : (key, value) ∈ listFields inventory warm) :
  (listEngines inventory warm request).metadata.find? key = some value
  := by
  rw [listEngines_eq]
  exact (SortedMap.find?_ofAssigned_eq_some_iff (nodup_listFields inventory warm) _ _).mpr h

theorem holdsFields_listEngines
    {inventory : List EngineDescriptorFacts} (warm : Bytes → Bool) (request : Frame)
    {p : EngineDescriptorFacts × Nat} (hp : p ∈ inventory.zipIdx) :
  HoldsFields (listEngines inventory warm request).metadata
    (LocalKernelClient.engineBase p.2).getBytes p.1 (warm p.1.id)
  := by
  intro e he
  apply find?_listEngines
  rw [getBytes_engineBase] at he
  exact List.mem_cons_of_mem _ (List.mem_flatMap.mpr ⟨p, hp, he⟩)

/-- The loop of `engines` parses a descriptor at each place of the inventory. -/
theorem engineList_eq
    {inventory : List EngineDescriptorFacts} (hlength : inventory.length < 2 ^ 31)
    {warm : Bytes → Bool} {request : Frame} {response : Protocol.Frame}
    (htype : response.type = LIST_ENGINES_RESPONSE)
    (hsame : SameMetadata response.metadata (listEngines inventory warm request).metadata) :
  engineList response
    = inventory.zipIdx.mapM fun p =>
        parseEngineDescriptor response (LocalKernelClient.engineBase p.2)
  := by
  have hn : (Int32.ofNat inventory.length).toInt = inventory.length :=
    Int32.toInt_ofNat_of_lt hlength
  have hcount : requiredInt response (.ofString "count") = .ok (Int32.ofNat inventory.length) := by
    apply requiredInt_of_sameMetadata hsame
    rw [JavaString.getBytes_ofString, hn, Decimal.ofString_toString_natCast]
    apply find?_listEngines
    exact List.mem_cons_self
  have hnonneg : ¬Int32.ofNat inventory.length < 0 := by
    rw [Int32.lt_iff_toInt_lt, hn]
    have hzero : (0 : Int32).toInt = 0 := rfl
    omega
  have hplaces : List.range inventory.length = inventory.zipIdx.map Prod.snd := by
    rw [List.zipIdx_map_snd, List.range_eq_range']
  rw [engineList, expectType_of_eq htype, hcount]
  simp only [bind, Except.bind]
  rw [if_neg hnonneg, Int32.toNatClampNeg_ofNat_of_lt hlength, hplaces, List.mapM_map]
  rfl

/-! ### Lengths -/

theorem textLength_append (l l' : List (Bytes × Bytes)) :
  Wire.textLength (l ++ l') = Wire.textLength l + Wire.textLength l'
  := by
  rw [Wire.textLength, List.map_append, List.sum_append]
  rfl

/-- A prefix of the names makes the lines of a descriptor longer. -/
theorem textLength_descriptorFields
    (base : Bytes) (engine : EngineDescriptorFacts) (warm : Bool) :
  Wire.textLength (descriptorFields base engine warm)
    = 12 * base.length + Wire.textLength (descriptorFields [] engine warm)
  := by
  simp only [descriptorFields, Wire.textLength, List.map_cons, List.map_nil, List.sum_cons,
    List.sum_nil, List.length_append, List.length_nil]
  omega

/-- The lines about one engine are among those about all engines. -/
theorem textLength_le_listFields
    {inventory : List EngineDescriptorFacts} {engine : EngineDescriptorFacts}
    (h : engine ∈ inventory) (warm : Bytes → Bool) :
  Wire.textLength (descriptorFields [] engine (warm engine.id))
    ≤ Wire.textLength (listFields inventory warm)
  := by
  rw [← List.zipIdx_map_fst 0 inventory] at h
  obtain ⟨p, hp, rfl⟩ := List.mem_map.mp h
  obtain ⟨before, after, hsplit⟩ := List.append_of_mem hp
  have hbase := textLength_descriptorFields (Kernel.engineBase p.2) p.1 (warm p.1.id)
  rw [listFields, hsplit, List.flatMap_append, List.flatMap_cons, ← List.singleton_append,
    textLength_append, textLength_append, textLength_append]
  omega

/-- A command about an engine whose id is plain and fits is written. -/
theorem exists_write_engineStatusCommand
    {id : JavaString} (hplain : Wire.plainText id.getBytes = true)
    (hlength : id.getBytes.length + 11 ≤ Wire.kMaxMetadata) (correlation : Int64) :
  ∃ written, Protocol.write (engineStatusCommand id correlation) = .ok written
  := by
  have hentries : (engineStatusCommand id correlation).metadata.entries
      = [(.ofString "engine_id", id)] := rfl
  have hkey : ∀ value, Protocol.invalidEntry (.ofString "engine_id") value
      = (value.contains '\n' || value.contains '\r') := by
    intro value
    have hgood : (JavaString.ofString "engine_id").isBlank = false
        ∧ (JavaString.ofString "engine_id").contains '=' = false
        ∧ (JavaString.ofString "engine_id").contains '\n' = false
        ∧ (JavaString.ofString "engine_id").contains '\r' = false := by
      decide
    simp only [Protocol.invalidEntry, hgood.1, hgood.2.1, hgood.2.2.1, hgood.2.2.2, Bool.false_or]
  have hmark : ∀ c ∈ ['\n', '\r'], id.contains c = false := by
    intro c hc
    rw [JavaString.contains, List.contains_eq_mem, decide_eq_false_iff_not]
    intro hmem
    rw [Wire.plainText, Bool.not_eq_true', List.any_eq_false] at hplain
    have hall : ∀ c ∈ ['\n', '\r'], c.toNat < 128
        ∧ UInt8.ofNat c.toNat ∈ [Wire.carriageReturn, Wire.lineFeed] := by
      rw [List.forall_mem_cons, List.forall_mem_singleton]
      decide
    have hascii := hall c hc
    apply hplain (UInt8.ofNat c.toNat)
    · apply List.mem_flatMap.mpr
      refine ⟨c, hmem, ?_⟩
      rw [Unicode.utf8EncodeChar_of_ascii hascii.1]
      exact List.mem_singleton_self _
    · exact decide_eq_true hascii.2
  apply exists_write
  · rw [hentries]
    intro e he
    rw [List.mem_singleton] at he
    rw [he, hkey, hmark '\n' (by simp), hmark '\r' (by simp)]
    rfl
  · have hname : (JavaString.ofString "engine_id").getBytes.length = 9 := by
      decide +kernel
    rw [hentries, List.map_singleton, Wire.length_render]
    simp only [Wire.textLength, List.map_singleton, List.sum_singleton, utf8Entry, hname]
    exact Nat.le_trans (by omega) hlength

/-! ### What survives -/

/-- The response to `LIST_ENGINES` has the metadata of the reply. -/
theorem run_exchange_listEngines
    (hplain : ∀ engine ∈ cfg.inventory, ∀ text ∈ engine.texts, Wire.plainText text = true)
    (hwellFormed : ∀ engine ∈ cfg.inventory, ∀ text ∈ engine.texts, WellFormed text)
    (hfits : Wire.textLength (listFields cfg.inventory calls.isWarm) ≤ Wire.kMaxMetadata)
    {helloCorrelation correlation : Int64} {bytes : Bytes}
    (hbytes : Converses cfg calls (helloFrame helloCorrelation) (listEnginesCommand correlation)
      bytes) (malformed : Bytes → JavaString) :
  ∃ second response, response.type = LIST_ENGINES_RESPONSE
    ∧ SameMetadata response.metadata (listEngines cfg.inventory calls.isWarm second).metadata
    ∧ (exchange (Protocol.frameFrom malformed Consumer.take) helloCorrelation
        (listEnginesCommand correlation)).run bytes = .done response []
  := by
  obtain ⟨metadata, hmetadata⟩ := exists_sameMetadata
    (nodup_listFields cfg.inventory calls.isWarm) (wellFormed_listFields hwellFormed calls.isWarm)
  have hhandle : ∀ second, SameFrame (listEnginesCommand correlation) second →
      handle cfg calls second = .ok (listEngines cfg.inventory calls.isWarm second)
        ∧ (listEngines cfg.inventory calls.isWarm second).correlationId = second.correlationId
        ∧ (listEngines cfg.inventory calls.isWarm second).type ≠ MessageType.error.code
        ∧ Wire.encodable (listEngines cfg.inventory calls.isWarm second) = true
        ∧ SameMetadata metadata (listEngines cfg.inventory calls.isWarm second).metadata := by
    intro second hsecond
    refine ⟨handle_listEngines hsecond, ?_, ?_, ?_, ?_⟩
    · rw [listEngines_eq]
    · have hne : listEnginesResponse ≠ MessageType.error.code := by
        decide
      rw [listEngines_eq]
      exact hne
    · rw [encodable_listEngines]
      exact ⟨hplain, hfits⟩
    · rw [listEngines_eq]
      exact hmetadata
  obtain ⟨second, response, -, hsame, htype, hrun⟩ := hbytes.run_exchange malformed hhandle
  refine ⟨second, response, ?_, hsame.metadata, hrun⟩
  rw [listEngines_eq] at htype
  exact Int32.toInt_inj.mp htype

/-- The client reads the descriptors of an inventory whose facts are conveyed and fit. -/
theorem engines_of_conveyed
    (hlength : cfg.inventory.length < 2 ^ 31)
    (hconveyed : ∀ engine ∈ cfg.inventory, Conveyed engine)
    (hfits : Wire.textLength (listFields cfg.inventory calls.isWarm) ≤ Wire.kMaxMetadata)
    {malformed : Bytes → JavaString} {helloCorrelation correlation : Int64} {bytes : Bytes}
    (hbytes : Converses cfg calls (helloFrame helloCorrelation) (listEnginesCommand correlation)
      bytes) :
  ∃ descriptors,
    (engines (Protocol.frameFrom malformed Consumer.take) helloCorrelation correlation).run bytes
      = .done descriptors []
    ∧ List.Forall₂ (Describes calls.isWarm) cfg.inventory descriptors
  := by
  obtain ⟨second, response, hresponse, hsame, hrun⟩ := run_exchange_listEngines
    (fun engine hengine => (hconveyed engine hengine).plain)
    (fun engine hengine => (hconveyed engine hengine).wellFormed) hfits hbytes malformed
  have hparse : ∀ p ∈ cfg.inventory.zipIdx, ∃ d,
      parseEngineDescriptor response (LocalKernelClient.engineBase p.2) = .ok d
        ∧ Describes calls.isWarm p.1 d := by
    intro p hp
    have hengine : p.1 ∈ cfg.inventory := List.fst_mem_of_mem_zipIdx hp
    exact exists_parseEngineDescriptor hsame (holdsFields_listEngines _ second hp)
      (hconveyed _ hengine) rfl
  obtain ⟨descriptors, hdescriptors, hall⟩ := exists_mapM hparse
  refine ⟨descriptors, ?_, ?_⟩
  · rw [engines, Consumer.run_bind, hrun]
    simp only [engineList_eq hlength hresponse hsame, hdescriptors, Consumer.run_lift_ok]
  · rw [← List.zipIdx_map_fst 0 cfg.inventory, List.forall₂_map_left_iff]
    exact hall

/-- The client reads the descriptor of one engine. -/
theorem engineStatus_of_conveyed
    (hids : (cfg.inventory.map (·.id)).Nodup) {engine : EngineDescriptorFacts}
    (hengine : engine ∈ cfg.inventory) (hconveyed : Conveyed engine)
    (hfits : Wire.textLength (listFields cfg.inventory calls.isWarm) ≤ Wire.kMaxMetadata)
    {id : JavaString} (hid : id.getBytes = engine.id)
    {malformed : Bytes → JavaString} {helloCorrelation correlation : Int64} {bytes : Bytes}
    (hbytes : Converses cfg calls (helloFrame helloCorrelation)
      (engineStatusCommand id correlation) bytes) :
  ∃ descriptor,
    (engineStatus (Protocol.frameFrom malformed Consumer.take) helloCorrelation correlation id).run
      bytes = .done descriptor []
    ∧ Describes calls.isWarm engine descriptor
  := by
  have hnodup := nodup_descriptorFields [] engine (calls.isWarm engine.id)
  obtain ⟨metadata, hmetadata⟩ := exists_sameMetadata hnodup
    (wellFormed_descriptorFields (wellFormed_ofString "") hconveyed.wellFormed _)
  have hhandle : ∀ second, SameFrame (engineStatusCommand id correlation) second →
      handle cfg calls second = .ok (engineReply engine (calls.isWarm engine.id) second)
        ∧ (engineReply engine (calls.isWarm engine.id) second).correlationId
          = second.correlationId
        ∧ (engineReply engine (calls.isWarm engine.id) second).type ≠ MessageType.error.code
        ∧ Wire.encodable (engineReply engine (calls.isWarm engine.id) second) = true
        ∧ SameMetadata metadata
          (engineReply engine (calls.isWarm engine.id) second).metadata := by
    intro second hsecond
    have hne : engineStatusResponse ≠ MessageType.error.code := by
      decide
    refine ⟨handle_engineStatus hsecond hengine hids hid, rfl, hne, ?_, hmetadata⟩
    rw [encodable_engineReply]
    exact ⟨hconveyed.plain, Nat.le_trans (textLength_le_listFields hengine calls.isWarm) hfits⟩
  obtain ⟨second, response, hsecond, hsame, htype, hrun⟩ := hbytes.run_exchange malformed hhandle
  have hresponse : response.type = ENGINE_STATUS_RESPONSE := Int32.toInt_inj.mp htype
  have hholds : HoldsFields (engineReply engine (calls.isWarm engine.id) second).metadata
      (JavaString.ofString "").getBytes engine (calls.isWarm engine.id) := by
    intro e he
    exact (SortedMap.find?_ofAssigned_eq_some_iff hnodup _ _).mpr he
  obtain ⟨d, hparse, hdescribes⟩ :=
    exists_parseEngineDescriptor hsame.metadata hholds hconveyed rfl
  refine ⟨d, ?_, hdescribes⟩
  rw [LocalKernelClient.engineStatus, Consumer.run_bind, hrun]
  simp only [Consumer.run_bind, expectType_of_eq hresponse, hparse, Consumer.run_lift_ok]

/-- The facts of an inventory survive when those of each engine are conveyed, and the reply to
`LIST_ENGINES` fits in a frame. -/
theorem survive_of_conveyed
    (hlength : cfg.inventory.length < 2 ^ 31) (hids : (cfg.inventory.map (·.id)).Nodup)
    (hconveyed : ∀ engine ∈ cfg.inventory, Conveyed engine)
    (hfits : ∀ warm, Wire.textLength (listFields cfg.inventory warm) ≤ Wire.kMaxMetadata) :
  FactsSurvive cfg
  := by
  constructor
  · intro calls malformed helloCorrelation correlation
    obtain ⟨written, hwrite⟩ : ∃ written,
        Protocol.write (listEnginesCommand correlation) = .ok written := exists_write
      (fun e he => absurd he List.not_mem_nil) (Nat.zero_le _)
    obtain ⟨bytes, hbytes⟩ := exists_converses cfg calls helloCorrelation hwrite
    use bytes, hbytes
    intro src hsrc
    obtain ⟨descriptors, hrun, hall⟩ :=
      engines_of_conveyed hlength hconveyed (hfits calls.isWarm) hbytes
    have hfollows := engines_follows malformed helloCorrelation correlation src bytes hsrc
    rw [hrun] at hfollows
    obtain ⟨rest, hdone, -⟩ := hfollows.of_done
    exact ⟨descriptors, rest, hdone, hall⟩
  · intro calls malformed helloCorrelation correlation engine hengine id hid
    have hplain : Wire.plainText id.getBytes = true := by
      rw [hid]
      apply (hconveyed engine hengine).plain
      simp [EngineDescriptorFacts.texts]
    have hidLength : id.getBytes.length + 11 ≤ Wire.kMaxMetadata := by
      have hle := Nat.le_trans (textLength_le_listFields hengine calls.isWarm) (hfits calls.isWarm)
      have hname : (Bytes.ofString "work_types").length = 10 := by
        decide +kernel
      simp only [descriptorFields, Wire.textLength, List.map_cons, List.map_nil, List.sum_cons,
        List.nil_append, hname] at hle
      rw [hid]
      omega
    obtain ⟨written, hwrite⟩ := exists_write_engineStatusCommand hplain hidLength correlation
    obtain ⟨bytes, hbytes⟩ := exists_converses cfg calls helloCorrelation hwrite
    use bytes, hbytes
    intro src hsrc
    obtain ⟨descriptor, hrun, hdescribes⟩ := engineStatus_of_conveyed hids hengine
      (hconveyed engine hengine) (hfits calls.isWarm) hid hbytes
    have hfollows := engineStatus_follows malformed helloCorrelation correlation id src bytes hsrc
    rw [hrun] at hfollows
    obtain ⟨rest, hdone, -⟩ := hfollows.of_done
    exact ⟨descriptor, rest, hdone, hdescribes⟩

/-- The texts of an engine that is described are well-formed. -/
theorem Describes.wellFormed
    {warm : Bytes → Bool} {engine : EngineDescriptorFacts} {d : EngineDescriptor}
    (h : Describes warm engine d) :
  ∀ text ∈ engine.texts, WellFormed text
  := by
  have hset : ∀ {set : Finset JavaString} {values : List Bytes},
      set.image JavaString.getBytes = values.toFinset → ∀ x ∈ values, WellFormed x := by
    intro set values himage x hx
    rw [← List.mem_toFinset, ← himage] at hx
    obtain ⟨s, -, rfl⟩ := Finset.mem_image.mp hx
    exact ⟨s, rfl⟩
  have heffort : ∀ x ∈ engine.supportedEfforts, WellFormed x := by
    intro x hx
    rw [← List.mem_toFinset, ← h.efforts] at hx
    obtain ⟨effort, -, rfl⟩ := Finset.mem_image.mp hx
    cases effort with
    | standard => apply wellFormed_ofString
    | high => apply wellFormed_ofString
  have hgpu : WellFormed engine.resources.gpuId := by
    have hid := h.gpuId
    split_ifs at hid with hempty
    · rw [hempty]
      exact ⟨⟨[]⟩, rfl⟩
    · obtain ⟨s, -, hs⟩ := Option.map_eq_some_iff.mp hid
      exact ⟨s, hs⟩
  simp only [EngineDescriptorFacts.texts, List.forall_mem_append, List.forall_mem_cons]
  exact ⟨⟨⟨⟨⟨⟨_, h.id⟩, ⟨_, h.placement⟩, ⟨_, h.availability⟩, hgpu, List.forall_mem_nil _⟩,
    hset h.workTypes⟩, hset h.capabilities⟩, hset h.modelIds⟩, heffort⟩

theorem forall₂_and {α β : Type} {P Q : α → β → Prop} {l : List α} {bs : List β}
    (hP : List.Forall₂ P l bs) (hQ : List.Forall₂ Q l bs) :
  ∀ a ∈ l, ∃ b, P a b ∧ Q a b
  := by
  induction hP with
  | nil =>
      intro a ha
      cases ha
  | cons hab _ ih =>
      cases hQ with
      | cons hab' hQ =>
          intro a ha
          rcases List.mem_cons.mp ha with rfl | ha
          · exact ⟨_, hab, hab'⟩
          · exact ih hQ a ha

/-- When the facts survive, the texts are plain and fit, and each engine is described by a
descriptor that the client parses. -/
theorem FactsSurvive.described
    (h : FactsSurvive cfg) (hlength : cfg.inventory.length < 2 ^ 31) (calls : Calls) :
  (∀ engine ∈ cfg.inventory, ∀ text ∈ engine.texts, Wire.plainText text = true)
    ∧ Wire.textLength (listFields cfg.inventory calls.isWarm) ≤ Wire.kMaxMetadata
    ∧ ∀ engine ∈ cfg.inventory, ∃ (response : Protocol.Frame) (kernel : Metadata)
        (base : JavaString) (d : EngineDescriptor),
      SameMetadata response.metadata kernel
        ∧ HoldsFields kernel base.getBytes engine (calls.isWarm engine.id)
        ∧ parseEngineDescriptor response base = .ok d ∧ Describes calls.isWarm engine d
  := by
  obtain ⟨bytes, hbytes, hreads⟩ := h.engines calls (fun _ => ⟨[]⟩) 0 0
  have hsrc : (Source.ofBytes bytes).PolledDelivers bytes :=
    ⟨Source.polled_ofBytes bytes, Source.content_ofBytes bytes⟩
  obtain ⟨descriptors, rest, hrun, hall⟩ := hreads _ hsrc
  have hfollows := engines_follows (fun _ => ⟨[]⟩) 0 0 _ bytes hsrc
  rw [hrun] at hfollows
  obtain ⟨rest', hdone, -⟩ := hfollows.done_left
  rw [LocalKernelClient.engines, Consumer.run_bind] at hdone
  cases hexchange : (exchange (Protocol.frameFrom (fun _ => ⟨[]⟩) Consumer.take) 0
      (listEnginesCommand 0)).run bytes with
  | waiting =>
      rw [hexchange] at hdone
      cases hdone
  | raised e =>
      rw [hexchange] at hdone
      cases hdone
  | done response rest₁ =>
      rw [hexchange] at hdone
      obtain ⟨second, hsecond, hencodable⟩ := hbytes.encodable_of_run hexchange
      obtain ⟨hplain, hfits⟩ :=
        (encodable_listEngines _ _ _).mp (hencodable _ (handle_listEngines hsecond))
      refine ⟨hplain, hfits, ?_⟩
      -- the texts are well-formed, so the response is the reply of the Kernel
      have hwellFormed : ∀ engine ∈ cfg.inventory, ∀ text ∈ engine.texts, WellFormed text := by
        intro engine hengine
        obtain ⟨d, hd, -⟩ := forall₂_and hall hall engine hengine
        exact hd.wellFormed
      obtain ⟨second', response', hresponse, hsame, hrun'⟩ :=
        run_exchange_listEngines hplain hwellFormed hfits hbytes fun _ => ⟨[]⟩
      cases hexchange.symm.trans hrun'
      simp only [engineList_eq hlength hresponse hsame] at hdone
      cases hparsed : cfg.inventory.zipIdx.mapM
          (fun p => parseEngineDescriptor response (LocalKernelClient.engineBase p.2)) with
      | error e =>
          rw [hparsed] at hdone
          cases hdone
      | ok parsed =>
          rw [hparsed] at hdone
          cases hdone
          intro engine hengine
          rw [← List.zipIdx_map_fst 0 cfg.inventory] at hengine hall
          obtain ⟨p, hp, rfl⟩ := List.mem_map.mp hengine
          rw [List.forall₂_map_left_iff] at hall
          obtain ⟨d, hd, hdescribes⟩ := forall₂_and (forall₂_of_mapM hparsed) hall p hp
          exact ⟨response, _, _, d, hsame, holdsFields_listEngines _ second' hp, hd, hdescribes⟩

end

end Client
