import MadreKernel.Kernel.Requests
import MadreKernel.Lib.Decimal
import MadreKernel.Wire.Encoding

/-!
# Engine facts in replies

`LIST_ENGINES` and `ENGINE_STATUS` flatten the descriptors of the engines into metadata fields:
the lists are joined by commas, the numbers are decimal texts, and the fields of the engine at
place `i` of the inventory have the prefix `engine.i.`.  The keys of the fields of a reply differ,
so the reply is encodable when the texts of the descriptors are plain and all of them fit.
-/

namespace Kernel

open Wire

def listEnginesResponse : UInt16 := 61

def engineStatusResponse : UInt16 := 71

def joinCsv (values : List Bytes) : Bytes := [comma].intercalate values

/-- The fields of a descriptor in the order in which they are set, with a prefix of their names. -/
def descriptorFields (base : Bytes) (descriptor : EngineDescriptorFacts) (warm : Bool) :
    List (Bytes × Bytes) :=
  [(base ++ Bytes.ofString "id", descriptor.id),
    (base ++ Bytes.ofString "work_types", joinCsv descriptor.workTypes),
    (base ++ Bytes.ofString "capabilities", joinCsv descriptor.capabilities),
    (base ++ Bytes.ofString "model_ids", joinCsv descriptor.modelIds),
    (base ++ Bytes.ofString "supported_efforts", joinCsv descriptor.supportedEfforts),
    (base ++ Bytes.ofString "placement", descriptor.placement),
    (base ++ Bytes.ofString "availability", descriptor.availability),
    (base ++ Bytes.ofString "required_cpu_slots",
      Bytes.ofString (toString descriptor.resources.cpuSlots.toInt)),
    (base ++ Bytes.ofString "required_ram_bytes",
      Decimal.digits descriptor.resources.ramBytes.toNat),
    (base ++ Bytes.ofString "required_gpu_id", descriptor.resources.gpuId),
    (base ++ Bytes.ofString "required_gpu_vram_bytes",
      Decimal.digits descriptor.resources.gpuVramBytes.toNat),
    (base ++ Bytes.ofString "warm", Bytes.ofString (if warm then "true" else "false"))]

def addEngineDescriptor (frame : Frame) (base : Bytes) (descriptor : EngineDescriptorFacts)
    (warm : Bool) : Frame :=
  { frame with
    metadata := (descriptorFields base descriptor warm).foldl (fun m e => m.assign e.1 e.2)
      frame.metadata }

/-- The prefix of the fields of the engine at a place of the inventory. -/
def engineBase (i : Nat) : Bytes :=
  Bytes.ofString "engine." ++ Decimal.digits i ++ Bytes.ofString "."

/-- `list_engines`; `warm` is what the worker pool answers. -/
def listEngines (inventory : List EngineDescriptorFacts) (warm : Bytes → Bool) (request : Frame) :
    Frame :=
  let out : Frame := ⟨listEnginesResponse, request.correlationId, ∅, []⟩
  inventory.zipIdx.foldl
    (fun out e => addEngineDescriptor out (engineBase e.2) e.1 (warm e.1.id))
    (withField out "count" (Decimal.digits inventory.length))

/-- The reply to `ENGINE_STATUS` about an engine that is found. -/
def engineReply (descriptor : EngineDescriptorFacts) (warm : Bool) (request : Frame) : Frame :=
  addEngineDescriptor ⟨engineStatusResponse, request.correlationId, ∅, []⟩ [] descriptor warm

/-- `engine_status`; a missing field is the text that it throws. -/
def engineStatus (inventory : List EngineDescriptorFacts) (warm : Bytes → Bool) (request : Frame) :
    Except Bytes Frame := do
  let id ← metadataValue request "engine_id"
  match inventory.find? (fun descriptor => descriptor.id = id) with
  | none => return errorResponse request "ENGINE_NOT_FOUND" "unknown physical engine"
  | some descriptor => return engineReply descriptor (warm descriptor.id) request

/-! ### The fields of a reply -/

/-- The fields of the reply to `LIST_ENGINES`. -/
def listFields (inventory : List EngineDescriptorFacts) (warm : Bytes → Bool) :
    List (Bytes × Bytes) :=
  (Bytes.ofString "count", Decimal.digits inventory.length)
    :: inventory.zipIdx.flatMap fun e => descriptorFields (engineBase e.2) e.1 (warm e.1.id)

theorem foldl_addEngineDescriptor
    (warm : Bytes → Bool) (l : List (EngineDescriptorFacts × Nat)) (frame : Frame) :
  l.foldl (fun out e => addEngineDescriptor out (engineBase e.2) e.1 (warm e.1.id)) frame
    = { frame with
        metadata := (l.flatMap fun e => descriptorFields (engineBase e.2) e.1 (warm e.1.id)).foldl
          (fun m e => m.assign e.1 e.2) frame.metadata }
  := by
  induction l generalizing frame with
  | nil => rfl
  | cons e l ih =>
      rw [List.foldl_cons, ih, List.flatMap_cons, List.foldl_append]
      rfl

theorem listEngines_eq
    (inventory : List EngineDescriptorFacts) (warm : Bytes → Bool) (request : Frame) :
  listEngines inventory warm request
    = ⟨listEnginesResponse, request.correlationId,
        SortedMap.ofAssigned (listFields inventory warm), []⟩
  := by
  rw [listEngines, foldl_addEngineDescriptor]
  rfl

/-! ### The keys differ -/

/-- The names of the fields of a descriptor. -/
def descriptorNames : List String :=
  ["id", "work_types", "capabilities", "model_ids", "supported_efforts", "placement",
    "availability", "required_cpu_slots", "required_ram_bytes", "required_gpu_id",
    "required_gpu_vram_bytes", "warm"]

theorem map_fst_descriptorFields
    (base : Bytes) (descriptor : EngineDescriptorFacts) (warm : Bool) :
  (descriptorFields base descriptor warm).map Prod.fst
    = (descriptorNames.map Bytes.ofString).map (base ++ ·)
  := rfl

theorem nodup_descriptorFields
    (base : Bytes) (descriptor : EngineDescriptorFacts) (warm : Bool) :
  ((descriptorFields base descriptor warm).map Prod.fst).Nodup
  := by
  have hnames : (descriptorNames.map Bytes.ofString).Nodup := by
    decide +kernel
  rw [map_fst_descriptorFields]
  exact hnames.map (List.append_right_injective base)

/-- The octet of the full stop. -/
abbrev fullStop : UInt8 := 46

theorem fullStop_notMem_digits (n : Nat) :
  fullStop ∉ Decimal.digits n
  := by
  intro h
  have := Decimal.isOctet_of_mem_digits h
  revert this
  decide

/-- The place of an engine can be read off its keys. -/
theorem engineBase_append_inj
    {i j : Nat} {x y : Bytes} (h : engineBase i ++ x = engineBase j ++ y) :
  i = j ∧ x = y
  := by
  have hstop : Bytes.ofString "." = [fullStop] := by
    decide +kernel
  have hdigits : ∀ (n : Nat) (rest : Bytes),
      (Decimal.digits n ++ fullStop :: rest).takeWhile (· ≠ fullStop) = Decimal.digits n := by
    intro n rest
    rw [List.takeWhile_append_of_pos]
    · simp
    · intro b hb
      simp only [ne_eq, decide_eq_true_eq]
      rintro rfl
      exact fullStop_notMem_digits n hb
  simp only [engineBase, List.append_assoc, List.append_cancel_left_eq, hstop,
    List.singleton_append] at h
  have hplace := congrArg (List.takeWhile (· ≠ fullStop)) h
  rw [hdigits, hdigits] at hplace
  obtain rfl := Decimal.digits_injective hplace
  exact ⟨rfl, (List.cons.inj (List.append_cancel_left h)).2⟩

theorem nodup_listFields (inventory : List EngineDescriptorFacts) (warm : Bytes → Bool) :
  ((listFields inventory warm).map Prod.fst).Nodup
  := by
  rw [listFields, List.map_cons, List.nodup_cons, List.map_flatMap, List.nodup_flatMap]
  refine ⟨?_, fun e _ => nodup_descriptorFields _ _ _, ?_⟩
  · intro hmem
    obtain ⟨e, -, hkey⟩ := List.mem_flatMap.mp hmem
    rw [map_fst_descriptorFields] at hkey
    obtain ⟨name, -, heq⟩ := List.mem_map.mp hkey
    have hcount : Bytes.ofString "count" = [99, 111, 117, 110, 116] := by
      decide +kernel
    have hengine : Bytes.ofString "engine." = [101, 110, 103, 105, 110, 101, 46] := by
      decide +kernel
    simp [engineBase, hcount, hengine] at heq
  · have hplaces : (inventory.zipIdx.map Prod.snd).Nodup := by
      rw [List.zipIdx_map_snd]
      exact List.nodup_range'
    apply List.Pairwise.imp _ (List.pairwise_map.mp hplaces)
    intro d e hne key hd he
    simp only [map_fst_descriptorFields] at hd he
    obtain ⟨x, -, rfl⟩ := List.mem_map.mp hd
    obtain ⟨y, -, heq⟩ := List.mem_map.mp he
    exact hne (engineBase_append_inj heq).1.symm

/-! ### Which replies are encodable -/

/-- The texts of a descriptor. -/
def EngineDescriptorFacts.texts (descriptor : EngineDescriptorFacts) : List Bytes :=
  [descriptor.id, descriptor.placement, descriptor.availability, descriptor.resources.gpuId]
    ++ descriptor.workTypes ++ descriptor.capabilities ++ descriptor.modelIds
    ++ descriptor.supportedEfforts

theorem plainText_append (x y : Bytes) :
  plainText (x ++ y) = (plainText x && plainText y)
  := by
  rw [plainText, plainText, plainText, List.any_append, Bool.not_or]

/-- A joined list is plain when its items are. -/
theorem plainText_joinCsv (values : List Bytes) :
  plainText (joinCsv values) = values.all plainText
  := by
  induction values with
  | nil => rfl
  | cons x values ih =>
      cases values with
      | nil =>
          rw [joinCsv, List.intercalate_singleton]
          simp
      | cons y values =>
          rw [joinCsv, List.intercalate_cons_cons, List.append_assoc, plainText_append,
            List.all_cons, ← ih, plainText_append]
          rfl

theorem plainText_digits (n : Nat) :
  plainText (Decimal.digits n) = true
  := plainText_decimal fun _ hb => Or.inr (Decimal.isOctet_of_mem_digits hb)

theorem plainText_toString (n : Int) :
  plainText (Bytes.ofString (toString n)) = true
  := plainText_decimal fun _ hb => Decimal.isOctet_of_mem hb

theorem plainText_warm (warm : Bool) :
  plainText (Bytes.ofString (if warm then "true" else "false")) = true
  := by
  cases warm with
  | false => decide +kernel
  | true => decide +kernel

/-- A key stays plain behind a prefix without special octets. -/
theorem plainKey_append
    {base key : Bytes} (hbase : base.any (· ∈ [equalsSign, carriageReturn, lineFeed]) = false)
    (hkey : plainKey key = true) :
  plainKey (base ++ key) = true
  := by
  simp only [plainKey, Bool.not_eq_true', Bool.or_eq_false_iff] at hkey ⊢
  constructor
  · rw [List.isEmpty_eq_false_iff]
    exact List.append_ne_nil_of_right_ne_nil base (List.isEmpty_eq_false_iff.mp hkey.1)
  · rw [List.any_append, hbase, hkey.2]
    rfl

/-- The fields of a descriptor are accepted exactly when its texts are plain. -/
theorem plain_descriptorFields
    {base : Bytes} (hbase : base.any (· ∈ [equalsSign, carriageReturn, lineFeed]) = false)
    (descriptor : EngineDescriptorFacts) (warm : Bool) :
  (∀ e ∈ descriptorFields base descriptor warm, plainKey e.1 = true ∧ plainText e.2 = true)
    ↔ ∀ text ∈ descriptor.texts, plainText text = true
  := by
  have hkeys : ∀ e ∈ descriptorFields base descriptor warm, plainKey e.1 = true := by
    intro e he
    have hkey := List.mem_map_of_mem (f := Prod.fst) he
    rw [map_fst_descriptorFields] at hkey
    obtain ⟨name, hname, heq⟩ := List.mem_map.mp hkey
    have hplain : ∀ name ∈ descriptorNames.map Bytes.ofString, plainKey name = true := by
      decide +kernel
    rw [← heq]
    exact plainKey_append hbase (hplain name hname)
  have hvalues : (∀ e ∈ descriptorFields base descriptor warm, plainText e.2 = true)
      ↔ ∀ text ∈ descriptor.texts, plainText text = true := by
    simp only [descriptorFields, EngineDescriptorFacts.texts, List.forall_mem_cons,
      List.forall_mem_append, plainText_joinCsv, plainText_digits, plainText_toString,
      plainText_warm, List.all_eq_true, List.not_mem_nil, IsEmpty.forall_iff, implies_true,
      true_and, and_true]
    tauto
  rw [← hvalues]
  constructor
  · intro h e he
    exact (h e he).2
  · intro h e he
    exact ⟨hkeys e he, h e he⟩

theorem engineBase_plain (i : Nat) :
  (engineBase i).any (· ∈ [equalsSign, carriageReturn, lineFeed]) = false
  := by
  rw [engineBase, List.any_append, List.any_append, Bool.or_eq_false_iff, Bool.or_eq_false_iff]
  refine ⟨⟨by decide +kernel, ?_⟩, by decide +kernel⟩
  rw [List.any_eq_false]
  intro b hb hmem
  have hdigit := Decimal.isOctet_of_mem_digits hb
  simp only [List.mem_cons, List.not_mem_nil, or_false, decide_eq_true_eq] at hmem
  rcases hmem with rfl | rfl | rfl
  all_goals
    revert hdigit
    decide

/-- The reply to `LIST_ENGINES` is encodable when the texts of the engines are plain and their
fields fit. -/
theorem encodable_listEngines
    (inventory : List EngineDescriptorFacts) (warm : Bytes → Bool) (request : Frame) :
  encodable (listEngines inventory warm request) = true
    ↔ (∀ engine ∈ inventory, ∀ text ∈ engine.texts, plainText text = true)
      ∧ textLength (listFields inventory warm) ≤ kMaxMetadata
  := by
  have hcount : plainKey (Bytes.ofString "count") = true := by
    decide +kernel
  have hengines : (∀ e ∈ listFields inventory warm, plainKey e.1 = true ∧ plainText e.2 = true)
      ↔ ∀ engine ∈ inventory.zipIdx.map Prod.fst, ∀ text ∈ engine.texts,
        plainText text = true := by
    rw [listFields, List.forall_mem_cons, List.forall_mem_flatMap, List.forall_mem_map]
    simp only [plain_descriptorFields (engineBase_plain _), hcount, plainText_digits, and_self,
      true_and]
  rw [List.zipIdx_map_fst] at hengines
  have hperm : (listEngines inventory warm request).metadata.entries.Perm
      (listFields inventory warm) := by
    rw [listEngines_eq]
    exact SortedMap.perm_ofAssigned (nodup_listFields inventory warm)
  rw [encodable_iff_of_perm hperm, hengines, listEngines_eq]
  simp

theorem engineReply_eq
    (descriptor : EngineDescriptorFacts) (warm : Bool) (request : Frame) :
  engineReply descriptor warm request
    = ⟨engineStatusResponse, request.correlationId,
        SortedMap.ofAssigned (descriptorFields [] descriptor warm), []⟩
  := rfl

/-- The reply to `ENGINE_STATUS` is encodable when the texts of the engine are plain and its
fields fit. -/
theorem encodable_engineReply
    (descriptor : EngineDescriptorFacts) (warm : Bool) (request : Frame) :
  encodable (engineReply descriptor warm request) = true
    ↔ (∀ text ∈ descriptor.texts, plainText text = true)
      ∧ textLength (descriptorFields [] descriptor warm) ≤ kMaxMetadata
  := by
  have hperm : (engineReply descriptor warm request).metadata.entries.Perm
      (descriptorFields [] descriptor warm) := by
    rw [engineReply_eq]
    exact SortedMap.perm_ofAssigned (nodup_descriptorFields [] descriptor warm)
  rw [encodable_iff_of_perm hperm, plain_descriptorFields rfl, engineReply_eq]
  simp

end Kernel
