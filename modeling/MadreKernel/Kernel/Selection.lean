import MadreKernel.Kernel.Resources
import MadreKernel.Store.Schema

/-!
# Engine selection

`selectEngine` narrows the inventory by one constraint of a Work after another, and takes the
first engine that is left.  The constraints are texts of the Work record; those that are lists
are separated by commas.  The engine it selects satisfies every constraint, and so does the
model.
-/

namespace Kernel

/-- The octet of the comma. -/
abbrev comma : UInt8 := 44

/-- The scan of `split_csv`: `token` is the part of the current segment that has been passed. -/
def splitCsvFrom (token : Bytes) : Bytes → List Bytes
  | [] => if token = [] then [] else [token]
  | b :: rest =>
      if b = comma then
        if token = [] then splitCsvFrom [] rest else token :: splitCsvFrom [] rest
      else splitCsvFrom (token ++ [b]) rest

def splitCsv (csv : Bytes) : List Bytes := splitCsvFrom [] csv

theorem splitCsvFrom_append {x : Bytes} (h : comma ∉ x) (token rest : Bytes) :
  splitCsvFrom token (x ++ rest) = splitCsvFrom (token ++ x) rest
  := by
  induction x generalizing token with
  | nil => rw [List.nil_append, List.append_nil]
  | cons b x ih =>
      obtain ⟨hb, hx⟩ := not_or.mp (mt List.mem_cons.mpr h)
      rw [List.cons_append, splitCsvFrom, if_neg (ne_comm.mp hb), ih hx, List.append_assoc]
      rfl

/-- Texts without commas are split off the text that joins them. -/
theorem splitCsv_intercalate {l : List Bytes} (h : ∀ x ∈ l, x ≠ [] ∧ comma ∉ x) :
  splitCsv ([comma].intercalate l) = l
  := by
  induction l with
  | nil => rfl
  | cons x l ih =>
      obtain ⟨hne, hcomma⟩ := h x List.mem_cons_self
      have hl : ∀ y ∈ l, y ≠ [] ∧ comma ∉ y := fun y hy => h y (List.mem_cons_of_mem x hy)
      cases l with
      | nil =>
          rw [List.intercalate_singleton, splitCsv, ← List.append_nil x,
            splitCsvFrom_append hcomma, splitCsvFrom, List.nil_append, List.append_nil, if_neg hne]
      | cons y l =>
          rw [List.intercalate_cons_cons, splitCsv, List.append_assoc, splitCsvFrom_append hcomma,
            List.singleton_append, splitCsvFrom, if_pos rfl, List.nil_append, if_neg hne]
          congr 1
          exact ih hl

def containsAll (available required : List Bytes) : Bool :=
  required.all fun item => available.contains item

/-- The facts about an engine.  Its texts are command line arguments or literals, which hold no
NUL octet. -/
structure EngineDescriptorFacts where
  id : Bytes
  workTypes : List Bytes
  capabilities : List Bytes
  modelIds : List Bytes
  supportedEfforts : List Bytes
  placement : Bytes
  availability : Bytes
  resources : ResourceRequirement
  id_nulFree : 0 ∉ id
  modelIds_nulFree : ∀ m ∈ modelIds, 0 ∉ m

/-- The text of an effort. -/
def effortText : Effort → Bytes
  | .standard => Bytes.ofString "STANDARD"
  | .high => Bytes.ofString "HIGH"

structure Selection where
  engine : EngineDescriptorFacts
  modelId : Bytes

/-- One constraint: the candidates it leaves, or the failure when it leaves none. -/
def narrow (failure : Bytes) (keep : EngineDescriptorFacts → Bool)
    (candidates : List EngineDescriptorFacts) : Except Bytes (List EngineDescriptorFacts) :=
  if candidates.filter keep = [] then .error failure else .ok (candidates.filter keep)

/-- The model of a Work on an engine. -/
def modelFor (work : WorkRecord) (engine : EngineDescriptorFacts) : Bytes :=
  if work.exactModelId ≠ [] then work.exactModelId else engine.modelIds.headD []

/-- The constraint of the exact engine and the exact model of a Work. -/
def matchesExact (work : WorkRecord) (engine : EngineDescriptorFacts) : Bool :=
  (work.exactEngineId = [] || engine.id = work.exactEngineId)
    && (work.exactModelId = [] || engine.modelIds.contains work.exactModelId)

def selectEngine (work : WorkRecord) (inventory : List EngineDescriptorFacts) :
    Except Bytes Selection := do
  let candidates ← narrow
    (Bytes.ofString "NO_ELIGIBLE_ENGINE: no engine supports Work type " ++ work.workType)
    (fun engine => engine.workTypes.contains work.workType) inventory
  let requiredCapabilities := splitCsv work.requiredCapabilities
  let candidates ← narrow
    (Bytes.ofString "NO_ELIGIBLE_ENGINE: required capabilities are not satisfied")
    (fun engine => containsAll engine.capabilities requiredCapabilities) candidates
  let allowlist := splitCsv work.eligibleEngineIds
  let candidates ← narrow
    (Bytes.ofString
      "NO_ELIGIBLE_ENGINE: eligible engine allowlist excluded all compatible engines")
    (fun engine => allowlist = [] || allowlist.contains engine.id) candidates
  let candidates ← narrow
    (Bytes.ofString "EXACT_SELECTION_UNSATISFIED: exact engine/model constraint did not match")
    (matchesExact work) candidates
  let candidates ← narrow
    (Bytes.ofString "NO_ELIGIBLE_ENGINE: requested effort " ++ effortText work.effort
      ++ Bytes.ofString " is unsupported")
    (fun engine => engine.supportedEfforts.contains (effortText work.effort)) candidates
  let candidates ← narrow
    (Bytes.ofString "NO_ELIGIBLE_ENGINE: compatible engines are unavailable")
    (fun engine => engine.availability = Bytes.ofString "AVAILABLE") candidates
  match candidates with
  | [] => .error (Bytes.ofString "NO_ELIGIBLE_ENGINE: compatible engines are unavailable")
  | selected :: _ => .ok ⟨selected, modelFor work selected⟩

/-- An engine satisfies the constraints of a Work. -/
structure Suits (work : WorkRecord) (engine : EngineDescriptorFacts) : Prop where
  workType : work.workType ∈ engine.workTypes
  capabilities : ∀ c ∈ splitCsv work.requiredCapabilities, c ∈ engine.capabilities
  allowed : splitCsv work.eligibleEngineIds ≠ [] → engine.id ∈ splitCsv work.eligibleEngineIds
  exactEngine : work.exactEngineId ≠ [] → engine.id = work.exactEngineId
  exactModel : work.exactModelId ≠ [] → work.exactModelId ∈ engine.modelIds
  effort : effortText work.effort ∈ engine.supportedEfforts

theorem narrow_eq_ok {failure : Bytes} {keep : EngineDescriptorFacts → Bool}
    {candidates left : List EngineDescriptorFacts} (h : narrow failure keep candidates = .ok left) :
  left = candidates.filter keep
  := by
  rw [narrow] at h
  split_ifs at h
  cases h
  rfl

theorem bind_eq_ok {ε α β : Type} {x : Except ε α} {f : α → Except ε β} {b : β}
    (h : x >>= f = .ok b) :
  ∃ a, x = .ok a ∧ f a = .ok b
  := by
  cases x with
  | error e => cases h
  | ok a => exact ⟨a, rfl, h⟩

/-- The selected engine is in the inventory and satisfies the constraints. -/
theorem selectEngine_suits {work : WorkRecord} {inventory : List EngineDescriptorFacts}
    {selection : Selection} (h : selectEngine work inventory = .ok selection) :
  selection.engine ∈ inventory ∧ Suits work selection.engine
    ∧ selection.modelId = modelFor work selection.engine
  := by
  rw [selectEngine] at h
  obtain ⟨l₁, h₁, h⟩ := bind_eq_ok h
  obtain ⟨l₂, h₂, h⟩ := bind_eq_ok h
  obtain ⟨l₃, h₃, h⟩ := bind_eq_ok h
  obtain ⟨l₄, h₄, h⟩ := bind_eq_ok h
  obtain ⟨l₅, h₅, h⟩ := bind_eq_ok h
  obtain ⟨l₆, h₆, h⟩ := bind_eq_ok h
  cases l₆ with
  | nil => cases h
  | cons selected rest =>
      cases h
      have hmem : selected ∈ selected :: rest := List.mem_cons_self
      rw [narrow_eq_ok h₆, narrow_eq_ok h₅, narrow_eq_ok h₄, narrow_eq_ok h₃, narrow_eq_ok h₂,
        narrow_eq_ok h₁] at hmem
      simp only [List.mem_filter, List.contains_eq_mem, decide_eq_true_eq, containsAll,
        List.all_eq_true, matchesExact, Bool.and_eq_true, Bool.or_eq_true] at hmem
      obtain ⟨⟨⟨⟨⟨⟨hinventory, htype⟩, hcapabilities⟩, hallowed⟩, hengine, hmodel⟩, heffort⟩, -⟩ :=
        hmem
      exact ⟨hinventory,
        ⟨htype, hcapabilities, hallowed.resolve_left, hengine.resolve_left, hmodel.resolve_left,
          heffort⟩, rfl⟩

end Kernel
