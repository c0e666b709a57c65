import MadreKernel.Kernel.Selection
import MadreKernel.Lib.Sieve

/-!
# What `select_engine` selects

`select_engine` is a sieve with six stages.  It selects the first engine of the inventory that
satisfies the conditions of all of them; when there is none, it names the first stage, in the order
in which they are documented, such that no engine satisfies the conditions up to it.
-/

namespace Kernel

/-- The stages of the selection. -/
inductive SelectionStage where
  | workType
  | capabilities
  | allowlist
  | exact
  | effort
  | availability

namespace SelectionStage

/-- The stages in the order in which they are documented. -/
def order : List SelectionStage :=
  [.workType, .capabilities, .allowlist, .exact, .effort, .availability]

theorem nodup_order :
  order.Nodup
  := by
  simp [order]

/-- The condition of a stage. -/
def Condition (work : WorkRecord) (engine : EngineDescriptorFacts) : SelectionStage → Prop
  | .workType => work.workType ∈ engine.workTypes
  | .capabilities => ∀ token ∈ splitCsv work.requiredCapabilities, token ∈ engine.capabilities
  | .allowlist =>
      splitCsv work.eligibleEngineIds ≠ [] → engine.id ∈ splitCsv work.eligibleEngineIds
  | .exact => (work.exactEngineId ≠ [] → engine.id = work.exactEngineId)
      ∧ (work.exactModelId ≠ [] → work.exactModelId ∈ engine.modelIds)
  | .effort => effortText work.effort ∈ engine.supportedEfforts
  | .availability => engine.availability = Bytes.ofString "AVAILABLE"

/-- The text of the failure of a stage. -/
def failure (work : WorkRecord) : SelectionStage → Bytes
  | .workType => Bytes.ofString "NO_ELIGIBLE_ENGINE: no engine supports Work type " ++ work.workType
  | .capabilities => Bytes.ofString "NO_ELIGIBLE_ENGINE: required capabilities are not satisfied"
  | .allowlist =>
      Bytes.ofString "NO_ELIGIBLE_ENGINE: eligible engine allowlist excluded all compatible engines"
  | .exact =>
      Bytes.ofString "EXACT_SELECTION_UNSATISFIED: exact engine/model constraint did not match"
  | .effort => Bytes.ofString "NO_ELIGIBLE_ENGINE: requested effort " ++ effortText work.effort
      ++ Bytes.ofString " is unsupported"
  | .availability => Bytes.ofString "NO_ELIGIBLE_ENGINE: compatible engines are unavailable"

/-- How `select_engine` decides the condition of a stage. -/
def keep (work : WorkRecord) : SelectionStage → EngineDescriptorFacts → Bool
  | .workType => fun engine => engine.workTypes.contains work.workType
  | .capabilities => fun engine =>
      containsAll engine.capabilities (splitCsv work.requiredCapabilities)
  | .allowlist => fun engine => splitCsv work.eligibleEngineIds = []
      || (splitCsv work.eligibleEngineIds).contains engine.id
  | .exact => matchesExact work
  | .effort => fun engine => engine.supportedEfforts.contains (effortText work.effort)
  | .availability => fun engine => engine.availability = Bytes.ofString "AVAILABLE"

theorem keep_iff (work : WorkRecord) (engine : EngineDescriptorFacts) (stage : SelectionStage) :
  stage.keep work engine = true ↔ stage.Condition work engine
  := by
  cases stage with
  | workType => simp [keep, Condition]
  | capabilities => simp [keep, Condition, containsAll]
  | allowlist => simp [keep, Condition, or_iff_not_imp_left]
  | exact => simp [keep, Condition, matchesExact, or_iff_not_imp_left]
  | effort => simp [keep, Condition]
  | availability => simp [keep, Condition]

/-- A stage of the sieve. -/
def toStage (work : WorkRecord) (stage : SelectionStage) : Stage Bytes EngineDescriptorFacts :=
  ⟨stage.failure work, stage.keep work⟩

theorem passes_iff
    (work : WorkRecord) (engine : EngineDescriptorFacts) (stages : List SelectionStage) :
  Stage.passes (stages.map (toStage work)) engine = true
    ↔ ∀ stage ∈ stages, stage.Condition work engine
  := by
  rw [Stage.passes, List.all_map, List.all_eq_true]
  apply forall₂_congr
  intro stage _
  apply keep_iff

end SelectionStage

/-- The selection of the first candidate. -/
def selectFirst (work : WorkRecord) : List EngineDescriptorFacts → Except Bytes Selection
  | [] => .error (Bytes.ofString "NO_ELIGIBLE_ENGINE: compatible engines are unavailable")
  | selected :: _ => .ok ⟨selected, modelFor work selected⟩

theorem sieve_cons
    (stage : Stage Bytes EngineDescriptorFacts) (stages : List (Stage Bytes EngineDescriptorFacts))
    (candidates : List EngineDescriptorFacts) :
  Stage.sieve (stage :: stages) candidates
    = narrow stage.failure stage.keep candidates >>= Stage.sieve stages
  := by
  rw [Stage.sieve, narrow]
  split_ifs
  · rfl
  · rfl

/-- `select_engine` is a sieve. -/
theorem selectEngine_eq_sieve (work : WorkRecord) (inventory : List EngineDescriptorFacts) :
  selectEngine work inventory
    = Stage.sieve (SelectionStage.order.map (SelectionStage.toStage work)) inventory
      >>= selectFirst work
  := by
  simp only [SelectionStage.order, List.map_cons, List.map_nil, sieve_cons, bind_assoc]
  rfl

/-! ### The selected engine -/

/-- An engine that may be selected for a Work. -/
structure Selectable (work : WorkRecord) (engine : EngineDescriptorFacts) : Prop
    extends Suits work engine where
  available : engine.availability = Bytes.ofString "AVAILABLE"

/-- An engine is the first one of an inventory that may be selected. -/
def FirstSelectable (work : WorkRecord) (inventory : List EngineDescriptorFacts)
    (engine : EngineDescriptorFacts) : Prop :=
  ∃ before after, inventory = before ++ engine :: after ∧ Selectable work engine
    ∧ ∀ e ∈ before, ¬ Selectable work e

/-- An engine may be selected when it satisfies the conditions of all stages. -/
theorem selectable_iff (work : WorkRecord) (engine : EngineDescriptorFacts) :
  Selectable work engine ↔ ∀ stage ∈ SelectionStage.order, stage.Condition work engine
  := by
  simp only [SelectionStage.order, List.forall_mem_cons, List.not_mem_nil, IsEmpty.forall_iff,
    implies_true, and_true]
  constructor
  · intro h
    exact ⟨h.workType, h.capabilities, h.allowed, ⟨h.exactEngine, h.exactModel⟩, h.effort,
      h.available⟩
  · rintro ⟨htype, hcapabilities, hallowed, ⟨hengine, hmodel⟩, heffort, havailable⟩
    exact ⟨⟨htype, hcapabilities, hallowed, hengine, hmodel, heffort⟩, havailable⟩

section

variable {work : WorkRecord} {inventory : List EngineDescriptorFacts}

theorem passes_order_iff (engine : EngineDescriptorFacts) :
  Stage.passes (SelectionStage.order.map (SelectionStage.toStage work)) engine = true
    ↔ Selectable work engine
  := by
  rw [SelectionStage.passes_iff, selectable_iff]

/-- The first engine that may be selected is the first one that the sieve leaves. -/
theorem firstSelectable_iff (engine : EngineDescriptorFacts) :
  FirstSelectable work inventory engine
    ↔ ∃ rest, inventory.filter
      (Stage.passes (SelectionStage.order.map (SelectionStage.toStage work))) = engine :: rest
  := by
  simp only [List.filter_eq_cons_iff, passes_order_iff]
  constructor
  · rintro ⟨before, after, hinventory, hselectable, hbefore⟩
    exact ⟨_, before, after, hinventory, hbefore, hselectable, rfl⟩
  · rintro ⟨rest, before, after, hinventory, hbefore, hselectable, -⟩
    exact ⟨before, after, hinventory, hselectable, hbefore⟩

/-- One is the first when there is one in the inventory. -/
theorem exists_firstSelectable_iff :
  (∃ engine, FirstSelectable work inventory engine)
    ↔ ∃ engine ∈ inventory, Selectable work engine
  := by
  constructor
  · rintro ⟨engine, before, after, rfl, hselectable, -⟩
    exact ⟨engine, by simp, hselectable⟩
  · rintro ⟨engine, hmem, hselectable⟩
    simp only [firstSelectable_iff]
    apply List.exists_cons_of_ne_nil
    apply List.ne_nil_of_mem
    exact List.mem_filter.mpr ⟨hmem, (passes_order_iff engine).mpr hselectable⟩

/-- `select_engine` returns a selection exactly of the first engine that may be selected. -/
theorem selectEngine_eq_ok_iff (selection : Selection) :
  selectEngine work inventory = .ok selection
    ↔ FirstSelectable work inventory selection.engine
      ∧ selection.modelId = modelFor work selection.engine
  := by
  rw [selectEngine_eq_sieve, firstSelectable_iff]
  constructor
  · intro h
    obtain ⟨left, hsieve, hfirst⟩ := bind_eq_ok h
    cases left with
    | nil => cases hfirst
    | cons selected rest =>
        cases hfirst
        exact ⟨⟨rest, (Stage.sieve_eq_ok hsieve).symm⟩, rfl⟩
  · rintro ⟨⟨rest, hrest⟩, hmodel⟩
    have hmem : selection.engine ∈ selection.engine :: rest := List.mem_cons_self
    rw [← hrest, List.mem_filter] at hmem
    have hselection : (⟨selection.engine, modelFor work selection.engine⟩ : Selection)
        = selection := by
      rw [← hmodel]
    rw [Stage.sieve_of_passes hmem.1 hmem.2, hrest]
    exact congrArg Except.ok hselection

/-- Some engine of an inventory satisfies the conditions of the stages up to one of them. -/
def Reached (work : WorkRecord) (inventory : List EngineDescriptorFacts) (n : Nat) : Prop :=
  ∃ engine ∈ inventory, ∀ stage ∈ SelectionStage.order.take (n + 1), stage.Condition work engine

/-- A stage is the first one such that no engine satisfies the conditions up to it. -/
def FirstBlocked (work : WorkRecord) (inventory : List EngineDescriptorFacts)
    (stage : SelectionStage) : Prop :=
  ∃ n, SelectionStage.order[n]? = some stage ∧ ¬ Reached work inventory n
    ∧ ∀ m < n, Reached work inventory m

theorem passed_iff (n : Nat) :
  Stage.Passed (SelectionStage.order.map (SelectionStage.toStage work)) inventory n
    ↔ Reached work inventory n
  := by
  simp only [Stage.Passed, Reached, ← List.map_take, SelectionStage.passes_iff]

/-- `select_engine` fails exactly with the text of the first stage that leaves no engine. -/
theorem selectEngine_eq_error_iff (failure : Bytes) :
  selectEngine work inventory = .error failure
    ↔ ∃ stage, FirstBlocked work inventory stage ∧ failure = stage.failure work
  := by
  have hsieve : selectEngine work inventory = .error failure
      ↔ Stage.sieve (SelectionStage.order.map (SelectionStage.toStage work)) inventory
        = .error failure := by
    rw [selectEngine_eq_sieve]
    cases hsieve : Stage.sieve (SelectionStage.order.map (SelectionStage.toStage work))
        inventory with
    | error e =>
        constructor
        · intro h
          cases h
          rfl
        · intro h
          cases h
          rfl
    | ok left =>
        cases left with
        | nil => exact absurd rfl (Stage.sieve_ne_nil (by simp [SelectionStage.order]) hsieve)
        | cons selected rest =>
            constructor
            · intro h
              cases h
            · intro h
              cases h
  rw [hsieve, Stage.sieve_eq_error_iff]
  simp only [passed_iff, List.getElem?_map, Option.map_eq_some_iff]
  constructor
  · rintro ⟨n, _, ⟨stage, hstage, rfl⟩, rfl, hblocked, hreached⟩
    exact ⟨stage, ⟨n, hstage, hblocked, hreached⟩, rfl⟩
  · rintro ⟨stage, ⟨n, hstage, hblocked, hreached⟩, rfl⟩
    exact ⟨n, _, ⟨stage, hstage, rfl⟩, rfl, hblocked, hreached⟩

end

/-- `select_engine` equals its specification. -/
theorem selection_specified (work : WorkRecord) (inventory : List EngineDescriptorFacts) :
  ((∃ selection, selectEngine work inventory = .ok selection)
      ↔ ∃ engine ∈ inventory, Selectable work engine)
    ∧ (∀ selection, selectEngine work inventory = .ok selection →
      FirstSelectable work inventory selection.engine
        ∧ selection.modelId = if work.exactModelId ≠ [] then work.exactModelId
          else selection.engine.modelIds.headD [])
    ∧ ∀ failure, selectEngine work inventory = .error failure
      ↔ ∃ stage, FirstBlocked work inventory stage ∧ failure = stage.failure work
  := by
  refine ⟨?_, ?_, selectEngine_eq_error_iff⟩
  · rw [← exists_firstSelectable_iff]
    constructor
    · rintro ⟨selection, h⟩
      exact ⟨_, ((selectEngine_eq_ok_iff selection).mp h).1⟩
    · rintro ⟨engine, h⟩
      exact ⟨⟨engine, modelFor work engine⟩, (selectEngine_eq_ok_iff _).mpr ⟨h, rfl⟩⟩
  · intro selection h
    exact (selectEngine_eq_ok_iff selection).mp h

end Kernel
