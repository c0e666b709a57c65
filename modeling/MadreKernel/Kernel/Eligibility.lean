import MadreKernel.Client.Submission
import MadreKernel.Kernel.Records

/-!
# Eligible engines

Every attempt names an engine of the inventory that satisfies the constraints of the row of its
Work, and the model that these ask for.  The row has the constraints of the `SUBMIT` frame up to
their first NUL octet, so that the engine satisfies the constraints of the frame when they hold
no NUL octet.  A NUL octet in the frame drops constraints.

The frame of a request of the Java client has the constraints of the request, so that the engine
satisfies these as well.
-/

namespace Kernel

/-- The engine and the model satisfy the constraints of a Work. -/
def Eligible (inventory : List EngineDescriptorFacts) (work : WorkRecord)
    (engineId modelId : CString) : Prop :=
  ∃ engine ∈ inventory, Suits work engine ∧ engineId = bindText engine.id
    ∧ modelId = bindText (modelFor work engine)

theorem suits_constants (work : WorkRecord) (engine : EngineDescriptorFacts) :
  Suits work.constants engine ↔ Suits work engine
  := by
  constructor
  · rintro ⟨h₁, h₂, h₃, h₄, h₅, h₆⟩
    exact ⟨h₁, h₂, h₃, h₄, h₅, h₆⟩
  · rintro ⟨h₁, h₂, h₃, h₄, h₅, h₆⟩
    exact ⟨h₁, h₂, h₃, h₄, h₅, h₆⟩

/-- Eligibility is about the constants of a Work. -/
theorem Eligible.of_constants
    {inventory : List EngineDescriptorFacts} {work work' : WorkRecord} {engineId modelId : CString}
    (h : Eligible inventory work engineId modelId) (hconstants : work.constants = work'.constants) :
  Eligible inventory work' engineId modelId
  := by
  obtain ⟨engine, hmem, hsuits, hengine, hmodel⟩ := h
  have hsuits' := (suits_constants work engine).mpr hsuits
  rw [hconstants, suits_constants] at hsuits'
  have hmodel' : modelFor work.constants engine = modelFor work'.constants engine := by
    rw [hconstants]
  exact ⟨engine, hmem, hsuits', hengine, hmodel.trans (congrArg bindText hmodel')⟩

variable {cfg : Config} {s s' : System}

/-- The engine and the model that are picked are eligible for the row of the Work. -/
theorem picked_eligible
    (h : (machine cfg).Reachable s) {id engineId modelId : CString} {w : Row}
    (hpicked : s.picked id engineId modelId) (hrow : s.store.row? id = some w) :
  Eligible cfg.inventory (readWork w) engineId modelId
  := by
  obtain ⟨p, work, selection, hprocess, hreserved, rfl, rfl, rfl⟩ := hpicked
  have hwork : p.scheduler.work? = some work := by
    rw [hreserved]
    rfl
  obtain ⟨w', hrow', hconstants⟩ :=
    reachable_holds h hprocess (Process.mem_records_of_scheduler hwork)
  obtain rfl : w = w' := Option.some.inj (hrow.symm.trans hrow')
  have hheld : p.scheduler.selected? = some (work, selection) := by
    rw [hreserved]
    rfl
  obtain ⟨hmem, hsuits, hmodel⟩ := selectEngine_suits (reachable_selected h hprocess hheld)
  have heligible : Eligible cfg.inventory work (bindText selection.engine.id)
      (bindText selection.modelId) := ⟨selection.engine, hmem, hsuits, rfl, by rw [hmodel]⟩
  exact heligible.of_constants hconstants.symm

/-- In every reachable state the attempts of a Work are eligible for its row. -/
theorem reachable_eligible
    (h : (machine cfg).Reachable s) {id : CString} {w : Row} (hrow : s.store.row? id = some w)
    {a : Attempt} (ha : a ∈ s.store.attemptsOf id) :
  Eligible cfg.inventory (readWork w) a.engineId a.modelId
  := by
  refine Machine.Reachable.invariant
    (P := fun s => ∀ id w a, s.store.row? id = some w → a ∈ s.store.attemptsOf id →
      Eligible cfg.inventory (readWork w) a.engineId a.modelId) ?_ ?_ h id w a hrow ha
  · rintro s ⟨hstore, -⟩ id w a hrow
    rw [hstore] at hrow
    cases hrow
  · intro s e s' hreach heligible hstep id w a hrow' ha
    have hledger := reachable_step hreach hstep
    cases hrow : s.store.row? id with
    | none =>
        -- The row is new, and has no attempts.
        rcases (System.step_move hstep).submitted with ⟨-, hnone⟩ | ⟨request, work, -, -, hrows⟩
        · rw [hnone id hrow] at hrow'
          cases hrow'
        · rw [hrows, hrow] at hrow'
          split_ifs at hrow' with hid
          cases hrow'
          have haccount := reachable_account (hreach.step hstep) ((hrows id).trans (if_pos hid))
          have hlength := congrArg List.length haccount.numbers
          rw [List.length_map] at hlength
          have hnil : s'.store.attemptsOf id = [] := List.eq_nil_of_length_eq_zero hlength
          rw [hnil] at ha
          cases ha
    | some w₀ =>
        obtain ⟨w₁, hrow₁, hkept⟩ := hledger.kept hrow
        obtain rfl : w = w₁ := Option.some.inj (hrow'.symm.trans hrow₁)
        have hold : Eligible cfg.inventory (readWork w₀) a.engineId a.modelId := by
          rcases hledger.attempts hrow ha with ⟨old, hold, hengine, hmodel⟩ | hpicked
          · rw [hengine, hmodel]
            exact heligible id w₀ old hrow hold
          · exact picked_eligible hreach hpicked hrow
        exact hold.of_constants hkept.constants.symm

/-! ### The constraints of the frame -/

/-- An engine and a model satisfy the constraints of a `SUBMIT` frame. -/
structure Honours (request : Frame) (engine : EngineDescriptorFacts) (modelId : Bytes) : Prop where
  workType : ∃ workType ∈ engine.workTypes, metadataValue request "work_type" = .ok workType
  capabilities :
    ∀ c ∈ splitCsv (optionalMetadata request "required_capabilities"), c ∈ engine.capabilities
  allowed : splitCsv (optionalMetadata request "eligible_engine_ids") ≠ [] →
    engine.id ∈ splitCsv (optionalMetadata request "eligible_engine_ids")
  exactEngine : optionalMetadata request "exact_engine_id" ≠ [] →
    engine.id = optionalMetadata request "exact_engine_id"
  effort : ∃ effort ∈ engine.supportedEfforts, metadataValue request "effort" = .ok effort
  exactModel : optionalMetadata request "exact_model_id" ≠ [] →
    modelId = optionalMetadata request "exact_model_id" ∧ modelId ∈ engine.modelIds

/-- The fields of a `SUBMIT` frame that `submit` stores as texts. -/
def constraintKeys : List String :=
  ["work_type", "required_capabilities", "eligible_engine_ids", "exact_engine_id",
    "exact_model_id"]

theorem optionalMetadata_of_ok {request : Frame} {key : String} {value : Bytes}
    (h : metadataValue request key = .ok value) :
  optionalMetadata request key = value
  := by
  rw [metadataValue] at h
  split at h
  · cases h
  · next hfind =>
      cases h
      rw [optionalMetadata, hfind]
      rfl

/-- Constraints without a NUL octet are stored as they are. -/
theorem Suits.honours
    {request : Frame} {work : WorkRecord} {engine : EngineDescriptorFacts}
    (hsubmits : Submits cfg.dataDir request work)
    (hnul : ∀ key ∈ constraintKeys, 0 ∉ optionalMetadata request key)
    (h : Suits (readWork (WorkStore.submittedRow work)) engine) :
  Honours request engine
    (bindText (modelFor (readWork (WorkStore.submittedRow work)) engine)).toBytes
  := by
  have hstored : ∀ key ∈ constraintKeys, (bindText (optionalMetadata request key)).toBytes
      = optionalMetadata request key := fun key hkey => CString.toBytes_ofBytes (hnul key hkey)
  have htype : (readWork (WorkStore.submittedRow work)).workType = work.workType := by
    have := hstored "work_type" (by simp [constraintKeys])
    rw [optionalMetadata_of_ok hsubmits.workType] at this
    exact this
  have hcapabilities : (readWork (WorkStore.submittedRow work)).requiredCapabilities
      = optionalMetadata request "required_capabilities" := by
    rw [← hstored "required_capabilities" (by simp [constraintKeys]),
      ← hsubmits.requiredCapabilities]
    rfl
  have heligible : (readWork (WorkStore.submittedRow work)).eligibleEngineIds
      = optionalMetadata request "eligible_engine_ids" := by
    rw [← hstored "eligible_engine_ids" (by simp [constraintKeys]), ← hsubmits.eligibleEngineIds]
    rfl
  have hexactEngine : (readWork (WorkStore.submittedRow work)).exactEngineId
      = optionalMetadata request "exact_engine_id" := by
    rw [← hstored "exact_engine_id" (by simp [constraintKeys]), ← hsubmits.exactEngineId]
    rfl
  have hexactModel : (readWork (WorkStore.submittedRow work)).exactModelId
      = optionalMetadata request "exact_model_id" := by
    rw [← hstored "exact_model_id" (by simp [constraintKeys]), ← hsubmits.exactModelId]
    rfl
  obtain ⟨h₁, h₂, h₃, h₄, h₅, h₆⟩ := h
  rw [htype] at h₁
  rw [hcapabilities] at h₂
  rw [heligible] at h₃
  rw [hexactEngine] at h₄
  rw [hexactModel] at h₅
  refine ⟨⟨_, h₁, hsubmits.workType⟩, h₂, h₃, h₄, ⟨_, h₆, hsubmits.effort⟩, ?_⟩
  intro hexact
  have hmodel : modelFor (readWork (WorkStore.submittedRow work)) engine
      = optionalMetadata request "exact_model_id" := by
    rw [modelFor, hexactModel, if_pos hexact]
  rw [hmodel, hstored "exact_model_id" (by simp [constraintKeys])]
  exact ⟨rfl, h₅ hexact⟩

/-- An engine and a model satisfy the constraints of a request of the Java client. -/
structure Grants (r : Client.WorkRequest) (engine : EngineDescriptorFacts) (modelId : Bytes) :
    Prop where
  workType : r.workType.getBytes ∈ engine.workTypes
  capabilities : ∀ c ∈ r.requiredCapabilities, c.getBytes ∈ engine.capabilities
  allowed : r.eligibleEngineIds.Nonempty → ∃ c ∈ r.eligibleEngineIds, engine.id = c.getBytes
  exactEngine : ∀ c ∈ r.exactEngineId, engine.id = c.getBytes
  effort : effortText r.effort ∈ engine.supportedEfforts
  exactModel : ∀ c ∈ r.exactModelId, modelId = c.getBytes ∧ modelId ∈ engine.modelIds

/-- Who satisfies the constraints of the frame of a request satisfies those of the request. -/
theorem Honours.grants
    {r : Client.WorkRequest} {request : Frame} {engine : EngineDescriptorFacts} {modelId : Bytes}
    (h : Honours request engine modelId) (hasks : r.Asks request) :
  Grants r engine modelId
  := by
  constructor
  · obtain ⟨workType, hmem, hvalue⟩ := h.workType
    rw [hasks.workType] at hvalue
    obtain rfl := Except.ok.inj hvalue
    exact hmem
  · intro c hc
    apply h.capabilities
    rw [hasks.requiredCapabilities]
    exact List.mem_map_of_mem ((Finset.mem_sort _).mpr hc)
  · rintro ⟨c, hc⟩
    have hallowed := h.allowed
    rw [hasks.eligibleEngineIds] at hallowed
    have hmem : c.getBytes ∈ (r.eligibleEngineIds.sort (· ≤ ·)).map JavaString.getBytes :=
      List.mem_map_of_mem ((Finset.mem_sort _).mpr hc)
    obtain ⟨d, hd, hengine⟩ := List.mem_map.mp (hallowed (List.ne_nil_of_mem hmem))
    exact ⟨d, (Finset.mem_sort _).mp hd, hengine.symm⟩
  · intro c hc
    have hvalue : optionalMetadata request "exact_engine_id" = c.getBytes := by
      rw [hasks.exactEngineId, Option.mem_def.mp hc]
      rfl
    have hne := (Client.getBytes_of_validIdentifier (r.exactEngineId_valid c hc)).1
    rw [← hvalue] at hne ⊢
    exact h.exactEngine hne
  · obtain ⟨effort, hmem, hvalue⟩ := h.effort
    rw [hasks.effort] at hvalue
    obtain rfl := Except.ok.inj hvalue
    exact hmem
  · intro c hc
    have hvalue : optionalMetadata request "exact_model_id" = c.getBytes := by
      rw [hasks.exactModelId, Option.mem_def.mp hc]
      rfl
    have hne := (Client.getBytes_of_validIdentifier (r.exactModelId_valid c hc)).1
    rw [← hvalue] at hne ⊢
    exact h.exactModel hne

/-- In every reachable state, every attempt of a Work whose `SUBMIT` frame has no NUL octet in
its constraints names an engine of the inventory that satisfies the constraints of the frame,
and those of the request of the Java client when the frame is one of its frames. -/
theorem dispatch_eligible
    (hreach : (machine cfg).Reachable s) {id : CString} {request : Frame}
    (hsubmitted : (id, request) ∈ s.history.submitted)
    (hnul : ∀ key ∈ constraintKeys, 0 ∉ optionalMetadata request key) :
  ∀ a ∈ s.store.attemptsOf id, ∃ engine ∈ cfg.inventory, a.engineId.toBytes = engine.id
    ∧ Honours request engine a.modelId.toBytes
    ∧ ∀ (r : Client.WorkRequest) (correlation : Int64),
        Client.SameFrame (r.frame correlation) request → Grants r engine a.modelId.toBytes
  := by
  intro a ha
  obtain ⟨work, w, hsubmits, rfl, hrow, hconstants⟩ :=
    (reachable_filed hreach).filed id request hsubmitted
  have heligible := (reachable_eligible hreach hrow ha).of_constants hconstants
  obtain ⟨engine, hmem, hsuits, hengine, hmodel⟩ := heligible
  have honours : Honours request engine a.modelId.toBytes := by
    rw [hmodel]
    exact hsuits.honours hsubmits hnul
  refine ⟨engine, hmem, ?_, honours, ?_⟩
  · rw [hengine]
    exact CString.toBytes_ofBytes engine.id_nulFree
  · intro r correlation hframe
    exact honours.grants (Client.WorkRequest.asks_of_sameFrame hframe)

/-- A request for one engine and one model, as the client's caller makes it. -/
def Sample.exactWorkRequest : Client.WorkRequest where
  workType := .ofString "t"
  input := Bytes.ofString "in"
  effort := .standard
  urgency := .normal
  requiredCapabilities := ∅
  eligibleEngineIds := {.ofString "e"}
  exactEngineId := some (.ofString "e")
  exactModelId := some (.ofString "m")
  eligibleAtMs := none
  deadlineMs := none
  timeoutMs := none
  retry := ⟨2, 0, by decide, by decide⟩
  workType_nonblank := by decide +kernel
  input_le := by decide +kernel
  requiredCapabilities_valid := by decide +kernel
  eligibleEngineIds_valid := by decide +kernel
  exactEngineId_valid := by decide +kernel
  exactModelId_valid := by decide +kernel
  eligibleAtMs_nonneg := by rintro n ⟨⟩
  deadlineMs_nonneg := by rintro n ⟨⟩
  timeoutMs_nonneg := by rintro n ⟨⟩

/-- Its frame, as the kernel reads it. -/
def Sample.exactRequest : Frame :=
  Sample.frame .submit
    (Sample.fields ++ [("required_capabilities", ""), ("eligible_engine_ids", "e"),
      ("exact_engine_id", "e"), ("exact_model_id", "m")]) "in"

/-- A frame with the client's type, correlation id, entries and payload is the frame of the
client. -/
theorem Sample.sameFrame
    {r : Client.WorkRequest} {correlation : Int64} {request : Frame}
    (hentries : (r.frame correlation).metadata.entries.map Client.utf8Entry
      = request.metadata.entries)
    (hrest : (request.type.toNat : Int) = (r.frame correlation).type.toInt % 2 ^ 16
      ∧ request.correlationId = (r.frame correlation).correlationId.toUInt64
      ∧ request.payload = (r.frame correlation).payload) :
  Client.SameFrame (r.frame correlation) request
  := by
  obtain ⟨htype, hcorrelation, hpayload⟩ := hrest
  have hmetadata := Client.sameMetadata_ofEntries (r.frame correlation).metadata
  rw [hentries, SortedMap.ofEntries_entries] at hmetadata
  exact ⟨htype, hcorrelation, hmetadata, hpayload⟩

/-- The attempt of a Work for one engine and one model. -/
theorem dispatch_eligible_exact :
  ∃ s a, (machine Sample.config).Reachable s ∧ a ∈ s.store.attemptsOf (bindText Sample.workId)
    ∧ ∃ engine ∈ Sample.config.inventory, a.engineId.toBytes = engine.id
      ∧ Honours Sample.exactRequest engine a.modelId.toBytes
      ∧ Grants Sample.exactWorkRequest engine a.modelId.toBytes
  := by
  obtain ⟨s, hreach, hs⟩ := Sample.reachable
    (Sample.submitting Sample.exactRequest ++ Sample.dispatching)
    (fun s => s.history.submitted.contains (bindText Sample.workId, Sample.exactRequest)
      && !(s.store.attemptsOf (bindText Sample.workId)).isEmpty) (by decide +kernel)
  simp only [Bool.and_eq_true, List.contains_iff_mem, Bool.not_eq_true', List.isEmpty_eq_false_iff]
    at hs
  obtain ⟨a, ha⟩ := List.exists_mem_of_ne_nil _ hs.2
  obtain ⟨engine, hmem, hengine, honours, hgrants⟩ :=
    dispatch_eligible hreach hs.1 (by decide +kernel) a ha
  have hframe : Client.SameFrame (Sample.exactWorkRequest.frame 1) Sample.exactRequest :=
    Sample.sameFrame (by decide +kernel) (by decide +kernel)
  exact ⟨s, a, hreach, ha, engine, hmem, hengine, honours, hgrants _ 1 hframe⟩

/-- A request for an engine whose id begins with a NUL character. -/
def Sample.nulWorkRequest : Client.WorkRequest :=
  { Sample.exactWorkRequest with
    eligibleEngineIds := ∅
    exactEngineId := some (.ofString "\x00f")
    exactModelId := none
    eligibleEngineIds_valid := by decide +kernel
    exactEngineId_valid := by decide +kernel
    exactModelId_valid := by decide +kernel }

/-- Its frame, as the kernel reads it. -/
def Sample.nulRequest : Frame :=
  Sample.frame .submit
    (Sample.fields ++ [("required_capabilities", ""), ("eligible_engine_ids", ""),
      ("exact_engine_id", "\x00f")]) "in"

/-- A Work for one engine is dispatched to another, when the id of the engine begins with a NUL
character. -/
theorem dispatch_ineligible :
  Client.SameFrame (Sample.nulWorkRequest.frame 1) Sample.nulRequest
    ∧ ∃ s a, (machine Sample.config).Reachable s
      ∧ (bindText Sample.workId, Sample.nulRequest) ∈ s.history.submitted
      ∧ a ∈ s.store.attemptsOf (bindText Sample.workId)
      ∧ ¬(∃ engine ∈ Sample.config.inventory, a.engineId.toBytes = engine.id
        ∧ Honours Sample.nulRequest engine a.modelId.toBytes)
      ∧ ¬∃ engine ∈ Sample.config.inventory, a.engineId.toBytes = engine.id
        ∧ Grants Sample.nulWorkRequest engine a.modelId.toBytes
  := by
  have hframe : Client.SameFrame (Sample.nulWorkRequest.frame 1) Sample.nulRequest :=
    Sample.sameFrame (by decide +kernel) (by decide +kernel)
  obtain ⟨s, hreach, hs⟩ := Sample.reachable
    (Sample.submitting Sample.nulRequest ++ Sample.dispatching)
    (fun s => s.history.submitted.contains (bindText Sample.workId, Sample.nulRequest)
      && !(s.store.attemptsOf (bindText Sample.workId)).isEmpty) (by decide +kernel)
  simp only [Bool.and_eq_true, List.contains_iff_mem, Bool.not_eq_true', List.isEmpty_eq_false_iff]
    at hs
  obtain ⟨a, ha⟩ := List.exists_mem_of_ne_nil _ hs.2
  refine ⟨hframe, s, a, hreach, hs.1, ha, ?_, ?_⟩
  · rintro ⟨engine, hmem, -, honours⟩
    obtain rfl : engine = Sample.engine := List.mem_singleton.mp hmem
    have hexact := honours.exactEngine (by decide +kernel)
    revert hexact
    decide +kernel
  · rintro ⟨engine, hmem, -, hgrants⟩
    obtain rfl : engine = Sample.engine := List.mem_singleton.mp hmem
    have hexact := hgrants.exactEngine _ rfl
    revert hexact
    decide +kernel

end Kernel
