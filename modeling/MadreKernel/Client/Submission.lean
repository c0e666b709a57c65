import Mathlib.Data.Finset.Sort
import MadreKernel.Client.Agreement
import MadreKernel.Kernel.Requests

/-!
# Submission by the Java client

A `WorkRequest` is what a caller asks for, as the constructor accepts it.  `submit` sends it as
the metadata of a `SUBMIT` frame: its sets as texts that are separated by commas, in the order of
`compareTo`, and its numbers as decimal texts.

The kernel finds the constraints of the request in the frame.  The identifiers of a set hold no
comma, so that they are what `split_csv` makes of its text.
-/

namespace Client

/-! ### Requests -/

/-- A policy that its constructor accepts. -/
structure RetryPolicy where
  maxAttempts : Int32
  retryDelayMs : Int64
  maxAttempts_pos : 1 ≤ maxAttempts
  retryDelayMs_nonneg : 0 ≤ retryDelayMs

/-- The constructor of `RetryPolicy`. -/
def RetryPolicy.construct (maxAttempts : Int32) (retryDelayMs : Int64) :
    Except Exception RetryPolicy :=
  if h₁ : 1 ≤ maxAttempts then
    if h₂ : 0 ≤ retryDelayMs then .ok ⟨maxAttempts, retryDelayMs, h₁, h₂⟩
    else .error (.illegalArgument "retryDelayMs must be >= 0")
  else .error (.illegalArgument "maxAttempts must be >= 1")

/-- Whether `validateIdentifier` accepts a string. -/
def validIdentifier (value : JavaString) : Bool :=
  !(value.isBlank || value.contains ',' || value.contains '\n' || value.contains '\r')

/-- The arguments of the constructor of `WorkRequest`. -/
structure WorkRequest.Arguments where
  workType : JavaString
  input : Bytes
  effort : Effort
  urgency : Urgency
  requiredCapabilities : Finset JavaString
  eligibleEngineIds : Finset JavaString
  exactEngineId : Option JavaString
  exactModelId : Option JavaString
  eligibleAtMs : Option Int64
  deadlineMs : Option Int64
  timeoutMs : Option Int64
  retry : RetryPolicy

/-- A request that the constructor accepts. -/
structure WorkRequest extends WorkRequest.Arguments where
  workType_nonblank : workType.isBlank = false
  input_le : input.length ≤ Protocol.MAX_C1_TEXT_GENERATION_OPAQUE_PAYLOAD_BYTES
  requiredCapabilities_valid : ∀ c ∈ requiredCapabilities, validIdentifier c = true
  eligibleEngineIds_valid : ∀ c ∈ eligibleEngineIds, validIdentifier c = true
  exactEngineId_valid : ∀ c ∈ exactEngineId, validIdentifier c = true
  exactModelId_valid : ∀ c ∈ exactModelId, validIdentifier c = true
  eligibleAtMs_nonneg : ∀ n ∈ eligibleAtMs, 0 ≤ n
  deadlineMs_nonneg : ∀ n ∈ deadlineMs, 0 ≤ n
  timeoutMs_nonneg : ∀ n ∈ timeoutMs, 0 ≤ n

/-- What `validateIdentifier` throws. -/
def invalidIdentifier (field : String) : Exception :=
  .illegalArgument (field ++ " entries must be nonblank comma-free identifiers")

/-- What `validateNonnegative` throws. -/
def negative (field : String) : Exception :=
  .illegalArgument (field ++ " must be >= 0 when supplied")

/-- A time that `validateNonnegative` accepts. -/
theorem nonneg_of_all {value : Option Int64} (h : value.all (0 ≤ ·) = true) :
  ∀ n ∈ value, 0 ≤ n
  := by
  intro n hn
  exact of_decide_eq_true ((Option.all_eq_true _ _).mp h n hn)

/-- The constructor of `WorkRequest`. -/
def WorkRequest.construct (a : WorkRequest.Arguments) : Except Exception WorkRequest :=
  if h₁ : a.workType.isBlank = false then
    if h₂ : a.input.length ≤ Protocol.MAX_C1_TEXT_GENERATION_OPAQUE_PAYLOAD_BYTES then
      if h₃ : ∀ c ∈ a.requiredCapabilities, validIdentifier c = true then
        if h₄ : ∀ c ∈ a.eligibleEngineIds, validIdentifier c = true then
          if h₅ : a.exactEngineId.all validIdentifier = true then
            if h₆ : a.exactModelId.all validIdentifier = true then
              if h₇ : a.eligibleAtMs.all (0 ≤ ·) = true then
                if h₈ : a.deadlineMs.all (0 ≤ ·) = true then
                  if h₉ : a.timeoutMs.all (0 ≤ ·) = true then
                    .ok ⟨a, h₁, h₂, h₃, h₄, (Option.all_eq_true _ _).mp h₅,
                      (Option.all_eq_true _ _).mp h₆, nonneg_of_all h₇, nonneg_of_all h₈,
                      nonneg_of_all h₉⟩
                  else .error (negative "timeoutMs")
                else .error (negative "deadlineMs")
              else .error (negative "eligibleAtMs")
            else .error (invalidIdentifier "exactModelId")
          else .error (invalidIdentifier "exactEngineId")
        else .error (invalidIdentifier "eligibleEngineIds")
      else .error (invalidIdentifier "requiredCapabilities")
    else .error (.illegalArgument
      "C1 text-generation/v1 input exceeds the 1 MiB bounded payload limit; streaming/spooling is deferred")
  else .error (.illegalArgument "workType must not be blank")

/-! ### The frame of a request -/

/-- `LocalKernelClient.csv`. -/
def csv (values : Finset JavaString) : JavaString :=
  ⟨[','].intercalate ((values.sort (· ≤ ·)).map JavaString.codePoints)⟩

/-- `name()` of an effort. -/
def effortName : Effort → String
  | .standard => "STANDARD"
  | .high => "HIGH"

/-- `name()` of an urgency. -/
def urgencyName : Urgency → String
  | .interactive => "INTERACTIVE"
  | .normal => "NORMAL"
  | .background => "BACKGROUND"

/-- `Long.toString` and `Integer.toString`. -/
def decimal (n : Int) : JavaString := .ofString (toString n)

/-- A field, when it is present. -/
def optionalField (key : String) (value : Option JavaString) : List (String × JavaString) :=
  (value.map fun v => (key, v)).toList

namespace WorkRequest

/-- The fields that `submit` puts in the metadata, in order. -/
def fields (r : WorkRequest) : List (String × JavaString) :=
  [("work_type", r.workType), ("effort", .ofString (effortName r.effort)),
    ("urgency", .ofString (urgencyName r.urgency)),
    ("required_capabilities", csv r.requiredCapabilities),
    ("eligible_engine_ids", csv r.eligibleEngineIds)]
  ++ optionalField "exact_engine_id" r.exactEngineId
  ++ optionalField "exact_model_id" r.exactModelId
  ++ optionalField "eligible_at_ms" (r.eligibleAtMs.map fun n => decimal n.toInt)
  ++ optionalField "deadline_ms" (r.deadlineMs.map fun n => decimal n.toInt)
  ++ optionalField "timeout_ms" (r.timeoutMs.map fun n => decimal n.toInt)
  ++ [("max_attempts", decimal r.retry.maxAttempts.toInt),
    ("retry_delay_ms", decimal r.retry.retryDelayMs.toInt)]

/-- The frame that `submit` sends. -/
def frame (r : WorkRequest) (correlation : Int64) : Protocol.Frame where
  type := 10
  correlationId := correlation
  metadata := SortedMap.ofAssigned (r.fields.map fun f => (.ofString f.1, f.2))
  payload := r.input
  payload_le := r.input_le

end WorkRequest

/-! ### The identifiers of a set -/

/-- An identifier is, in UTF-8, a text that is not empty and holds no comma. -/
theorem getBytes_of_validIdentifier {value : JavaString} (h : validIdentifier value = true) :
  value.getBytes ≠ [] ∧ Kernel.comma ∉ value.getBytes
  := by
  simp only [validIdentifier, Bool.not_eq_true', Bool.or_eq_false_iff, JavaString.contains,
    List.contains_eq_mem, decide_eq_false_iff_not] at h
  obtain ⟨⟨⟨hblank, hcomma⟩, -⟩, -⟩ := h
  refine ⟨?_, (Unicode.marks_ascii (by decide)).notMem_flatMap hcomma⟩
  intro hnil
  have hempty : value = ⟨[]⟩ := JavaString.getBytes_injective hnil
  rw [hempty] at hblank
  cases hblank

/-- The kernel splits the text of a set into its identifiers. -/
theorem splitCsv_csv {values : Finset JavaString} (h : ∀ c ∈ values, validIdentifier c = true) :
  Kernel.splitCsv (csv values).getBytes = (values.sort (· ≤ ·)).map JavaString.getBytes
  := by
  rw [csv, JavaString.getBytes, Unicode.utf8_intercalate (by decide), List.map_map]
  apply Kernel.splitCsv_intercalate
  intro x hx
  obtain ⟨c, hc, rfl⟩ := List.mem_map.mp hx
  exact getBytes_of_validIdentifier (h c ((Finset.mem_sort _).mp hc))

/-- The kernel finds the client's value of a field. -/
theorem SameMetadata.find?_eq
    {java : SortedMap JavaString JavaString} {kernel : Metadata} (h : SameMetadata java kernel)
    (key : String) :
  kernel.find? (Bytes.ofString key) = (java.find? (.ofString key)).map JavaString.getBytes
  := by
  rw [← JavaString.getBytes_ofString, h.find?_getBytes]

namespace WorkRequest

/-! ### The constraints of a request in its frame -/

/-- The keys of all fields. -/
def keys : List String :=
  ["work_type", "effort", "urgency", "required_capabilities", "eligible_engine_ids",
    "exact_engine_id", "exact_model_id", "eligible_at_ms", "deadline_ms", "timeout_ms",
    "max_attempts", "retry_delay_ms"]

theorem keys_optionalField (key : String) (value : Option JavaString) :
  ((optionalField key value).map Prod.fst).Sublist [key]
  := by
  cases value with
  | none => exact List.nil_sublist _
  | some v => exact List.Sublist.refl _

/-- The keys of the fields of a request differ. -/
theorem nodup_fields (r : WorkRequest) :
  (r.fields.map Prod.fst).Nodup
  := by
  have hkeys : (r.fields.map Prod.fst).Sublist keys := by
    simp only [fields, List.map_append]
    exact ((((((List.Sublist.refl _).append (keys_optionalField _ _)).append
      (keys_optionalField _ _)).append (keys_optionalField _ _)).append
      (keys_optionalField _ _)).append (keys_optionalField _ _)).append (List.Sublist.refl _)
  exact hkeys.nodup (by decide)

/-- A field of the frame is a field of the request. -/
theorem find?_frame (r : WorkRequest) (correlation : Int64) (key : String) (value : JavaString) :
  (r.frame correlation).metadata.find? (.ofString key) = some value ↔ (key, value) ∈ r.fields
  := by
  have hnodup : ((r.fields.map fun f => (JavaString.ofString f.1, f.2)).map Prod.fst).Nodup := by
    have hinjective : Function.Injective JavaString.ofString :=
      fun s t h => (JavaString.ofString_inj s t).mp h
    have hmap := r.nodup_fields.map hinjective
    rw [List.map_map] at hmap ⊢
    exact hmap
  rw [frame, SortedMap.find?_ofAssigned_eq_some_iff hnodup, List.mem_map]
  constructor
  · rintro ⟨⟨k, v⟩, hmem, heq⟩
    rw [Prod.mk.injEq, JavaString.ofString_inj] at heq
    obtain ⟨rfl, rfl⟩ := heq
    exact hmem
  · intro hmem
    exact ⟨(key, value), hmem, rfl⟩

/-- A field of the request, as the kernel finds it in the frame. -/
theorem find?_of_mem
    {r : WorkRequest} {correlation : Int64} {request : Frame}
    (h : SameFrame (r.frame correlation) request) {key : String} {value : JavaString}
    (hmem : (key, value) ∈ r.fields) :
  request.metadata.find? (Bytes.ofString key) = some value.getBytes
  := by
  rw [h.metadata.find?_eq, (r.find?_frame correlation key value).mpr hmem, Option.map_some]

/-- An optional field of the request, as the kernel finds it in the frame. -/
theorem find?_of_optional
    {r : WorkRequest} {correlation : Int64} {request : Frame}
    (h : SameFrame (r.frame correlation) request) {key : String} {value : Option JavaString}
    (hvalue : ∀ v, (key, v) ∈ r.fields ↔ v ∈ value) :
  Kernel.optionalMetadata request key = value.elim [] JavaString.getBytes
  := by
  have hfind : (r.frame correlation).metadata.find? (.ofString key) = value := by
    apply Option.ext
    intro v
    rw [r.find?_frame correlation key v, hvalue]
    rfl
  rw [Kernel.optionalMetadata, h.metadata.find?_eq, hfind]
  cases value <;> rfl

/-- A kernel's frame has the constraints of a request. -/
structure Asks (r : WorkRequest) (request : Frame) : Prop where
  workType : Kernel.metadataValue request "work_type" = .ok r.workType.getBytes
  effort : Kernel.metadataValue request "effort" = .ok (Kernel.effortText r.effort)
  requiredCapabilities :
    Kernel.splitCsv (Kernel.optionalMetadata request "required_capabilities")
      = (r.requiredCapabilities.sort (· ≤ ·)).map JavaString.getBytes
  eligibleEngineIds :
    Kernel.splitCsv (Kernel.optionalMetadata request "eligible_engine_ids")
      = (r.eligibleEngineIds.sort (· ≤ ·)).map JavaString.getBytes
  exactEngineId :
    Kernel.optionalMetadata request "exact_engine_id" = r.exactEngineId.elim [] JavaString.getBytes
  exactModelId :
    Kernel.optionalMetadata request "exact_model_id" = r.exactModelId.elim [] JavaString.getBytes

/-- The frame that the kernel reads has the constraints of the request. -/
theorem asks_of_sameFrame
    {r : WorkRequest} {correlation : Int64} {request : Frame}
    (h : SameFrame (r.frame correlation) request) :
  r.Asks request
  := by
  have heffort : (JavaString.ofString (effortName r.effort)).getBytes
      = Kernel.effortText r.effort := by
    rw [JavaString.getBytes_ofString]
    cases r.effort <;> rfl
  constructor
  · have hmem : ("work_type", r.workType) ∈ r.fields := by simp [fields]
    rw [Kernel.metadataValue, find?_of_mem h hmem]
  · have hmem : ("effort", .ofString (effortName r.effort)) ∈ r.fields := by simp [fields]
    rw [Kernel.metadataValue, find?_of_mem h hmem, heffort]
  · have hmem : ("required_capabilities", csv r.requiredCapabilities) ∈ r.fields := by
      simp [fields]
    rw [Kernel.optionalMetadata, find?_of_mem h hmem]
    exact splitCsv_csv r.requiredCapabilities_valid
  · have hmem : ("eligible_engine_ids", csv r.eligibleEngineIds) ∈ r.fields := by simp [fields]
    rw [Kernel.optionalMetadata, find?_of_mem h hmem]
    exact splitCsv_csv r.eligibleEngineIds_valid
  · apply find?_of_optional h
    intro v
    simp [fields, optionalField]
  · apply find?_of_optional h
    intro v
    simp [fields, optionalField]

end WorkRequest

end Client
