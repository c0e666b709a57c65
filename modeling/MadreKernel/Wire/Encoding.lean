import MadreKernel.Wire.Frame

/-!
# What the encoder accepts

`encode_frame` accepts a frame when its keys and values are plain texts and the lines of its
metadata and its payload are within the limits.  The order of the entries does not matter.
-/

namespace Wire

/-- The values that `encode_metadata` accepts: they have neither CR nor LF. -/
def plainText (value : Bytes) : Bool := !value.any (· ∈ [carriageReturn, lineFeed])

/-- The keys that `encode_metadata` accepts. -/
def plainKey (key : Bytes) : Bool :=
  !(key.isEmpty || key.any (· ∈ [equalsSign, carriageReturn, lineFeed]))

/-- The length of the metadata text of some entries. -/
def textLength (l : List (Bytes × Bytes)) : Nat :=
  (l.map fun e => e.1.length + e.2.length + 2).sum

/-- `encode_frame` accepts a frame. -/
def encodable (frame : Frame) : Bool := (encodeFrame frame).isOk

theorem invalidEntry_eq_not (key value : Bytes) :
  invalidEntry key value = !(plainKey key && plainText value)
  := by
  rw [invalidEntry, plainKey, plainText, Bool.not_and, Bool.not_not, Bool.not_not]

theorem length_render (l : List (Bytes × Bytes)) :
  (KeyValue.render equalsSign lineFeed l).length = textLength l
  := by
  induction l with
  | nil => rfl
  | cons e l ih =>
      rw [KeyValue.render, List.flatMap_cons, List.length_append]
      rw [KeyValue.render] at ih
      rw [ih]
      simp only [textLength, List.map_cons, List.sum_cons, KeyValue.renderEntry,
        List.length_append, List.length_cons, List.length_nil]
      omega

theorem encodable_iff (frame : Frame) :
  encodable frame = true ↔ ∃ bytes, encodeFrame frame = .ok bytes
  := by
  rw [encodable]
  cases encodeFrame frame with
  | ok bytes => simp [Except.isOk, Except.toBool]
  | error e => simp [Except.isOk, Except.toBool]

/-- The frames that are accepted, by the entries of their metadata in any order. -/
theorem encodable_iff_of_perm
    {frame : Frame} {l : List (Bytes × Bytes)} (h : frame.metadata.entries.Perm l) :
  encodable frame = true
    ↔ (∀ e ∈ l, plainKey e.1 = true ∧ plainText e.2 = true) ∧ textLength l ≤ kMaxMetadata
      ∧ frame.payload.length ≤ kMaxC1TextGenerationOpaquePayloadBytes
  := by
  have hlength : textLength frame.metadata.entries = textLength l := (h.map _).sum_nat
  have hvalid : (∀ e ∈ frame.metadata.entries, invalidEntry e.1 e.2 = false)
      ↔ ∀ e ∈ l, plainKey e.1 = true ∧ plainText e.2 = true := by
    constructor
    · intro hall e he
      have := hall e (h.mem_iff.mpr he)
      rw [invalidEntry_eq_not, Bool.not_eq_false', Bool.and_eq_true] at this
      exact this
    · intro hall e he
      rw [invalidEntry_eq_not, Bool.not_eq_false', Bool.and_eq_true]
      exact hall e (h.mem_iff.mp he)
  rw [encodable_iff]
  constructor
  · rintro ⟨bytes, hbytes⟩
    obtain ⟨metadata, hmetadata, hm, hp, -⟩ := (encodeFrame_eq_ok_iff frame bytes).mp hbytes
    obtain ⟨hall, rfl⟩ := (encodeEntries_eq_ok_iff _ _).mp hmetadata
    rw [length_render, hlength] at hm
    exact ⟨hvalid.mp hall, hm, hp⟩
  · rintro ⟨hall, hm, hp⟩
    have hmetadata := (encodeEntries_eq_ok_iff frame.metadata.entries _).mpr
      ⟨hvalid.mpr hall, rfl⟩
    rw [← hlength, ← length_render] at hm
    exact ⟨_, (encodeFrame_eq_ok_iff frame _).mpr ⟨_, hmetadata, hm, hp, rfl⟩⟩

/-- A decimal number is a plain text. -/
theorem plainText_decimal {value : Bytes} (h : ∀ b ∈ value, b = 45 ∨ 48 ≤ b.toNat ∧ b.toNat ≤ 57) :
  plainText value = true
  := by
  rw [plainText, Bool.not_eq_true', List.any_eq_false]
  intro b hb hmem
  simp only [List.mem_cons, List.not_mem_nil, or_false, decide_eq_true_eq] at hmem
  rcases hmem with rfl | rfl
  · have := h _ hb
    revert this
    decide
  · have := h _ hb
    revert this
    decide

end Wire
