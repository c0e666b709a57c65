import MadreKernel.Lib.Bytes
import MadreKernel.Lib.KeyValue
import MadreKernel.Lib.SortedMap

/-!
# Frame metadata

The metadata of a frame is a map of byte strings, written as one `key=value` line per
entry in the order of the keys.  `encodeMetadata` refuses an entry whose key is empty or
holds `=`, CR or LF, or whose value holds CR or LF; `decodeMetadata` skips empty lines,
cuts every other line at its first `=`, and keeps the first entry of a repeated key.  What
the one writes the other reads back.
-/

/-- The exceptions of the framed protocol: a `FramingError`, or any other
`std::runtime_error`. -/
inductive WireError where
  | framing (message : Bytes)
  | runtime (message : Bytes)
  deriving DecidableEq

/-- The metadata of a frame. -/
abbrev Metadata := SortedMap Bytes Bytes

namespace Wire

/-- The octet of `=`. -/
abbrev equalsSign : UInt8 := 61

/-- The octet of the line feed. -/
abbrev lineFeed : UInt8 := 10

/-- The octet of the carriage return. -/
abbrev carriageReturn : UInt8 := 13

/-- Whether `encode_metadata` refuses an entry. -/
def invalidEntry (key value : Bytes) : Bool :=
  key.isEmpty || key.any (· ∈ [equalsSign, carriageReturn, lineFeed])
    || value.any (· ∈ [carriageReturn, lineFeed])

/-- The loop of `encode_metadata` over the entries in the order of the keys. -/
def encodeEntries : List (Bytes × Bytes) → Except WireError Bytes :=
  KeyValue.renderIf id invalidEntry (.runtime (Bytes.ofString "invalid framed metadata"))
    equalsSign lineFeed

def encodeMetadata (metadata : Metadata) : Except WireError Bytes :=
  encodeEntries metadata.entries

def malformedMetadata : WireError := .framing (Bytes.ofString "malformed framed metadata")

/-- The loop of `decode_metadata`, at the part of the text that is still to be read. -/
def decodeEntries (out : Metadata) (encoded : Bytes) : Except WireError Metadata :=
  if encoded = [] then .ok out
  else
    let line := encoded.takeWhile (· ≠ lineFeed)
    let rest := encoded.drop (line.length + 1)
    if line = [] then decodeEntries out rest
    else
      match KeyValue.parseLine equalsSign line with
      | none => .error malformedMetadata
      | some (key, value) => decodeEntries (out.emplace key value) rest
termination_by encoded.length
decreasing_by
  all_goals
    simp only [List.length_drop]
    have := List.length_pos_iff.mpr ‹¬encoded = []›
    omega

def decodeMetadata (encoded : Bytes) : Except WireError Metadata :=
  decodeEntries ∅ encoded

/-! ### The text of the metadata -/

theorem invalidEntry_eq_false_iff (key value : Bytes) :
  invalidEntry key value = false
    ↔ KeyValue.Renderable equalsSign lineFeed (key, value)
      ∧ carriageReturn ∉ key ∧ carriageReturn ∉ value
  := by
  constructor
  · intro h
    simp only [invalidEntry, Bool.or_eq_false_iff, List.isEmpty_eq_false_iff, List.any_eq_false,
      List.mem_cons, List.not_mem_nil, or_false, decide_eq_true_eq, not_or] at h
    obtain ⟨⟨hne, hkey⟩, hvalue⟩ := h
    exact ⟨⟨hne, fun hm => (hkey _ hm).1 rfl, fun hm => (hkey _ hm).2.2 rfl,
      fun hm => (hvalue _ hm).2 rfl⟩, fun hm => (hkey _ hm).2.1 rfl, fun hm => (hvalue _ hm).1 rfl⟩
  · rintro ⟨⟨hne, heq, hlf, hlf'⟩, hcr, hcr'⟩
    simp only [invalidEntry, Bool.or_eq_false_iff, List.isEmpty_eq_false_iff, List.any_eq_false,
      List.mem_cons, List.not_mem_nil, or_false, decide_eq_true_eq, not_or]
    refine ⟨⟨hne, ?_⟩, ?_⟩
    · intro x hx
      exact ⟨fun h => heq (h ▸ hx), fun h => hcr (h ▸ hx), fun h => hlf (h ▸ hx)⟩
    · intro x hx
      exact ⟨fun h => hcr' (h ▸ hx), fun h => hlf' (h ▸ hx)⟩

/-- `encode_metadata` writes the rendered entries, when every entry is accepted. -/
theorem encodeEntries_eq_ok_iff (l : List (Bytes × Bytes)) (out : Bytes) :
  encodeEntries l = .ok out
    ↔ (∀ e ∈ l, invalidEntry e.1 e.2 = false) ∧ out = KeyValue.render equalsSign lineFeed l
  := by
  have h := KeyValue.renderIf_eq_ok_iff id invalidEntry
    (WireError.runtime (Bytes.ofString "invalid framed metadata")) equalsSign lineFeed l out
  rwa [Prod.map_id, List.map_id] at h

/-- `decode_metadata` emplaces the entries of the text, in order. -/
theorem decodeEntries_eq (out : Metadata) (encoded : Bytes) :
  decodeEntries out encoded
    = match KeyValue.parse equalsSign lineFeed encoded with
      | none => .error malformedMetadata
      | some l => .ok (l.foldl (fun m e => m.emplace e.1 e.2) out)
  := by
  induction out, encoded using decodeEntries.induct with
  | case1 out =>
      rw [decodeEntries]
      simp [KeyValue.parse, KeyValue.parseLines]
  | case2 out encoded hne line rest hline ih =>
      rw [decodeEntries, KeyValue.parse_eq_of_line]
      simp only [hne, if_false]
      rw [if_pos hline, if_pos hline]
      apply ih
  | case3 out encoded hne line hline hparse =>
      rw [decodeEntries, KeyValue.parse_eq_of_line]
      simp only [hne, if_false]
      rw [if_neg hline, if_neg hline]
      simp only [line] at hparse
      simp only [hparse, Option.bind_none]
  | case4 out encoded hne line rest hline key value hparse ih =>
      rw [decodeEntries, KeyValue.parse_eq_of_line]
      simp only [hne, if_false]
      rw [if_neg hline, if_neg hline]
      simp only [line, rest] at hparse ih
      simp only [hparse, Option.bind_some, ih]
      cases KeyValue.parse equalsSign lineFeed
        (encoded.drop ((encoded.takeWhile (· ≠ lineFeed)).length + 1)) with
      | none => rfl
      | some l => rfl

theorem decodeMetadata_eq (encoded : Bytes) :
  decodeMetadata encoded
    = match KeyValue.parse equalsSign lineFeed encoded with
      | none => .error malformedMetadata
      | some l => .ok (SortedMap.ofEntries l)
  := decodeEntries_eq ∅ encoded

/-- Metadata that are encoded are decoded to themselves. -/
theorem decodeMetadata_encodeMetadata {metadata : Metadata} {encoded : Bytes}
    (h : encodeMetadata metadata = .ok encoded) :
  decodeMetadata encoded = .ok metadata
  := by
  obtain ⟨hvalid, rfl⟩ := (encodeEntries_eq_ok_iff _ _).mp h
  have hparse : KeyValue.parse equalsSign lineFeed
      (KeyValue.render equalsSign lineFeed metadata.entries) = some metadata.entries := by
    apply KeyValue.parse_render
    · intro e he
      exact ((invalidEntry_eq_false_iff e.1 e.2).mp (hvalid e he)).1
    · decide
  rw [decodeMetadata_eq, hparse]
  simp only [SortedMap.ofEntries_entries]

end Wire
