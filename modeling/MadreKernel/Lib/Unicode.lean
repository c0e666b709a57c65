import MadreKernel.Lib.Bytes
import MadreKernel.Lib.KeyValue

/-!
# Encodings of Unicode text

Well-formed Unicode text is a list of scalar values.  `Unicode.utf8` is its encoding as
octets and `Unicode.utf16` its encoding as 16-bit code units.  Both are injective, UTF-8
text is decoded to itself, and the octet of an ASCII character is in the encoding of no
other character.
-/

namespace Unicode

/-- The UTF-8 octets of a text. -/
def utf8 (s : List Char) : Bytes := s.flatMap String.utf8EncodeChar

/-- The text of a byte string that is well-formed UTF-8. -/
def decodeUtf8? (b : Bytes) : Option (List Char) := b.toByteArray.utf8Decode?.map Array.toList

@[simp]
theorem decodeUtf8?_utf8 (s : List Char) :
  decodeUtf8? (utf8 s) = some s
  := by
  have hencode : (utf8 s).toByteArray = s.utf8Encode := rfl
  rw [decodeUtf8?, hencode, List.utf8Decode?_utf8Encode]
  rfl

theorem utf8_injective :
  Function.Injective utf8
  := by
  intro s t h
  have hdecode := congrArg decodeUtf8? h
  simpa using hdecode

/-- The octets of the encoding of a character that is not ASCII are not ASCII. -/
theorem le_of_mem_utf8EncodeChar {c : Char} (hc : 128 ≤ c.toNat) {b : UInt8}
    (hb : b ∈ String.utf8EncodeChar c) :
  128 ≤ b.toNat
  := by
  have hval : 128 ≤ c.val.toNat := hc
  have hoctet : ∀ n, 128 ≤ n → n < 256 → b = UInt8.ofNat n → 128 ≤ b.toNat := by
    rintro n hle hlt rfl
    rw [UInt8.toNat_ofNat', Nat.mod_eq_of_lt hlt]
    exact hle
  simp only [String.utf8EncodeChar] at hb
  split_ifs at hb
  all_goals
    simp only [List.mem_cons, List.not_mem_nil, or_false] at hb
  · omega
  · rcases hb with hb | hb
    all_goals exact hoctet _ (by omega) (by omega) hb
  · rcases hb with hb | hb | hb
    all_goals exact hoctet _ (by omega) (by omega) hb
  · rcases hb with hb | hb | hb | hb
    all_goals exact hoctet _ (by omega) (by omega) hb

/-- The octets of a string literal are its UTF-8 octets. -/
theorem ofString_eq_utf8 (s : String) :
  Bytes.ofString s = utf8 s.toList
  := by
  rw [Bytes.ofString, ← String.utf8Encode_toList, List.utf8Encode, List.toList_data_toByteArray]
  rfl

theorem utf8EncodeChar_of_ascii {c : Char} (hc : c.toNat < 128) :
  String.utf8EncodeChar c = [UInt8.ofNat c.toNat]
  := by
  have hle : c.val.toNat ≤ 127 := Nat.le_of_lt_succ hc
  simp only [String.utf8EncodeChar]
  rw [if_pos hle]
  rfl

/-- The encoding of an ASCII text has one octet for each character. -/
theorem utf8_of_ascii {s : List Char} (h : ∀ c ∈ s, c.toNat < 128) :
  utf8 s = s.map fun c => UInt8.ofNat c.toNat
  := by
  induction s with
  | nil => rfl
  | cons c s ih =>
      have htail : ∀ d ∈ s, d.toNat < 128 := fun d hd => h d (List.mem_cons_of_mem _ hd)
      have hcons : utf8 (c :: s) = String.utf8EncodeChar c ++ utf8 s := rfl
      rw [hcons, utf8EncodeChar_of_ascii (h c List.mem_cons_self), ih htail]
      rfl

/-- An ASCII character is encoded by its octet, which is in the encoding of no other
character. -/
theorem marks_ascii {c : Char} (hc : c.toNat < 128) :
  KeyValue.Marks String.utf8EncodeChar c (UInt8.ofNat c.toNat)
  := by
  constructor
  · apply utf8EncodeChar_of_ascii hc
  · intro d hne hmem
    by_cases hd : d.toNat < 128
    · rw [utf8EncodeChar_of_ascii hd, List.mem_singleton] at hmem
      have hnat := congrArg UInt8.toNat hmem
      rw [UInt8.toNat_ofNat', UInt8.toNat_ofNat', Nat.mod_eq_of_lt (by omega),
        Nat.mod_eq_of_lt (by omega)] at hnat
      exact hne (Char.toNat_inj.mp hnat.symm)
    · have hle := le_of_mem_utf8EncodeChar (by omega) hmem
      rw [UInt8.toNat_ofNat', Nat.mod_eq_of_lt (by omega)] at hle
      omega

/-- The encoding of lists with a separator between them has its encoding between theirs. -/
theorem flatMap_intercalate {α β : Type} (f : α → List β) (sep : List α) (l : List (List α)) :
  (sep.intercalate l).flatMap f = (sep.flatMap f).intercalate (l.map (·.flatMap f))
  := by
  induction l with
  | nil => rfl
  | cons s l ih =>
      cases l with
      | nil => simp
      | cons t l =>
          rw [List.intercalate_cons_cons, List.map_cons, List.map_cons,
            List.intercalate_cons_cons, ← List.map_cons (l := l), ← ih, List.flatMap_append,
            List.flatMap_append]

/-- The encoding of texts with an ASCII separator between them has its octet between their
encodings. -/
theorem utf8_intercalate {c : Char} (hc : c.toNat < 128) (l : List (List Char)) :
  utf8 ([c].intercalate l) = [UInt8.ofNat c.toNat].intercalate (l.map utf8)
  := by
  have hmark : [c].flatMap String.utf8EncodeChar = [UInt8.ofNat c.toNat] := by
    rw [List.flatMap_singleton, (marks_ascii hc).enc_mark]
  rw [utf8, flatMap_intercalate, hmark]
  rfl

/-! ### Code units -/

/-- The 16-bit code units of a character: itself, or a pair of surrogates. -/
def codeUnits (c : Char) : List Nat :=
  if c.toNat < 0x10000 then [c.toNat]
  else [0xd800 + (c.toNat - 0x10000) / 0x400, 0xdc00 + (c.toNat - 0x10000) % 0x400]

/-- The code units of a text. -/
def utf16 (s : List Char) : List Nat := s.flatMap codeUnits

/-- The code units of the first character of a text determine it. -/
theorem codeUnits_append_inj {c d : Char} {l l' : List Nat}
    (h : codeUnits c ++ l = codeUnits d ++ l') :
  c = d ∧ l = l'
  := by
  have hvalid : ∀ e : Char, e.toNat < 0xd800 ∨ 0xdfff < e.toNat ∧ e.toNat < 0x110000 :=
    fun e => e.valid
  have hc := hvalid c
  have hd := hvalid d
  rw [← Char.toNat_inj]
  simp only [codeUnits] at h
  split_ifs at h with h₁ h₂ h₂
  all_goals
    simp only [List.cons_append, List.nil_append, List.cons.injEq] at h
  · exact h
  · omega
  · omega
  · exact ⟨by omega, h.2.2⟩

theorem utf16_injective :
  Function.Injective utf16
  := by
  intro s t h
  induction s generalizing t with
  | nil =>
      cases t with
      | nil => rfl
      | cons d t =>
          exfalso
          simp only [utf16, List.flatMap_nil, List.flatMap_cons, codeUnits] at h
          split_ifs at h <;> cases h
  | cons c s ih =>
      cases t with
      | nil =>
          exfalso
          simp only [utf16, List.flatMap_nil, List.flatMap_cons, codeUnits] at h
          split_ifs at h <;> cases h
      | cons d t =>
          have happend : codeUnits c ++ utf16 s = codeUnits d ++ utf16 t := h
          obtain ⟨rfl, hrest⟩ := codeUnits_append_inj happend
          rw [ih hrest]

end Unicode
