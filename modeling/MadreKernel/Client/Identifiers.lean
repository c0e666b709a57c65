import Mathlib.Data.List.ReduceOption
import MadreKernel.Client.Submission
import MadreKernel.Kernel.Csv

/-!
# Sets of identifiers, of any code units

A Java string is a list of 16-bit code units.  It need not be well-formed text: `JavaChars` are such
strings, and `getBytes` replaces a surrogate without its partner by a question mark.  The strings
without such surrogates are the `JavaString`s, and they are determined by their octets.

The kernel splits the text of a set of identifiers into the octets of the identifiers, so that it
finds the set when the identifiers are well-formed text.
-/

/-- A Java string, which need not be well-formed Unicode text. -/
structure JavaChars where
  units : List UInt16

namespace JavaChars

/-! ### Code points -/

def isHighSurrogate (u : UInt16) : Bool := 0xd800 ≤ u.toNat && u.toNat ≤ 0xdbff

def isLowSurrogate (u : UInt16) : Bool := 0xdc00 ≤ u.toNat && u.toNat ≤ 0xdfff

/-- The character of a pair of surrogates. -/
def toCodePoint (high low : UInt16) : Char :=
  Char.ofNat (0x10000 + (high.toNat - 0xd800) * 0x400 + (low.toNat - 0xdc00))

/-- The character of a code unit, unless it is a surrogate. -/
def single (u : UInt16) : Option Char :=
  if isHighSurrogate u || isLowSurrogate u then none else some (Char.ofNat u.toNat)

/-- The characters of some code units, with `none` for a surrogate without its partner. -/
def decode : List UInt16 → List (Option Char)
  | [] => []
  | [u] => [single u]
  | u :: v :: rest =>
      if isHighSurrogate u && isLowSurrogate v then some (toCodePoint u v) :: decode rest
      else single u :: decode (v :: rest)

/-- The octets of a character in `getBytes(UTF_8)`: a question mark for an unpaired surrogate. -/
def encode : Option Char → Bytes
  | some c => String.utf8EncodeChar c
  | none => [63]

/-- `getBytes(UTF_8)`. -/
def getBytes (s : JavaChars) : Bytes := (decode s.units).flatMap encode

def isBlank (s : JavaChars) : Bool :=
  (decode s.units).all fun c => c.any JavaString.isWhitespace

/-- Whether `indexOf` finds a character, which is a single code unit. -/
def contains (s : JavaChars) (c : Char) : Bool := s.units.contains (UInt16.ofNat c.toNat)

theorem units_injective :
  Function.Injective fun s : JavaChars => s.units.map UInt16.toNat
  := by
  rintro ⟨s⟩ ⟨t⟩ h
  congr 1
  exact List.map_injective_iff.mpr (fun _ _ => UInt16.toNat_inj.mp) h

/-- The order of `compareTo`. -/
instance : LinearOrder JavaChars := LinearOrder.lift' _ units_injective

/-- No surrogate is without its partner. -/
def WellFormed (s : JavaChars) : Prop := none ∉ decode s.units

instance (s : JavaChars) : Decidable s.WellFormed := inferInstanceAs (Decidable (_ ∉ _))

/-! ### Well-formed strings -/

/-- A well-formed string as text. -/
def text (s : JavaChars) : JavaString := ⟨(decode s.units).reduceOption⟩

theorem toNat_ofNat {n : Nat} (h : n < 0xd800 ∨ 0xdfff < n ∧ n < 0x110000) :
  (Char.ofNat n).toNat = n
  := by
  rw [Char.ofNat, dif_pos h]
  rfl

theorem codeUnits_toCodePoint {u v : UInt16} (hu : isHighSurrogate u = true)
    (hv : isLowSurrogate v = true) :
  Unicode.codeUnits (toCodePoint u v) = [u.toNat, v.toNat]
  := by
  simp only [isHighSurrogate, isLowSurrogate, Bool.and_eq_true, decide_eq_true_eq] at hu hv
  rw [toCodePoint, Unicode.codeUnits, toNat_ofNat (by omega), if_neg (by omega)]
  have hhigh : 0xd800 + (0x10000 + (u.toNat - 0xd800) * 0x400 + (v.toNat - 0xdc00) - 0x10000)
      / 0x400 = u.toNat := by omega
  have hlow : 0xdc00 + (0x10000 + (u.toNat - 0xd800) * 0x400 + (v.toNat - 0xdc00) - 0x10000)
      % 0x400 = v.toNat := by omega
  rw [hhigh, hlow]

theorem codeUnits_of_single {u : UInt16} {c : Char} (h : single u = some c) :
  Unicode.codeUnits c = [u.toNat]
  := by
  have hlt := u.toNat_lt
  rw [single] at h
  split_ifs at h with hsurrogate
  simp only [isHighSurrogate, isLowSurrogate, Bool.or_eq_true, Bool.and_eq_true,
    decide_eq_true_eq] at hsurrogate
  cases h
  rw [Unicode.codeUnits, toNat_ofNat (by omega), if_pos (by omega)]

/-- The code units of a well-formed string are those of its text. -/
theorem utf16_reduceOption_decode (l : List UInt16) (h : none ∉ decode l) :
  Unicode.utf16 (decode l).reduceOption = l.map UInt16.toNat
  := by
  induction l using decode.induct with
  | case1 => rfl
  | case2 u =>
      rw [decode, List.mem_singleton] at h
      obtain ⟨c, hc⟩ := Option.ne_none_iff_exists'.mp (Ne.symm h)
      rw [decode, hc, List.reduceOption_singleton]
      simp [Unicode.utf16, codeUnits_of_single hc]
  | case3 u v rest hpair ih =>
      rw [decode, if_pos hpair, List.mem_cons, not_or] at h
      obtain ⟨hu, hv⟩ := Bool.and_eq_true_iff.mp hpair
      have hrest := ih h.2
      rw [Unicode.utf16] at hrest
      rw [decode, if_pos hpair, List.reduceOption_cons_of_some, Unicode.utf16, List.flatMap_cons,
        codeUnits_toCodePoint hu hv, hrest]
      rfl
  | case4 u v rest hpair ih =>
      rw [decode, if_neg hpair, List.mem_cons, not_or] at h
      obtain ⟨c, hc⟩ := Option.ne_none_iff_exists'.mp (Ne.symm h.1)
      have hrest := ih h.2
      rw [Unicode.utf16] at hrest
      rw [decode, if_neg hpair, hc, List.reduceOption_cons_of_some, Unicode.utf16,
        List.flatMap_cons, codeUnits_of_single hc, hrest]
      rfl

theorem flatMap_encode {l : List (Option Char)} (h : none ∉ l) :
  l.flatMap encode = Unicode.utf8 l.reduceOption
  := by
  induction l with
  | nil => rfl
  | cons c l ih =>
      rw [List.mem_cons, not_or] at h
      obtain ⟨d, rfl⟩ := Option.ne_none_iff_exists'.mp (Ne.symm h.1)
      rw [List.flatMap_cons, ih h.2, List.reduceOption_cons_of_some]
      rfl

theorem WellFormed.units_text {s : JavaChars} (h : s.WellFormed) :
  s.text.units = s.units.map UInt16.toNat
  := utf16_reduceOption_decode s.units h

theorem WellFormed.getBytes_text {s : JavaChars} (h : s.WellFormed) :
  s.text.getBytes = s.getBytes
  := (flatMap_encode h).symm

/-- Well-formed strings are determined by their octets. -/
theorem WellFormed.getBytes_inj {s t : JavaChars} (hs : s.WellFormed) (ht : t.WellFormed)
    (h : s.getBytes = t.getBytes) :
  s = t
  := by
  apply units_injective
  rw [← hs.getBytes_text, ← ht.getBytes_text] at h
  calc
    s.units.map UInt16.toNat
    _ = s.text.units := hs.units_text.symm
    _ = t.text.units := by rw [JavaString.getBytes_injective h]
    _ = t.units.map UInt16.toNat := ht.units_text

/-! ### Text as code units -/

/-- The code units of a text. -/
def ofText (s : JavaString) : JavaChars := ⟨s.units.map UInt16.ofNat⟩

theorem decode_cons {u : UInt16} (hu : isHighSurrogate u = false) (l : List UInt16) :
  decode (u :: l) = single u :: decode l
  := by
  cases l with
  | nil => rfl
  | cons v rest => rw [decode, hu, Bool.false_and, if_neg Bool.false_ne_true]

/-! ### Octets -/

/-- The octets of strings with a comma between them have a comma between their octets. -/
theorem decode_append_comma (l rest : List UInt16) :
  decode (l ++ 44 :: rest) = decode l ++ some ',' :: decode rest
  := by
  induction l using decode.induct with
  | case1 => apply decode_cons rfl
  | case2 u =>
      have hlow : isLowSurrogate 44 = false := rfl
      have hcomma : decode (44 :: rest) = some ',' :: decode rest := decode_cons rfl rest
      rw [List.singleton_append, decode.eq_3, hlow, Bool.and_false, if_neg Bool.false_ne_true,
        hcomma, decode.eq_2]
      rfl
  | case3 u v l hpair ih =>
      rw [List.cons_append, List.cons_append, decode, if_pos hpair, ih, decode, if_pos hpair]
      rfl
  | case4 u v l hpair ih =>
      rw [List.cons_append, List.cons_append, decode, if_neg hpair, ← List.cons_append, ih, decode,
        if_neg hpair]
      rfl

theorem getBytes_append_comma (s t : JavaChars) :
  (mk (s.units ++ 44 :: t.units)).getBytes = s.getBytes ++ Kernel.comma :: t.getBytes
  := by
  rw [getBytes, decode_append_comma, List.flatMap_append, List.flatMap_cons]
  rfl

/-- The code units of a decoded character stand in the string. -/
theorem codeUnits_subset {l : List UInt16} {c : Char} (h : some c ∈ decode l) :
  Unicode.codeUnits c ⊆ l.map UInt16.toNat
  := by
  induction l using decode.induct with
  | case1 => cases h
  | case2 u =>
      rw [decode, List.mem_singleton] at h
      rw [codeUnits_of_single h.symm]
      apply List.Subset.refl
  | case3 u v l hpair ih =>
      rw [decode, if_pos hpair, List.mem_cons] at h
      rcases h with h | h
      · obtain ⟨hu, hv⟩ := Bool.and_eq_true_iff.mp hpair
        rw [Option.some.inj h, codeUnits_toCodePoint hu hv, List.map_cons, List.map_cons]
        simp
      · apply List.subset_cons_of_subset
        apply List.subset_cons_of_subset
        exact ih h
  | case4 u v l hpair ih =>
      rw [decode, if_neg hpair, List.mem_cons] at h
      rcases h with h | h
      · rw [codeUnits_of_single h.symm, List.map_cons]
        simp
      · apply List.subset_cons_of_subset
        exact ih h

theorem marks_comma :
  KeyValue.Marks encode (some ',') Kernel.comma
  := by
  have hmark := Unicode.marks_ascii (c := ',') (by decide)
  constructor
  · apply hmark.enc_mark
  · intro x hne
    cases x with
    | none => decide
    | some c => exact hmark.notMem_enc c fun heq => hne (congrArg some heq)

/-- A comma stands in the octets only where it stands in the string. -/
theorem comma_notMem_getBytes {s : JavaChars} (h : s.contains ',' = false) :
  Kernel.comma ∉ s.getBytes
  := by
  apply marks_comma.notMem_flatMap
  intro hmem
  have hunit : 44 ∈ s.units.map UInt16.toNat := codeUnits_subset hmem List.mem_cons_self
  obtain ⟨u, hu, hnat⟩ := List.mem_map.mp hunit
  have h44 : u = 44 := UInt16.toNat_inj.mp hnat
  rw [contains, List.contains_eq_mem, decide_eq_false_iff_not] at h
  rw [h44] at hu
  exact h hu

theorem getBytes_ne_nil {s : JavaChars} (h : s.isBlank = false) :
  s.getBytes ≠ []
  := by
  intro hnil
  have hempty : decode s.units = [] := by
    rw [List.eq_nil_iff_forall_not_mem]
    intro c hc
    have hencode := List.flatMap_eq_nil_iff.mp hnil c hc
    cases c with
    | none => cases hencode
    | some c => exact absurd hencode String.utf8EncodeChar_ne_nil
  rw [isBlank, hempty] at h
  cases h

/-! ### Sets -/

/-- Whether `validateIdentifier` accepts a string. -/
def validIdentifier (value : JavaChars) : Bool :=
  !(value.isBlank || value.contains ',' || value.contains '\n' || value.contains '\r')

/-- `LocalKernelClient.csv`. -/
def csv (values : Finset JavaChars) : JavaChars :=
  ⟨[44].intercalate ((values.sort (· ≤ ·)).map units)⟩

theorem getBytes_of_validIdentifier {value : JavaChars} (h : validIdentifier value = true) :
  value.getBytes ≠ [] ∧ Kernel.comma ∉ value.getBytes
  := by
  simp only [validIdentifier, Bool.not_eq_true', Bool.or_eq_false_iff] at h
  obtain ⟨⟨⟨hblank, hcomma⟩, -⟩, -⟩ := h
  exact ⟨getBytes_ne_nil hblank, comma_notMem_getBytes hcomma⟩

/-- The octets of strings with a comma between them have a comma between their octets. -/
theorem getBytes_intercalate (l : List JavaChars) :
  (mk ([44].intercalate (l.map units))).getBytes = [Kernel.comma].intercalate (l.map getBytes)
  := by
  induction l with
  | nil => rfl
  | cons s l ih =>
      cases l with
      | nil => simp
      | cons t l =>
          rw [List.map_cons, List.map_cons, List.intercalate_cons_cons, List.map_cons,
            List.map_cons, List.intercalate_cons_cons, ← List.map_cons, ← List.map_cons, ← ih,
            List.append_assoc, List.singleton_append, getBytes_append_comma s, List.append_assoc]
          rfl

/-- The kernel splits the text of a set into the octets of its identifiers. -/
theorem splitCsv_csv {values : Finset JavaChars} (h : ∀ c ∈ values, validIdentifier c = true) :
  Kernel.splitCsv (csv values).getBytes = (values.sort (· ≤ ·)).map getBytes
  := by
  rw [csv, getBytes_intercalate]
  apply Kernel.splitCsv_intercalate
  intro x hx
  obtain ⟨c, hc, rfl⟩ := List.mem_map.mp hx
  exact getBytes_of_validIdentifier (h c ((Finset.mem_sort _).mp hc))

/-- The kernel finds a set of well-formed identifiers, without duplicates. -/
theorem splitCsv_csv_exact {values : Finset JavaChars}
    (hvalid : ∀ c ∈ values, validIdentifier c = true) (hformed : ∀ c ∈ values, c.WellFormed) :
  (Kernel.splitCsv (csv values).getBytes).Nodup
    ∧ (∀ x ∈ Kernel.splitCsv (csv values).getBytes, ∃ c ∈ values, c.getBytes = x)
    ∧ ∀ c, c.WellFormed → (c.getBytes ∈ Kernel.splitCsv (csv values).getBytes ↔ c ∈ values)
  := by
  rw [splitCsv_csv hvalid]
  constructor
  · apply List.Nodup.map_on
    · intro c hc d hd heq
      rw [Finset.mem_sort] at hc hd
      exact (hformed c hc).getBytes_inj (hformed d hd) heq
    · apply Finset.sort_nodup
  constructor
  · intro x hx
    obtain ⟨c, hc, heq⟩ := List.mem_map.mp hx
    use c, (Finset.mem_sort _).mp hc
  · intro c hc
    constructor
    · intro hmem
      obtain ⟨d, hd, heq⟩ := List.mem_map.mp hmem
      rw [Finset.mem_sort] at hd
      rw [← (hformed d hd).getBytes_inj hc heq]
      exact hd
    · intro hmem
      exact List.mem_map_of_mem ((Finset.mem_sort _).mpr hmem)

end JavaChars

namespace Client

open Kernel JavaChars Segments

/-- `split_csv` takes the segments of every text between commas, it takes apart what `join_csv`
joins, and it finds every set of well-formed identifiers in the text that the client makes of it. -/
theorem split_csv_exact :
  (∀ s, Segmented comma s (splitCsvLoop s 0 []))
    ∧ (∀ values, (∀ x ∈ values, x ≠ [] ∧ comma ∉ x) →
      splitCsvLoop (joinCsvLoop 0 [] values) 0 [] = values)
    ∧ ∀ values : Finset JavaChars, (∀ c ∈ values, JavaChars.validIdentifier c = true) →
      (∀ c ∈ values, c.WellFormed) →
      (splitCsvLoop (JavaChars.csv values).getBytes 0 []).Nodup
        ∧ (∀ x ∈ splitCsvLoop (JavaChars.csv values).getBytes 0 [], ∃ c ∈ values, c.getBytes = x)
        ∧ ∀ c, c.WellFormed →
          (c.getBytes ∈ splitCsvLoop (JavaChars.csv values).getBytes 0 [] ↔ c ∈ values)
  := by
  constructor
  · intro s
    rw [splitCsvLoop_start]
    apply segmented_splitCsv
  constructor
  · intro values h
    rw [splitCsvLoop_start, joinCsvLoop_start, joinCsv]
    exact splitCsv_intercalate h
  · intro values hvalid hformed
    rw [splitCsvLoop_start]
    exact splitCsv_csv_exact hvalid hformed

theorem split_csv_exact_two :
  (splitCsvLoop (JavaChars.csv {ofText (.ofString "gpu"), ofText (.ofString "é")}).getBytes 0
    []).Nodup
  := by
  apply (split_csv_exact.2.2 _ _ _).1
  · decide
  · decide

/-- Two identifiers that are unpaired surrogates. -/
def unpairedIdentifiers : Finset JavaChars := {⟨[0xd800]⟩, ⟨[0xd801]⟩}

/-- Different identifiers that are not well-formed are accepted, and they have the same octets. -/
theorem split_csv_duplicates :
  (∀ c ∈ unpairedIdentifiers, JavaChars.validIdentifier c = true)
    ∧ ¬ (splitCsvLoop (JavaChars.csv unpairedIdentifiers).getBytes 0 []).Nodup
  := by
  have hvalid : ∀ c ∈ unpairedIdentifiers, JavaChars.validIdentifier c = true := by decide
  use hvalid
  rw [splitCsvLoop_start, JavaChars.splitCsv_csv hvalid]
  intro hnodup
  have hinj := List.inj_on_of_nodup_map hnodup
  have heq := hinj (x := ⟨[0xd800]⟩) (y := ⟨[0xd801]⟩)
    ((Finset.mem_sort _).mpr (by decide)) ((Finset.mem_sort _).mpr (by decide)) rfl
  cases heq

end Client
