import MadreKernel.Lib.SortedMap
import MadreKernel.Lib.Unicode

/-!
# Java strings

A `JavaString` is a Java string that is well-formed Unicode text, held as its code points.
Strings are ordered by `compareTo`, that is by their UTF-16 code units.  `getBytes` is the
UTF-8 encoding, and `ofUtf8` is the constructor `new String(_, UTF_8)`: what it makes of
octets that are not well-formed UTF-8 is a parameter.
-/

/-- A Java string that is well-formed Unicode text. -/
structure JavaString where
  codePoints : List Char

namespace JavaString

/-- The UTF-16 code units of a string. -/
def units (s : JavaString) : List Nat := Unicode.utf16 s.codePoints

theorem units_injective :
  Function.Injective units
  := by
  rintro ⟨s⟩ ⟨t⟩ h
  congr 1
  apply Unicode.utf16_injective h

/-- The order of `compareTo`. -/
instance : LinearOrder JavaString := LinearOrder.lift' units units_injective

/-- `getBytes(UTF_8)`. -/
def getBytes (s : JavaString) : Bytes := Unicode.utf8 s.codePoints

/-- A string literal. -/
def ofString (s : String) : JavaString := ⟨s.toList⟩

@[simp]
theorem ofString_inj (s t : String) :
  ofString s = ofString t ↔ s = t
  := by
  rw [ofString, ofString, mk.injEq]
  exact String.toList_inj

@[simp]
theorem getBytes_ofString (s : String) :
  (ofString s).getBytes = Bytes.ofString s
  := by
  rw [Unicode.ofString_eq_utf8]
  rfl

instance : Append JavaString where
  append s t := ⟨s.codePoints ++ t.codePoints⟩

@[simp]
theorem getBytes_append (s t : JavaString) :
  (s ++ t).getBytes = s.getBytes ++ t.getBytes
  := List.flatMap_append

/-- `new String(_, UTF_8)`, with what it makes of malformed octets. -/
def ofUtf8 (malformed : Bytes → JavaString) (b : Bytes) : JavaString :=
  match Unicode.decodeUtf8? b with
  | some s => ⟨s⟩
  | none => malformed b

/-- `Character.isWhitespace`. -/
def isWhitespace (c : Char) : Bool :=
  (0x09 ≤ c.toNat && c.toNat ≤ 0x0d) || (0x1c ≤ c.toNat && c.toNat ≤ 0x20) || c.toNat == 0x1680
    || (0x2000 ≤ c.toNat && c.toNat ≤ 0x200a && c.toNat != 0x2007)
    || c.toNat == 0x2028 || c.toNat == 0x2029 || c.toNat == 0x205f || c.toNat == 0x3000

def isBlank (s : JavaString) : Bool := s.codePoints.all isWhitespace

def contains (s : JavaString) (c : Char) : Bool := s.codePoints.contains c

@[simp]
theorem ofUtf8_getBytes (malformed : Bytes → JavaString) (s : JavaString) :
  ofUtf8 malformed s.getBytes = s
  := by
  simp [ofUtf8, getBytes]

theorem getBytes_injective :
  Function.Injective getBytes
  := by
  rintro ⟨s⟩ ⟨t⟩ h
  congr 1
  apply Unicode.utf8_injective h

end JavaString
