import Mathlib.Data.List.Lex
import Mathlib.Data.List.Induction
import Mathlib.Data.List.TakeWhile
import Mathlib.Tactic.Ring

/-!
# Byte strings

Byte strings are lists of octets, ordered lexicographically by the unsigned value of
the octets.  `CString` is the type of byte strings without a NUL octet, the strings a
NUL-terminated interface can carry; `CString.ofBytes` cuts a byte string at its first
NUL.  `BigEndian.ofNat` and `BigEndian.toNat` write a number on a given number of
octets, most significant first, and read it back.
-/

/-- A byte string. -/
abbrev Bytes := List UInt8

instance UInt8.linearOrder : LinearOrder UInt8 where
  le_refl _ := UInt8.le_refl _
  le_trans _ _ _ := UInt8.le_trans
  lt_iff_le_not_ge a b := by
    rw [UInt8.lt_iff_toNat_lt, UInt8.le_iff_toNat_le, UInt8.le_iff_toNat_le]
    omega
  le_antisymm _ _ := UInt8.le_antisymm
  le_total a b := UInt8.le_total a b
  toDecidableLE := inferInstance

/-- The octets of the UTF-8 encoding of a string. -/
def Bytes.ofString (s : String) : Bytes := s.toByteArray.data.toList

/-- A string is determined by its encoding. -/
theorem Bytes.ofString_injective : Function.Injective Bytes.ofString
  := by
  intro s t h
  apply String.toByteArray_inj.mp
  apply ByteArray.ext
  apply Array.toList_inj.mp
  exact h

/-! ### Strings without a NUL octet -/

/-- A byte string that holds no NUL octet. -/
def CString : Type := { s : Bytes // 0 ∉ s }

namespace CString

instance : DecidableEq CString := inferInstanceAs (DecidableEq { s : Bytes // 0 ∉ s })

/-- The octets of a string. -/
def toBytes (s : CString) : Bytes := s.val

/-- The part of a byte string before its first NUL octet. -/
def ofBytes (s : Bytes) : CString :=
  ⟨s.takeWhile (· != 0), by
    intro h
    have := List.mem_takeWhile_imp h
    simp at this⟩

/-- A string is determined by its octets. -/
theorem toBytes_injective : Function.Injective toBytes :=
  Subtype.val_injective

theorem zero_notMem_toBytes (s : CString) :
  0 ∉ s.toBytes
  := s.property

/-- A byte string without a NUL octet is not cut. -/
theorem toBytes_ofBytes {s : Bytes} (h : 0 ∉ s) :
  (ofBytes s).toBytes = s
  := by
  apply List.takeWhile_eq_self_iff.mpr
  intro b hb
  simp only [bne_iff_ne]
  rintro rfl
  apply h hb

@[simp]
theorem ofBytes_toBytes (s : CString) :
  ofBytes s.toBytes = s
  := by
  apply toBytes_injective
  apply toBytes_ofBytes s.property

end CString

/-! ### Numbers, most significant octet first -/

namespace BigEndian

/-- The last `width` base-256 digits of `n`, most significant first. -/
def ofNat : (width n : Nat) → Bytes
  | 0, _ => []
  | width + 1, n => ofNat width (n / 256) ++ [UInt8.ofNat n]

/-- The number whose base-256 digits are the given octets, most significant first. -/
def toNat (bytes : Bytes) : Nat :=
  bytes.foldl (fun acc b => acc * 256 + b.toNat) 0

@[simp]
theorem length_ofNat (width n : Nat) :
  (ofNat width n).length = width
  := by
  induction width generalizing n with
  | zero => rfl
  | succ width ih => simp [ofNat, ih]

theorem toNat_append_singleton (bytes : Bytes) (b : UInt8) :
  toNat (bytes ++ [b]) = toNat bytes * 256 + b.toNat
  := by
  simp [toNat]

theorem toNat_lt (bytes : Bytes) :
  toNat bytes < 256 ^ bytes.length
  := by
  induction bytes using List.reverseRecOn with
  | nil => decide
  | append_singleton bytes b ih =>
      have hb := b.toNat_lt
      rw [toNat_append_singleton, List.length_append, List.length_singleton, pow_succ]
      omega

/-- Reading back `width` octets of `n` gives `n` modulo `256 ^ width`. -/
theorem toNat_ofNat (width n : Nat) :
  toNat (ofNat width n) = n % 256 ^ width
  := by
  induction width generalizing n with
  | zero => simp [ofNat, toNat, Nat.mod_one]
  | succ width ih =>
      rw [ofNat, toNat_append_singleton, ih, UInt8.toNat_ofNat']
      have hsplit : n % 256 ^ (width + 1) = n % 256 + 256 * (n / 256 % 256 ^ width) := by
        rw [pow_succ', Nat.mod_mul]
      omega

theorem toNat_ofNat_of_lt {width n : Nat} (h : n < 256 ^ width) :
  toNat (ofNat width n) = n
  := by
  rw [toNat_ofNat, Nat.mod_eq_of_lt h]

/-- The octets of the number of some octets are these octets. -/
theorem ofNat_toNat (bytes : Bytes) :
  ofNat bytes.length (toNat bytes) = bytes
  := by
  induction bytes using List.reverseRecOn with
  | nil => rfl
  | append_singleton bytes b ih =>
      have hb := b.toNat_lt
      have hlast : UInt8.ofNat (toNat bytes * 256 + b.toNat) = b := by
        apply UInt8.toNat_inj.mp
        rw [UInt8.toNat_ofNat']
        omega
      have hinit : (toNat bytes * 256 + b.toNat) / 256 = toNat bytes := by omega
      rw [List.length_append, List.length_singleton, ofNat, toNat_append_singleton, hinit, ih,
        hlast]

end BigEndian
