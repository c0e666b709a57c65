import MadreKernel.Kernel.Requests
import MadreKernel.Lib.Decimal

/-!
# Numbers in texts

`std::stoi`, `std::stoll` and `std::stoull` read the number at the start of a text and leave the
rest of the text alone.  The exceptions have the name of the function as their text.
-/

namespace Kernel

/-- The number at the start of a text: whether it has a minus sign, and its magnitude. -/
def leadingNumber (text : Bytes) : Option (Bool × Nat) :=
  let magnitude (digits : Bytes) : Option Nat :=
    match digits.takeWhile fun b => 48 ≤ b && b ≤ 57 with
    | [] => none
    | b :: rest => some (Decimal.value (b :: rest))
  match text.dropWhile isSpace with
  | 45 :: digits => (magnitude digits).map fun n => (true, n)
  | 43 :: digits => (magnitude digits).map fun n => (false, n)
  | digits => (magnitude digits).map fun n => (false, n)

/-- The signed number at the start of a text. -/
def leadingInt (text : Bytes) : Option Int :=
  (leadingNumber text).map fun e => if e.1 then -(e.2 : Int) else e.2

def stoi (text : Bytes) : Except Bytes Int32 :=
  match leadingInt text with
  | none => .error (Bytes.ofString "stoi")
  | some n =>
      if -2 ^ 31 ≤ n ∧ n < 2 ^ 31 then .ok (Int32.ofInt n) else .error (Bytes.ofString "stoi")

/-- `std::stoll`, when the rest of the text does not matter. -/
def leadingI64 (text : Bytes) : Except Bytes Int64 :=
  match leadingInt text with
  | none => .error (Bytes.ofString "stoll")
  | some n =>
      if -2 ^ 63 ≤ n ∧ n < 2 ^ 63 then .ok (Int64.ofInt n) else .error (Bytes.ofString "stoll")

/-- `std::stoull`, which negates a number behind a minus sign. -/
def stoull (text : Bytes) : Except Bytes UInt64 :=
  match leadingNumber text with
  | none => .error (Bytes.ofString "stoull")
  | some (negative, n) =>
      if n < 2 ^ 64 then .ok (if negative then -UInt64.ofNat n else UInt64.ofNat n)
      else .error (Bytes.ofString "stoull")

/-! ### Texts of numbers -/

/-- The digits of a number at the start of a text are read as this number. -/
theorem leadingNumber_digits (n : Nat) :
  leadingNumber (Decimal.digits n) = some (false, n)
    ∧ leadingNumber (45 :: Decimal.digits n) = some (true, n)
  := by
  have hoctets : ∀ b ∈ Decimal.digits n, 48 ≤ b.toNat ∧ b.toNat ≤ 57 :=
    fun b hb => Decimal.isOctet_of_mem_digits hb
  have htake : (Decimal.digits n).takeWhile (fun b => 48 ≤ b && b ≤ 57) = Decimal.digits n := by
    rw [List.takeWhile_eq_self_iff]
    intro b hb
    have hb' := hoctets b hb
    simp only [Bool.and_eq_true, decide_eq_true_eq, UInt8.le_iff_toNat_le]
    exact hb'
  have hvalue := Decimal.value_digits n
  have hne : Decimal.digits n ≠ [] := by
    rw [Decimal.digits, ne_eq, List.map_eq_nil_iff]
    exact Nat.toDigits_ne_nil
  obtain ⟨b, rest, hdigits⟩ := List.exists_cons_of_ne_nil hne
  rw [hdigits] at htake hvalue ⊢
  have hb := hoctets b (by rw [hdigits]; exact List.mem_cons_self)
  have hspace : isSpace b = false := by
    rw [isSpace]
    simp only [Bool.or_eq_false_iff, decide_eq_false_iff_not, Bool.and_eq_false_iff,
      UInt8.le_iff_toNat_le, ← UInt8.toNat_inj]
    constructor
    · simp
      omega
    · right
      simp
      omega
  have hminus : b ≠ 45 := by
    rintro rfl
    simp at hb
  have hplus : b ≠ 43 := by
    rintro rfl
    simp at hb
  constructor
  · rw [leadingNumber, List.dropWhile_cons_of_neg (by simp [hspace])]
    split
    · rename_i heq
      cases heq
      exact absurd rfl hminus
    · rename_i heq
      cases heq
      exact absurd rfl hplus
    · simp only [htake, hvalue, Option.map_some]
  · have hspace' : isSpace 45 = false := by decide
    rw [leadingNumber, List.dropWhile_cons_of_neg (by simp [hspace'])]
    simp only [htake, hvalue, Option.map_some]

/-- The text of a number is read as this number. -/
theorem leadingInt_toString (n : Int) :
  leadingInt (Bytes.ofString (toString n)) = some n
  := by
  rw [leadingInt]
  by_cases hn : n < 0
  · rw [Decimal.ofString_toString_of_neg hn, (leadingNumber_digits _).2]
    have hmagnitude : -((-n).toNat : Int) = n := by omega
    simp only [Option.map_some, if_true, hmagnitude]
  · obtain ⟨m, rfl⟩ := Int.eq_ofNat_of_zero_le (by omega : 0 ≤ n)
    rw [Decimal.ofString_toString_natCast, (leadingNumber_digits m).1]
    rfl

theorem stoi_toString (n : Int32) :
  stoi (Bytes.ofString (toString n.toInt)) = .ok n
  := by
  have hle := n.le_toInt
  have hlt := n.toInt_lt
  rw [stoi, leadingInt_toString]
  simp only
  rw [if_pos ⟨hle, hlt⟩, Int32.ofInt_toInt]

theorem leadingI64_toString (n : Int64) :
  leadingI64 (Bytes.ofString (toString n.toInt)) = .ok n
  := by
  have hle := n.le_toInt
  have hlt := n.toInt_lt
  rw [leadingI64, leadingInt_toString]
  simp only
  rw [if_pos ⟨hle, hlt⟩, Int64.ofInt_toInt]

end Kernel
