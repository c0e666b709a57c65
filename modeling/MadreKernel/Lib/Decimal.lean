import MadreKernel.Lib.Unicode

/-!
# Decimal texts

The octets of the decimal text of an integer: a minus sign when the integer is negative, and
its digits.  They are as many as the digits of its magnitude and the sign.
-/

namespace Decimal

/-- The octets of the digits and of the minus sign. -/
def IsOctet (b : UInt8) : Prop := b = 45 ∨ 48 ≤ b.toNat ∧ b.toNat ≤ 57

/-- The octets of the digits of a natural number. -/
def digits (n : Nat) : Bytes := (Nat.toDigits 10 n).map fun c => UInt8.ofNat c.toNat

theorem toNat_lt_of_mem_toDigits {n : Nat} {c : Char} (h : c ∈ Nat.toDigits 10 n) :
  48 ≤ c.toNat ∧ c.toNat ≤ 57
  := by
  have hdigit := Nat.isDigit_of_mem_toDigits (by decide) (by decide) h
  simp only [Char.isDigit, Bool.and_eq_true, decide_eq_true_eq] at hdigit
  exact hdigit

/-- The text of a natural number is its digits. -/
theorem ofString_toString_natCast (n : Nat) :
  Bytes.ofString (toString (n : Int)) = digits n
  := by
  have hlist : (toString (n : Int)).toList = Nat.toDigits 10 n := by
    rw [Int.toString_eq_repr, Int.repr_eq_if, if_pos (by omega), Int.toNat_natCast,
      Nat.toList_repr]
  rw [Unicode.ofString_eq_utf8, hlist, digits]
  apply Unicode.utf8_of_ascii
  intro c hc
  have hdigit := toNat_lt_of_mem_toDigits hc
  omega

/-- The text of a negative number is the minus sign and the digits of its magnitude. -/
theorem ofString_toString_of_neg {n : Int} (h : n < 0) :
  Bytes.ofString (toString n) = 45 :: digits (-n).toNat
  := by
  have hlist : (toString n).toList = '-' :: Nat.toDigits 10 (-n).toNat := by
    rw [Int.toString_eq_repr, Int.repr_eq_if, if_neg (by omega), String.toList_append,
      Nat.toList_repr]
    rfl
  rw [Unicode.ofString_eq_utf8, hlist, digits]
  apply Unicode.utf8_of_ascii
  intro c hc
  rcases List.mem_cons.mp hc with rfl | hc
  · decide
  · have hdigit := toNat_lt_of_mem_toDigits hc
    omega

theorem isOctet_of_mem_digits {n : Nat} {b : UInt8} (h : b ∈ digits n) :
  48 ≤ b.toNat ∧ b.toNat ≤ 57
  := by
  obtain ⟨c, hc, rfl⟩ := List.mem_map.mp h
  have hdigit := toNat_lt_of_mem_toDigits hc
  rw [UInt8.toNat_ofNat', Nat.mod_eq_of_lt (by omega)]
  exact hdigit

/-- The number that a text of digits denotes. -/
def value (text : Bytes) : Nat := text.foldl (fun n b => 10 * n + (b.toNat - 48)) 0

theorem value_digits (n : Nat) :
  value (digits n) = n
  := by
  have hfold : ∀ (l : List Char) (m : Nat), (∀ c ∈ l, c.toNat < 256) →
      (l.map fun c => UInt8.ofNat c.toNat).foldl (fun n b => 10 * n + (b.toNat - 48)) m
        = Nat.ofDigitChars 10 l m := by
    intro l
    induction l with
    | nil =>
        intro m _
        rfl
    | cons c l ih =>
        intro m hl
        have hc := hl c List.mem_cons_self
        rw [List.map_cons, List.foldl_cons, ih _ (fun d hd => hl d (List.mem_cons_of_mem c hd)),
          UInt8.toNat_ofNat', Nat.mod_eq_of_lt hc, Nat.ofDigitChars_cons]
        rfl
  rw [value, digits, hfold, Nat.ofDigitChars_ten_toDigits]
  intro c hc
  have := toNat_lt_of_mem_toDigits hc
  omega

theorem digits_injective :
  Function.Injective digits
  := Function.LeftInverse.injective value_digits

/-- The text of an integer holds digits and the minus sign only. -/
theorem isOctet_of_mem {n : Int} {b : UInt8} (h : b ∈ Bytes.ofString (toString n)) :
  IsOctet b
  := by
  by_cases hn : n < 0
  · rw [ofString_toString_of_neg hn] at h
    rcases List.mem_cons.mp h with rfl | h
    · exact Or.inl rfl
    · exact Or.inr (isOctet_of_mem_digits h)
  · obtain ⟨m, rfl⟩ := Int.eq_ofNat_of_zero_le (by omega : 0 ≤ n)
    rw [ofString_toString_natCast] at h
    exact Or.inr (isOctet_of_mem_digits h)

theorem length_digits_le {n k : Nat} (hk : 0 < k) (h : n < 10 ^ k) :
  (digits n).length ≤ k
  := by
  rw [digits, List.length_map]
  exact (Nat.length_toDigits_le_iff (by decide) hk).mpr h

/-- The text of an integer is as long as the digits of its magnitude and a sign. -/
theorem length_ofString_toString_le {n : Int} {k : Nat} (hk : 0 < k) (h : n.natAbs < 10 ^ k) :
  (Bytes.ofString (toString n)).length ≤ k + 1
  := by
  by_cases hn : n < 0
  · have hdigits := @length_digits_le (-n).toNat k hk (by omega)
    rw [ofString_toString_of_neg hn, List.length_cons]
    omega
  · obtain ⟨m, rfl⟩ := Int.eq_ofNat_of_zero_le (by omega : 0 ≤ n)
    have hdigits := @length_digits_le m k hk (by omega)
    rw [ofString_toString_natCast]
    omega

end Decimal
