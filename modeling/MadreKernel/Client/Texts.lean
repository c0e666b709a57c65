import Mathlib.Data.List.DropRight
import MadreKernel.Client.JavaString
import MadreKernel.Lib.Decimal

/-!
# Texts that the Java client reads

`Integer.parseInt`, `Long.parseLong`, `Boolean.parseBoolean` and `String.split`, as the client uses
them on the values of metadata fields.  What `std::to_string` writes, the first two read back when
the number fits; what texts without commas are joined to, `split` takes apart again.
-/

namespace Client

/-! ### Numbers -/

/-- The code points of the zeros among the decimal digits that are one `char`. -/
def digitZeros : List Nat :=
  [0x30, 0x660, 0x6f0, 0x7c0, 0x966, 0x9e6, 0xa66, 0xae6, 0xb66, 0xbe6, 0xc66, 0xce6, 0xd66, 0xde6,
    0xe50, 0xed0, 0xf20, 0x1040, 0x1090, 0x17e0, 0x1810, 0x1946, 0x19d0, 0x1a80, 0x1a90, 0x1b50,
    0x1bb0, 0x1c40, 0x1c50, 0xa620, 0xa8d0, 0xa900, 0xa9d0, 0xa9f0, 0xaa50, 0xabf0, 0xff10]

/-- `Character.digit(_, 10)`. -/
def digit (c : Char) : Option Nat :=
  digitZeros.findSome? fun first =>
    if first ≤ c.toNat ∧ c.toNat < first + 10 then some (c.toNat - first) else none

/-- The number that digits denote, when there are any and they are all digits. -/
def parseDigits (digits : List Char) : Option Nat :=
  if digits = [] then none
  else digits.foldl (fun n c => n.bind fun n => (digit c).map fun d => 10 * n + d) (some 0)

/-- The number that a sign and digits denote. -/
def parseSigned (s : JavaString) : Option Int :=
  match s.codePoints with
  | '-' :: digits => (parseDigits digits).map fun n : Nat => -(n : Int)
  | '+' :: digits => (parseDigits digits).map fun n : Nat => (n : Int)
  | digits => (parseDigits digits).map fun n : Nat => (n : Int)

/-- `Integer.parseInt`; it is `none` when it throws. -/
def parseInt (s : JavaString) : Option Int32 :=
  (parseSigned s).bind fun n =>
    if -2 ^ 31 ≤ n ∧ n < 2 ^ 31 then some (Int32.ofInt n) else none

/-- `Long.parseLong`; it is `none` when it throws. -/
def parseLong (s : JavaString) : Option Int64 :=
  (parseSigned s).bind fun n =>
    if -2 ^ 63 ≤ n ∧ n < 2 ^ 63 then some (Int64.ofInt n) else none

theorem digit_of_ascii {c : Char} (h : 48 ≤ c.toNat ∧ c.toNat ≤ 57) :
  digit c = some (c.toNat - 48)
  := by
  have hfirst : 48 ≤ c.toNat ∧ c.toNat < 48 + 10 := by omega
  rw [digit, digitZeros, List.findSome?_cons, if_pos hfirst]

theorem parseDigits_toDigits (n : Nat) :
  parseDigits (Nat.toDigits 10 n) = some n
  := by
  have hfold : ∀ (l : List Char) (m : Nat), (∀ c ∈ l, 48 ≤ c.toNat ∧ c.toNat ≤ 57) →
      l.foldl (fun n c => n.bind fun n => (digit c).map fun d => 10 * n + d) (some m)
        = some (Nat.ofDigitChars 10 l m) := by
    intro l
    induction l with
    | nil =>
        intro m _
        rfl
    | cons c l ih =>
        intro m hl
        have hc := hl c List.mem_cons_self
        rw [List.foldl_cons, Option.bind_some, digit_of_ascii hc, Option.map_some,
          ih _ (fun d hd => hl d (List.mem_cons_of_mem c hd)), Nat.ofDigitChars_cons]
        rfl
  rw [parseDigits, if_neg Nat.toDigits_ne_nil,
    hfold _ 0 fun c hc => Decimal.toNat_lt_of_mem_toDigits hc, Nat.ofDigitChars_ten_toDigits]

/-- The text of an integer is read as the integer. -/
theorem parseSigned_toString (n : Int) :
  parseSigned (.ofString (toString n)) = some n
  := by
  by_cases hn : n < 0
  · have hlist : (toString n).toList = '-' :: Nat.toDigits 10 (-n).toNat := by
      rw [Int.toString_eq_repr, Int.repr_eq_if, if_neg (by omega), String.toList_append,
        Nat.toList_repr]
      rfl
    simp only [parseSigned, JavaString.ofString, hlist, parseDigits_toDigits, Option.map_some]
    congr
    omega
  · have hlist : (toString n).toList = Nat.toDigits 10 n.toNat := by
      rw [Int.toString_eq_repr, Int.repr_eq_if, if_pos (by omega), Nat.toList_repr]
    have hparse := parseDigits_toDigits n.toNat
    have hdigits : ∀ c ∈ Nat.toDigits 10 n.toNat, 48 ≤ c.toNat ∧ c.toNat ≤ 57 :=
      fun c hc => Decimal.toNat_lt_of_mem_toDigits hc
    simp only [parseSigned, JavaString.ofString, hlist]
    split
    next digits hcons =>
      have hminus := hdigits '-'
      rw [hcons] at hminus
      exact absurd (hminus List.mem_cons_self) (by decide)
    next digits hcons =>
      have hplus := hdigits '+'
      rw [hcons] at hplus
      exact absurd (hplus List.mem_cons_self) (by decide)
    next =>
      rw [hparse, Option.map_some]
      congr
      omega

theorem parseInt_toString (n : Int32) :
  parseInt (.ofString (toString n.toInt)) = some n
  := by
  have hlt := n.toInt_lt
  have hge := n.le_toInt
  rw [parseInt, parseSigned_toString, Option.bind_some, if_pos ⟨by omega, by omega⟩,
    Int32.ofInt_toInt]

theorem parseLong_toString {n : Int} (h : -2 ^ 63 ≤ n ∧ n < 2 ^ 63) :
  parseLong (.ofString (toString n)) = some (Int64.ofInt n)
  := by
  rw [parseLong, parseSigned_toString, Option.bind_some, if_pos h]

/-! ### Truth values -/

/-- `Boolean.parseBoolean`. -/
def parseBoolean (s : JavaString) : Bool := s.codePoints.map Char.toLower = "true".toList

theorem parseBoolean_ofString (b : Bool) :
  parseBoolean (.ofString (if b then "true" else "false")) = b
  := by
  cases b with
  | false => decide
  | true => decide

/-! ### Lists -/

/-- `split(",")`: the parts between the commas, without the empty ones at the end. -/
def split (s : JavaString) : List JavaString :=
  if s.contains ',' then
    ((s.codePoints.splitOn ',').rdropWhile (· = [])).map JavaString.mk
  else [s]

theorem notMem_of_mem_splitOn {α : Type} [DecidableEq α] {a : α} {l part : List α}
    (h : part ∈ l.splitOn a) :
  a ∉ part
  := by
  induction l generalizing part with
  | nil =>
      rw [List.splitOn_nil, List.mem_singleton] at h
      rw [h]
      exact List.not_mem_nil
  | cons x l ih =>
      rw [List.splitOn_cons_eq_if_modifyHead] at h
      split_ifs at h with hx
      · rcases List.mem_cons.mp h with rfl | h
        · exact List.not_mem_nil
        · exact ih h
      · cases hl : l.splitOn a with
        | nil => exact absurd hl (List.splitOn_ne_nil a l)
        | cons y rest =>
            rw [hl, List.modifyHead_cons] at h
            rw [hl] at ih
            rcases List.mem_cons.mp h with rfl | h
            · intro hmem
              rcases List.mem_cons.mp hmem with rfl | hmem
              · simp at hx
              · exact ih List.mem_cons_self hmem
            · exact ih (List.mem_cons_of_mem y h)

/-- The parts hold no comma. -/
theorem comma_notMem_of_mem_split {s part : JavaString} (h : part ∈ split s) :
  ',' ∉ part.codePoints
  := by
  rw [split] at h
  split_ifs at h with hcomma
  · obtain ⟨codePoints, hmem, rfl⟩ := List.mem_map.mp h
    exact notMem_of_mem_splitOn ((List.rdropWhile_prefix _ _).mem hmem)
  · rw [List.mem_singleton] at h
    rw [h]
    simpa [JavaString.contains] using hcomma

/-- Texts without commas are taken apart again. -/
theorem split_intercalate {l : List JavaString} (hne : l ≠ [])
    (h : ∀ s ∈ l, s.codePoints ≠ [] ∧ ',' ∉ s.codePoints) :
  split ⟨[','].intercalate (l.map JavaString.codePoints)⟩ = l
  := by
  have hsplit : ([','].intercalate (l.map JavaString.codePoints)).splitOn ','
      = l.map JavaString.codePoints := by
    apply List.splitOn_intercalate
    · intro codePoints hmem
      obtain ⟨s, hs, rfl⟩ := List.mem_map.mp hmem
      exact (h s hs).2
    · simpa using hne
  have hback : (l.map JavaString.codePoints).map JavaString.mk = l := by
    rw [List.map_map]
    exact List.map_id l
  rw [split]
  split_ifs with hcomma
  · simp only [hsplit]
    rw [List.rdropWhile_eq_self_iff.mpr, hback]
    intro hl hempty
    obtain ⟨s, hs, heq⟩ := List.mem_map.mp (List.getLast_mem hl)
    rw [decide_eq_true_eq, ← heq] at hempty
    exact (h s hs).1 hempty
  · rw [JavaString.contains, List.contains_iff_mem] at hcomma
    rw [List.splitOn_eq_singleton hcomma] at hsplit
    rw [← hsplit, List.map_singleton] at hback
    exact hback

end Client
