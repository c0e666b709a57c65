import MadreKernel.Kernel.Engines
import MadreKernel.Lib.Segments

/-!
# The loop of `split_csv`

`split_csv` looks for the next comma from a position on, takes the part in between unless it is
empty, and goes on behind the comma.  It ends, and what it takes are the segments of the text
between commas, in order.  Texts that are not empty and hold no comma come back from the text that
joins them.
-/

namespace Kernel

open Segments

/-- `find` of a comma from a position on. -/
def findComma (csv : Bytes) (pos : Nat) : Option Nat :=
  ((csv.drop pos).findIdx? (· = comma)).map fun i : Nat => pos + i

/-- The values after a part of the text, which is taken unless it is empty. -/
def appendPart (csv : Bytes) (pos last : Nat) (values : List Bytes) : List Bytes :=
  if last > pos then values ++ [(csv.drop pos).take (last - pos)] else values

theorem findComma_bounds {csv : Bytes} {pos c : Nat} (h : findComma csv pos = some c) :
  pos ≤ c ∧ c < csv.length
  := by
  obtain ⟨i, hi, rfl⟩ := Option.map_eq_some_iff.mp h
  have hlt := (List.findIdx?_eq_some_iff_getElem.mp hi).1
  rw [List.length_drop] at hlt
  omega

/-- The loop of `split_csv`. -/
def splitCsvLoop (csv : Bytes) (pos : Nat) (values : List Bytes) : List Bytes :=
  if pos ≤ csv.length then
    match h : findComma csv pos with
    | none => appendPart csv pos csv.length values
    | some c => splitCsvLoop csv (c + 1) (appendPart csv pos c values)
  else values
termination_by csv.length + 1 - pos
decreasing_by
  have hbounds := findComma_bounds h
  omega

/-- The loop of `join_csv`, which puts a comma before every value but the first. -/
def joinCsvLoop (i : Nat) (out : Bytes) : List Bytes → Bytes
  | [] => out
  | value :: values => joinCsvLoop (i + 1) ((if i ≠ 0 then out ++ [comma] else out) ++ value) values

/-! ### The first comma -/

theorem findComma_append {x : Bytes} (hx : comma ∉ x) (before rest : Bytes) :
  findComma (before ++ (x ++ comma :: rest)) before.length = some (before.length + x.length)
  := by
  have hnone : x.findIdx? (· = comma) = none := by
    rw [List.findIdx?_eq_none_iff]
    intro b hb
    simpa using ne_of_mem_of_not_mem hb hx
  rw [findComma, List.drop_left, List.findIdx?_append, hnone, List.findIdx?_cons]
  simp

theorem findComma_of_notMem {x : Bytes} (hx : comma ∉ x) (before : Bytes) :
  findComma (before ++ x) before.length = none
  := by
  rw [findComma, List.drop_left, Option.map_eq_none_iff, List.findIdx?_eq_none_iff]
  intro b hb
  simpa using ne_of_mem_of_not_mem hb hx

theorem appendPart_append (before x rest : Bytes) (values : List Bytes) :
  appendPart (before ++ (x ++ rest)) before.length (before.length + x.length) values
    = values ++ if x = [] then [] else [x]
  := by
  rw [appendPart, List.drop_left, Nat.add_sub_cancel_left, List.take_left]
  rcases x with - | ⟨b, x⟩
  · simp
  · simp

theorem splitCsv_of_notMem {x : Bytes} (hx : comma ∉ x) :
  splitCsv x = if x = [] then [] else [x]
  := by
  rw [splitCsv, ← List.append_nil x, splitCsvFrom_append hx, splitCsvFrom, List.nil_append,
    List.append_nil]

theorem splitCsv_append {x : Bytes} (hx : comma ∉ x) (rest : Bytes) :
  splitCsv (x ++ comma :: rest) = if x = [] then splitCsv rest else x :: splitCsv rest
  := by
  rw [splitCsv, splitCsvFrom_append hx, splitCsvFrom, if_pos rfl, List.nil_append]
  rfl

/-- The loop takes what `splitCsv` takes of the rest of the text. -/
theorem splitCsvLoop_eq (before s : Bytes) (values : List Bytes) :
  splitCsvLoop (before ++ s) before.length values = values ++ splitCsv s
  := by
  induction s using sepInduction comma generalizing before values with
  | last x hx =>
      have hend : (before ++ x).length = before.length + x.length := List.length_append
      have happend := appendPart_append before x [] values
      rw [List.append_nil] at happend
      rw [splitCsvLoop, if_pos (by omega)]
      split
      case h_2 c hc =>
        rw [findComma_of_notMem hx] at hc
        contradiction
      rw [hend, happend, splitCsv_of_notMem hx]
  | step x rest hx ih =>
      have hbehind : before ++ (x ++ comma :: rest) = before ++ x ++ [comma] ++ rest := by simp
      have hlength : before.length + x.length + 1 = (before ++ x ++ [comma]).length := by
        simp [Nat.add_assoc]
      rw [splitCsvLoop, if_pos (by rw [List.length_append]; omega)]
      split
      case h_1 hc =>
        rw [findComma_append hx] at hc
        contradiction
      case h_2 c hc =>
        rw [findComma_append hx, Option.some.injEq] at hc
        rw [← hc, appendPart_append, hbehind, hlength, ih, splitCsv_append hx]
        split_ifs
        · rw [List.append_nil]
        · rw [List.append_assoc, List.singleton_append]

/-- `split_csv`. -/
theorem splitCsvLoop_start (s : Bytes) :
  splitCsvLoop s 0 [] = splitCsv s
  := splitCsvLoop_eq [] s []

/-- `split_csv` takes the segments of a text between commas, in order. -/
theorem segmented_splitCsv (s : Bytes) :
  Segmented comma s (splitCsv s)
  := by
  induction s using sepInduction comma with
  | last x hx =>
      rw [splitCsv_of_notMem hx]
      exact segmented_of_notMem hx
  | step x rest hx ih =>
      rw [splitCsv_append hx]
      exact segmented_append hx ih

theorem joinCsvLoop_succ (i : Nat) (out value : Bytes) (values : List Bytes) :
  joinCsvLoop (i + 1) (out ++ value) values = out ++ joinCsv (value :: values)
  := by
  induction values generalizing i out value with
  | nil => rw [joinCsvLoop, joinCsv, List.intercalate_singleton]
  | cons next values ih =>
      rw [joinCsvLoop, if_pos (Nat.succ_ne_zero i), ih, joinCsv, joinCsv,
        List.intercalate_cons_cons]
      simp

/-- `join_csv` puts a comma between the values. -/
theorem joinCsvLoop_start (values : List Bytes) :
  joinCsvLoop 0 [] values = joinCsv values
  := by
  cases values with
  | nil => rfl
  | cons value values =>
      have hfirst := joinCsvLoop_succ 0 [] value values
      rw [List.nil_append, List.nil_append] at hfirst
      rw [joinCsvLoop, if_neg (not_not_intro rfl), List.nil_append, hfirst]

end Kernel
