import Mathlib.Data.List.Basic
import Mathlib.Data.List.Forall2
import Mathlib.Tactic.Use

/-!
# Segments of a list between separators

A segment of a list is a non-empty part of it without separators that reaches from the start of the
list, or from a separator, to the end of the list, or to a separator.  `Segmented` says of some
lists that they are the segments of a list, in order; it is proved from the first separator on.
-/

namespace Segments

variable {α : Type} {sep : α}

/-- A maximal part of a list without separators, at a position. -/
structure SegmentAt (sep : α) (s : List α) (i : Nat) (x : List α) : Prop where
  ne_nil : x ≠ []
  sep_notMem : sep ∉ x
  found : ∃ before after, s = before ++ x ++ after ∧ before.length = i
    ∧ (before = [] ∨ ∃ b, before = b ++ [sep]) ∧ (after = [] ∨ ∃ a, after = sep :: a)

/-- Some lists are the segments of a list, in order. -/
def Segmented (sep : α) (s : List α) (xs : List (List α)) : Prop :=
  ∃ positions : List Nat, positions.Pairwise (· < ·)
    ∧ List.Forall₂ (SegmentAt sep s) positions xs
    ∧ ∀ i x, SegmentAt sep s i x → i ∈ positions

/-- A list is without separators, or it has a first one. -/
@[elab_as_elim]
theorem sepInduction {motive : List α → Prop} (sep : α)
    (last : ∀ x, sep ∉ x → motive x)
    (step : ∀ x rest, sep ∉ x → motive rest → motive (x ++ sep :: rest)) (s : List α) :
  motive s
  := by
  induction hlength : s.length using Nat.strongRecOn generalizing s with
  | ind n ih =>
      by_cases hmem : sep ∈ s
      · obtain ⟨x, rest, rfl, hx⟩ := List.eq_append_cons_of_mem hmem
        rw [List.length_append, List.length_cons] at hlength
        exact step x rest hx (ih rest.length (by omega) rest rfl)
      · exact last s hmem

/-- What stands before and after the first separator is determined. -/
theorem append_sep_inj {x y rest rest' : List α} (hx : sep ∉ x) (hy : sep ∉ y)
    (h : x ++ sep :: rest = y ++ sep :: rest') :
  x = y ∧ rest = rest'
  := by
  rcases List.append_eq_append_iff.mp h with ⟨l, rfl, htail⟩ | ⟨l, rfl, htail⟩
  all_goals
    cases l with
    | nil =>
        cases htail
        exact ⟨by rw [List.append_nil], rfl⟩
    | cons c l =>
        cases htail
        simp at hx hy

/-- The segment of a list without separators is the list. -/
theorem segmentAt_of_notMem {s : List α} (hs : sep ∉ s) (i : Nat) (x : List α) :
  SegmentAt sep s i x ↔ i = 0 ∧ x = s ∧ s ≠ []
  := by
  constructor
  · rintro ⟨hne, -, before, after, rfl, rfl, hbefore, hafter⟩
    rcases hbefore with rfl | ⟨b, rfl⟩
    · rcases hafter with rfl | ⟨a, rfl⟩
      · rw [List.nil_append, List.append_nil]
        exact ⟨rfl, rfl, hne⟩
      · exact absurd (by simp) hs
    · exact absurd (by simp) hs
  · rintro ⟨rfl, rfl, hne⟩
    exact ⟨hne, hs, [], [], by simp, rfl, Or.inl rfl, Or.inl rfl⟩

/-- A segment after the first separator. -/
theorem segmentAt_shift (x : List α) {rest : List α} {j : Nat} {y : List α}
    (h : SegmentAt sep rest j y) :
  SegmentAt sep (x ++ sep :: rest) (x.length + 1 + j) y
  := by
  obtain ⟨hne, hsep, before, after, rfl, rfl, hbefore, hafter⟩ := h
  refine ⟨hne, hsep, x ++ sep :: before, after, by simp, ?_, Or.inr ?_, hafter⟩
  · rw [List.length_append, List.length_cons]
    omega
  · rcases hbefore with rfl | ⟨b, rfl⟩
    · exact ⟨x, rfl⟩
    · exact ⟨x ++ sep :: b, by simp⟩

/-- The segments of a list with a first separator. -/
theorem segmentAt_append {x : List α} (hx : sep ∉ x) (rest : List α) (i : Nat) (y : List α) :
  SegmentAt sep (x ++ sep :: rest) i y
    ↔ (i = 0 ∧ y = x ∧ x ≠ []) ∨ ∃ j, i = x.length + 1 + j ∧ SegmentAt sep rest j y
  := by
  constructor
  · rintro ⟨hne, hsep, before, after, heq, rfl, hbefore, hafter⟩
    rcases hbefore with rfl | ⟨b, rfl⟩
    · left
      rcases hafter with rfl | ⟨a, rfl⟩
      · rw [List.nil_append, List.append_nil] at heq
        exact absurd (by rw [← heq]; simp) hsep
      · obtain ⟨rfl, -⟩ := append_sep_inj hx hsep heq
        exact ⟨rfl, rfl, hne⟩
    · right
      rw [List.append_assoc, List.append_assoc, List.singleton_append] at heq
      -- the separator before the segment is the first one, or it comes after it
      rcases List.append_eq_append_iff.mp heq with ⟨l, rfl, htail⟩ | ⟨l, rfl, htail⟩
      · cases l with
        | nil =>
            cases htail
            exact ⟨0, by simp, hne, hsep, [], after, rfl, rfl, Or.inl rfl, hafter⟩
        | cons c l =>
            cases htail
            refine ⟨l.length + 1, ?_, hne, hsep, l ++ [sep], after, by simp, by simp,
              Or.inr ⟨l, rfl⟩, hafter⟩
            simp only [List.length_append, List.length_cons, List.length_nil]
            omega
      · cases l with
        | nil =>
            cases htail
            exact ⟨0, by simp, hne, hsep, [], after, rfl, rfl, Or.inl rfl, hafter⟩
        | cons c l =>
            rw [(List.cons.inj htail).1] at hx
            simp at hx
  · rintro (⟨rfl, rfl, hne⟩ | ⟨j, rfl, h⟩)
    · exact ⟨hne, hx, [], sep :: rest, by simp, rfl, Or.inl rfl, Or.inr ⟨rest, rfl⟩⟩
    · exact segmentAt_shift x h

theorem segmented_of_notMem {s : List α} (hs : sep ∉ s) :
  Segmented sep s (if s = [] then [] else [s])
  := by
  have hat := segmentAt_of_notMem hs
  split_ifs with hempty
  · use [], List.Pairwise.nil, .nil
    intro i x h
    exact absurd hempty ((hat i x).mp h).2.2
  · use [0], List.pairwise_singleton _ _, .cons ((hat 0 s).mpr ⟨rfl, rfl, hempty⟩) .nil
    intro i x h
    exact List.mem_singleton.mpr ((hat i x).mp h).1

/-- The segments before and after a first separator. -/
theorem segmented_append {x rest : List α} {xs : List (List α)} (hx : sep ∉ x)
    (h : Segmented sep rest xs) :
  Segmented sep (x ++ sep :: rest) (if x = [] then xs else x :: xs)
  := by
  obtain ⟨positions, hsorted, hall, hexact⟩ := h
  have hat := segmentAt_append hx rest
  have hsorted' : (positions.map (x.length + 1 + ·)).Pairwise (· < ·) := by
    rw [List.pairwise_map]
    exact hsorted.imp fun hlt => Nat.add_lt_add_left hlt _
  have hall' : List.Forall₂ (SegmentAt sep (x ++ sep :: rest))
      (positions.map (x.length + 1 + ·)) xs := by
    rw [List.forall₂_map_left_iff]
    exact hall.imp fun _ _ h => segmentAt_shift x h
  have hmem : ∀ j y, SegmentAt sep rest j y →
      x.length + 1 + j ∈ positions.map (x.length + 1 + ·) := by
    intro j y h
    exact List.mem_map_of_mem (hexact j y h)
  split_ifs with hempty
  · use positions.map (x.length + 1 + ·), hsorted', hall'
    intro i y h
    rcases (hat i y).mp h with ⟨-, -, hne⟩ | ⟨j, rfl, hrest⟩
    · exact absurd hempty hne
    · exact hmem j y hrest
  · use 0 :: positions.map (x.length + 1 + ·)
    refine ⟨List.pairwise_cons.mpr ⟨?_, hsorted'⟩, .cons ?_ hall', ?_⟩
    · intro i hi
      obtain ⟨j, -, rfl⟩ := List.mem_map.mp hi
      omega
    · exact (hat 0 x).mpr (Or.inl ⟨rfl, rfl, hempty⟩)
    · intro i y h
      rcases (hat i y).mp h with ⟨rfl, -, -⟩ | ⟨j, rfl, hrest⟩
      · exact List.mem_cons_self
      · exact List.mem_cons_of_mem _ (hmem j y hrest)

end Segments
