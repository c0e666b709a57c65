import Mathlib.Data.List.Basic

/-!
# Sieves

A list of candidates is narrowed by one stage after another; a stage that leaves no candidate ends
the narrowing with its failure.  What is left in the end are the candidates that pass every stage,
in their order.  The failure is that of the first stage such that no candidate passes the stages up
to it.
-/

/-- A condition on candidates, and the failure when none of them satisfies it. -/
structure Stage (ε α : Type) where
  failure : ε
  keep : α → Bool

namespace Stage

variable {ε α : Type}

/-- Whether a candidate passes some stages. -/
def passes (stages : List (Stage ε α)) (a : α) : Bool := stages.all fun stage => stage.keep a

def sieve : List (Stage ε α) → List α → Except ε (List α)
  | [], candidates => .ok candidates
  | stage :: stages, candidates =>
      if candidates.filter stage.keep = [] then .error stage.failure
      else sieve stages (candidates.filter stage.keep)

@[simp]
theorem passes_nil (a : α) :
  passes ([] : List (Stage ε α)) a = true
  := rfl

@[simp]
theorem passes_cons (stage : Stage ε α) (stages : List (Stage ε α)) (a : α) :
  passes (stage :: stages) a = (stage.keep a && passes stages a)
  := rfl

/-- The stages after the first one see the candidates that it keeps. -/
theorem filter_passes_cons (stage : Stage ε α) (stages : List (Stage ε α)) (candidates : List α) :
  candidates.filter (passes (stage :: stages))
    = (candidates.filter stage.keep).filter (passes stages)
  := by
  rw [List.filter_filter]
  congr 1
  ext a
  rw [passes_cons, Bool.and_comm]

/-- What is left are the candidates that pass every stage. -/
theorem sieve_eq_ok {stages : List (Stage ε α)} {candidates left : List α}
    (h : sieve stages candidates = .ok left) :
  left = candidates.filter (passes stages)
  := by
  induction stages generalizing candidates with
  | nil =>
      cases h
      exact (List.filter_eq_self.mpr fun a _ => passes_nil a).symm
  | cons stage stages ih =>
      rw [sieve] at h
      split_ifs at h
      rw [ih h, filter_passes_cons]

/-- What a stage leaves is not empty. -/
theorem sieve_ne_nil {stages : List (Stage ε α)} (hstages : stages ≠ []) {candidates left : List α}
    (h : sieve stages candidates = .ok left) :
  left ≠ []
  := by
  induction stages generalizing candidates with
  | nil => exact absurd rfl hstages
  | cons stage stages ih =>
      rw [sieve] at h
      split_ifs at h with hkept
      cases stages with
      | nil =>
          cases h
          exact hkept
      | cons stage' stages => exact ih (List.cons_ne_nil _ _) h

/-- Nothing fails when a candidate passes every stage. -/
theorem sieve_of_passes
    {stages : List (Stage ε α)} {candidates : List α} {a : α} (ha : a ∈ candidates)
    (h : passes stages a = true) :
  sieve stages candidates = .ok (candidates.filter (passes stages))
  := by
  induction stages generalizing candidates with
  | nil => rw [sieve, List.filter_eq_self.mpr fun a _ => passes_nil a]
  | cons stage stages ih =>
      rw [passes_cons, Bool.and_eq_true] at h
      have hkept : a ∈ candidates.filter stage.keep := List.mem_filter.mpr ⟨ha, h.1⟩
      rw [sieve, if_neg (List.ne_nil_of_mem hkept), ih hkept h.2, filter_passes_cons]

/-- Some candidate passes the stages up to one of them. -/
def Passed (stages : List (Stage ε α)) (candidates : List α) (n : Nat) : Prop :=
  ∃ a ∈ candidates, passes (stages.take (n + 1)) a = true

theorem passed_zero (stage : Stage ε α) (stages : List (Stage ε α)) (candidates : List α) :
  Passed (stage :: stages) candidates 0 ↔ candidates.filter stage.keep ≠ []
  := by
  rw [Ne, List.filter_eq_nil_iff]
  simp [Passed]

theorem passed_succ
    (stage : Stage ε α) (stages : List (Stage ε α)) (candidates : List α) (n : Nat) :
  Passed (stage :: stages) candidates (n + 1) ↔ Passed stages (candidates.filter stage.keep) n
  := by
  simp only [Passed, List.take_succ_cons, passes_cons, Bool.and_eq_true, List.mem_filter, and_assoc]

/-- The failure is that of the first stage such that no candidate passes the stages up to it. -/
theorem sieve_eq_error_iff {stages : List (Stage ε α)} {candidates : List α} {e : ε} :
  sieve stages candidates = .error e
    ↔ ∃ n stage, stages[n]? = some stage ∧ stage.failure = e
      ∧ ¬ Passed stages candidates n ∧ ∀ m < n, Passed stages candidates m
  := by
  induction stages generalizing candidates with
  | nil => simp [sieve]
  | cons stage stages ih =>
      have hzero := passed_zero stage stages candidates
      rw [sieve]
      split_ifs with hnone
      · constructor
        · intro h
          cases h
          use 0, stage, rfl, rfl
          exact ⟨fun hpassed => hzero.mp hpassed hnone, fun m hm => absurd hm (Nat.not_lt_zero m)⟩
        · rintro ⟨n, stage', hn, rfl, -, hpassed⟩
          cases n with
          | zero =>
              cases hn
              rfl
          | succ n => exact absurd hnone (hzero.mp (hpassed 0 (Nat.zero_lt_succ n)))
      · rw [ih]
        constructor
        · rintro ⟨n, stage', hn, rfl, hempty, hpassed⟩
          use n + 1, stage', hn, rfl
          rw [passed_succ]
          use hempty
          intro m hm
          cases m with
          | zero => exact hzero.mpr hnone
          | succ m => exact (passed_succ _ _ _ _).mpr (hpassed m (Nat.lt_of_succ_lt_succ hm))
        · rintro ⟨n, stage', hn, rfl, hempty, hpassed⟩
          cases n with
          | zero => exact absurd (hzero.mpr hnone) hempty
          | succ n =>
              use n, stage', hn, rfl
              rw [passed_succ] at hempty
              use hempty
              intro m hm
              rw [← passed_succ]
              exact hpassed (m + 1) (Nat.succ_lt_succ hm)

end Stage
