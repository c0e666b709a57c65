import MadreKernel.Store.Lifecycle

/-!
# The account of a Work

A Work is `Accounted` when its attempt rows are numbered from 1 to its attempt count, only the
last attempt of a running Work is running, the others have ended, and the attempt count is
within the retry budget.  Every action keeps the account of a Work, if an action that ends an
attempt is about the attempt that is running.
-/

/-- The attempt has ended. -/
def Attempt.Ended (a : Attempt) : Prop := a.state ≠ .running ∧ a.endedAtMs.isSome = true

/-- The numbers from 1 to a count. -/
def numbersTo (count : Int32) : List Int :=
  (List.range count.toInt.toNat).map fun i : Nat => (i : Int) + 1

namespace WorkView

/-- The last attempt is in a state, the others have ended, and the row names the engine and the
model of the last attempt. -/
def LastIs (state : AttemptState) (w : Row) (attempts : List Attempt) : Prop :=
  ∃ earlier last, attempts = earlier ++ [last] ∧ last.state = state ∧ (∀ a ∈ earlier, a.Ended)
    ∧ (state ≠ .running → last.Ended)
    ∧ w.selectedEngineId = last.engineId ∧ w.selectedModelId = last.modelId

/-- The account of a Work with its row. -/
structure RowAccounted (w : Row) (attempts : List Attempt) : Prop where
  numbers : attempts.map (·.attemptNumber.toInt) = numbersTo w.attemptCount
  nonneg : 0 ≤ w.attemptCount.toInt
  budget : w.attemptCount.toInt ≤ w.maxAttempts.toInt
  queued : w.state = .queued →
    w.attemptCount.toInt < w.maxAttempts.toInt ∧ w.cancelRequested = false
  running : w.state = .running → LastIs .running w attempts
  ended : w.state ≠ .running → ∀ a ∈ attempts, a.Ended
  succeeded : w.state = .succeeded → LastIs .succeeded w attempts

/-- The account of a Work: without a row it has no attempts. -/
def Accounted (v : WorkView) : Prop :=
  match v.row? with
  | none => v.attempts = []
  | some w => RowAccounted w v.attempts

theorem Accounted.of_none {v : WorkView} (h : v.Accounted) (hrow : v.row? = none) :
  v.attempts = []
  := by
  simpa only [Accounted, hrow] using h

theorem Accounted.of_some {v : WorkView} (h : v.Accounted) {w : Row} (hrow : v.row? = some w) :
  RowAccounted w v.attempts
  := by
  simpa only [Accounted, hrow] using h

theorem accounted_some {w : Row} {attempts : List Attempt} :
  Accounted ⟨some w, attempts⟩ ↔ RowAccounted w attempts
  := Iff.rfl

end WorkView

open WorkView

/-! ### Counting attempts -/

/-- The next attempt number does not overflow while the budget is not used up. -/
theorem Int32.toInt_add_one {n max : Int32} (h : n.toInt < max.toInt) :
  (n + 1).toInt = n.toInt + 1
  := by
  have hmax := max.toInt_lt
  have hmin := n.le_toInt
  have hone : (1 : Int32).toInt = 1 := rfl
  rw [Int32.toInt_add, hone, Int.bmod_eq_of_le (by omega) (by omega)]

theorem numbersTo_add_one {n max : Int32} (hnonneg : 0 ≤ n.toInt) (h : n.toInt < max.toInt) :
  numbersTo (n + 1) = numbersTo n ++ [(n + 1).toInt]
  := by
  have hsucc : (n.toInt + 1).toNat = n.toInt.toNat + 1 := by omega
  have hcast : (n.toInt.toNat : Int) = n.toInt := Int.toNat_of_nonneg hnonneg
  rw [numbersTo, numbersTo, Int32.toInt_add_one h, hsucc, List.range_succ, List.map_append,
    List.map_singleton, hcast]

/-- The number of the last attempt is the attempt count. -/
theorem WorkView.RowAccounted.last_number {w : Row} {earlier : List Attempt} {last : Attempt}
    (h : RowAccounted w (earlier ++ [last])) :
  last.attemptNumber = w.attemptCount
  := by
  have hnumbers := h.numbers
  have hlength := congrArg List.length hnumbers
  rw [numbersTo, List.length_map, List.length_map, List.length_range, List.length_append,
    List.length_singleton] at hlength
  rw [numbersTo, ← hlength, List.range_succ, List.map_append, List.map_append] at hnumbers
  have hlast := List.append_inj_right' hnumbers rfl
  simp only [List.map_singleton, List.cons.injEq, and_true] at hlast
  apply Int32.toInt_inj.mp
  have hnonneg := h.nonneg
  omega

/-- Ending the attempt that is running changes the last attempt alone. -/
theorem WorkView.RowAccounted.endAttempt_eq {w : Row} {earlier : List Attempt} {last : Attempt}
    (h : RowAccounted w (earlier ++ [last])) (hlast : last.state = .running)
    (hearlier : ∀ a ∈ earlier, a.Ended) (row? : Option Row) (e : AttemptEdit) :
  (WorkView.endAttempt w.attemptCount e ⟨row?, earlier ++ [last]⟩).attempts
    = earlier ++ [e.apply last]
  := by
  simp only [WorkView.endAttempt, List.map_append, List.map_singleton, h.last_number, hlast,
    true_and, if_true]
  congr 1
  apply Eq.trans (List.map_congr_left _) (List.map_id _)
  intro a ha
  rw [if_neg]
  · rfl
  · rintro ⟨-, hrunning⟩
    exact (hearlier a ha).1 hrunning

/-! ### Reading an account -/

namespace WorkView.RowAccounted

variable {w : Row} {attempts : List Attempt}

/-- A Work is running exactly when one of its attempts is. -/
theorem running_iff (h : RowAccounted w attempts) :
  w.state = .running ↔ (attempts.filter (·.state = .running)).length = 1
  := by
  constructor
  · intro hrunning
    obtain ⟨earlier, last, rfl, hlast, hearlier, -⟩ := h.running hrunning
    have hnone : earlier.filter (·.state = .running) = [] := by
      rw [List.filter_eq_nil_iff]
      intro a ha
      simpa using (hearlier a ha).1
    simp [hnone, hlast]
  · intro hone
    by_contra hrunning
    have hnone : attempts.filter (·.state = .running) = [] := by
      rw [List.filter_eq_nil_iff]
      intro a ha
      simpa using (h.ended hrunning a ha).1
    rw [hnone] at hone
    cases hone

/-- The attempts other than the running attempt of a running Work have ended. -/
theorem others_ended (h : RowAccounted w attempts) :
  ∀ a ∈ attempts, ¬(w.state = .running ∧ a.attemptNumber = w.attemptCount) → a.Ended
  := by
  intro a ha hother
  by_cases hrunning : w.state = .running
  · obtain ⟨earlier, last, rfl, -, hearlier, -⟩ := h.running hrunning
    rcases List.mem_append.mp ha with ha | ha
    · exact hearlier a ha
    · rw [List.mem_singleton.mp ha] at hother
      exact absurd ⟨hrunning, h.last_number⟩ hother
  · exact h.ended hrunning a ha

/-- The attempt that is running is the last. -/
theorem number_of_running (h : RowAccounted w attempts) :
  ∀ a ∈ attempts, a.state = .running → a.attemptNumber = w.attemptCount
  := by
  intro a ha hrunning
  by_contra hnumber
  exact (h.others_ended a ha fun hcurrent => hnumber hcurrent.2).1 hrunning

/-- A Work that is running or has succeeded names the engine and the model of its last
attempt. -/
theorem selected
    (h : RowAccounted w attempts) (hstate : w.state = .running ∨ w.state = .succeeded) :
  ∃ a ∈ attempts, a.attemptNumber = w.attemptCount ∧ w.selectedEngineId = a.engineId
    ∧ w.selectedModelId = a.modelId
  := by
  have hlast : ∃ state, LastIs state w attempts := by
    rcases hstate with hstate | hstate
    · exact ⟨_, h.running hstate⟩
    · exact ⟨_, h.succeeded hstate⟩
  obtain ⟨state, earlier, last, rfl, -, -, -, hengine, hmodel⟩ := hlast
  exact ⟨last, by simp, h.last_number, hengine, hmodel⟩

theorem number_bounds (h : RowAccounted w attempts) :
  ∀ a ∈ attempts, 1 ≤ a.attemptNumber.toInt ∧ a.attemptNumber.toInt ≤ w.maxAttempts.toInt
  := by
  intro a ha
  have hmem := List.mem_map_of_mem (f := fun a : Attempt => a.attemptNumber.toInt) ha
  rw [h.numbers, numbersTo, List.mem_map] at hmem
  obtain ⟨i, hi, hnumber⟩ := hmem
  have hlt := List.mem_range.mp hi
  have hbudget := h.budget
  have hnonneg := h.nonneg
  omega

end WorkView.RowAccounted

/-! ### Actions -/

namespace WorkAction

open WorkStore

/-- An edit of the row that leaves the attempts alone and takes the Work out of the states
that are accounted by their last attempt. -/
theorem accounted_of_ended {w w' : Row} {attempts : List Attempt} (h : RowAccounted w attempts)
    (hcount : w'.attemptCount = w.attemptCount) (hmax : w'.maxAttempts = w.maxAttempts)
    (hstate : w'.state = .failed ∨ w'.state = .cancelled) (hended : ∀ a ∈ attempts, a.Ended) :
  RowAccounted w' attempts
  := by
  refine ⟨by rw [hcount]; exact h.numbers, by rw [hcount]; exact h.nonneg,
    by rw [hcount, hmax]; exact h.budget, ?_, ?_, fun _ => hended, ?_⟩
  · intro hqueued
    rcases hstate with hstate | hstate <;> rw [hstate] at hqueued <;> cases hqueued
  · intro hrunning
    rcases hstate with hstate | hstate <;> rw [hstate] at hrunning <;> cases hrunning
  · intro hsucceeded
    rcases hstate with hstate | hstate <;> rw [hstate] at hsucceeded <;> cases hsucceeded

/-- An edit of the row that keeps the state, the counts and the selection. -/
theorem accounted_of_same {w w' : Row} {attempts : List Attempt} (h : RowAccounted w attempts)
    (hcount : w'.attemptCount = w.attemptCount) (hmax : w'.maxAttempts = w.maxAttempts)
    (hstate : w'.state = w.state) (hengine : w'.selectedEngineId = w.selectedEngineId)
    (hmodel : w'.selectedModelId = w.selectedModelId)
    (hqueued : w.state = .queued → w'.cancelRequested = false) :
  RowAccounted w' attempts
  := by
  have hlast : ∀ state, LastIs state w attempts → LastIs state w' attempts := by
    rintro state ⟨earlier, last, hattempts, hlast, hearlier, hended, hengine', hmodel'⟩
    exact ⟨earlier, last, hattempts, hlast, hearlier, hended, hengine.trans hengine',
      hmodel.trans hmodel'⟩
  constructor
  · rw [hcount]
    exact h.numbers
  · rw [hcount]
    exact h.nonneg
  · rw [hcount, hmax]
    exact h.budget
  · rw [hstate, hcount, hmax]
    exact fun hq => ⟨(h.queued hq).1, hqueued hq⟩
  · rw [hstate]
    exact fun hr => hlast _ (h.running hr)
  · rw [hstate]
    exact h.ended
  · rw [hstate]
    exact fun hs => hlast _ (h.succeeded hs)

/-- Starting a Work appends an attempt with the next number. -/
theorem start_accounted {w : Row} {attempts : List Attempt} (h : RowAccounted w attempts)
    (hstart : startable w = true) (engineId modelId : CString) (startedAtMs : Int64) :
  RowAccounted (startRow engineId modelId w)
    (attempts ++ [startAttempt engineId modelId startedAtMs w])
  := by
  have hqueued := state_of_startable hstart
  obtain ⟨hbudget, -⟩ := h.queued hqueued
  have hnext := Int32.toInt_add_one hbudget
  have hcount : (startRow engineId modelId w).attemptCount = w.attemptCount + 1 := rfl
  have hmax : (startRow engineId modelId w).maxAttempts = w.maxAttempts := rfl
  have hended : ∀ a ∈ attempts, a.Ended := h.ended (by rw [hqueued]; simp)
  have hnonneg := h.nonneg
  constructor
  · rw [hcount, numbersTo_add_one hnonneg hbudget, List.map_append, h.numbers]
    rfl
  · rw [hcount, hnext]
    omega
  · rw [hcount, hmax, hnext]
    omega
  · rintro ⟨⟩
  · intro _
    exact ⟨attempts, _, rfl, rfl, hended, by simp, rfl, rfl⟩
  · intro hne
    exact absurd rfl hne
  · rintro ⟨⟩

/-- The number of the attempt that is started: it does not overflow, and is within the
budget. -/
theorem start_number {w : Row} {attempts : List Attempt} (h : RowAccounted w attempts)
    (hstart : startable w = true) :
  (w.attemptCount + 1).toInt = w.attemptCount.toInt + 1
    ∧ 1 ≤ (w.attemptCount + 1).toInt ∧ (w.attemptCount + 1).toInt ≤ w.maxAttempts.toInt
  := by
  obtain ⟨hbudget, -⟩ := h.queued (state_of_startable hstart)
  have hnext := Int32.toInt_add_one hbudget
  have hnonneg := h.nonneg
  exact ⟨hnext, by omega, by omega⟩

/-- The account of a Work whose running attempt has ended. -/
theorem accounted_of_end {w w' : Row} {earlier : List Attempt} {last : Attempt}
    (h : RowAccounted w (earlier ++ [last])) (hearlier : ∀ a ∈ earlier, a.Ended)
    (e : AttemptEdit) (hended : (e.apply last).Ended)
    (hcount : w'.attemptCount = w.attemptCount) (hmax : w'.maxAttempts = w.maxAttempts)
    (hqueued : w'.state = .queued →
      w.attemptCount.toInt < w.maxAttempts.toInt ∧ w'.cancelRequested = false)
    (hrunning : w'.state ≠ .running)
    (hsucceeded : w'.state = .succeeded → (e.apply last).state = .succeeded
      ∧ w'.selectedEngineId = (e.apply last).engineId
      ∧ w'.selectedModelId = (e.apply last).modelId) :
  RowAccounted w' (earlier ++ [e.apply last])
  := by
  have hnumber : (e.apply last).attemptNumber = last.attemptNumber :=
    congrArg Prod.snd (e.keeps last)
  constructor
  · have hnumbers := h.numbers
    rw [List.map_append, List.map_singleton] at hnumbers ⊢
    rw [hnumber, hcount]
    exact hnumbers
  · rw [hcount]
    exact h.nonneg
  · rw [hcount, hmax]
    exact h.budget
  · intro hstate
    rw [hcount, hmax]
    exact hqueued hstate
  · intro hstate
    exact absurd hstate hrunning
  · intro _ a ha
    rcases List.mem_append.mp ha with ha | ha
    · exact hearlier a ha
    · rw [List.mem_singleton.mp ha]
      exact hended
  · intro hstate
    obtain ⟨hlast, hengine, hmodel⟩ := hsucceeded hstate
    exact ⟨earlier, _, rfl, hlast, hearlier, fun _ => hended, hengine, hmodel⟩

/-- The verdict on a running Work: it is out of `RUNNING`, and queued again only within the
budget and without a request to cancel. -/
theorem failureVerdict_cases (w : Row) (nowMs : Int64) (cancelText failureText : CString) :
  (fun w' : Row => w'.attemptCount = w.attemptCount ∧ w'.maxAttempts = w.maxAttempts
      ∧ w'.cancelRequested = w.cancelRequested
      ∧ (w'.state = .cancelled ∧ w.cancelRequested = true
        ∨ w'.state = .queued ∧ w.cancelRequested = false
          ∧ w.attemptCount.toInt < w.maxAttempts.toInt
        ∨ w'.state = .failed ∧ w.cancelRequested = false))
    ((failureVerdict (readWork w) nowMs cancelText failureText).apply w)
  := by
  have hread : (readWork w).cancelRequested = w.cancelRequested := rfl
  simp only [failureVerdict, hread]
  split_ifs with hcancel hretry
  · exact ⟨rfl, rfl, rfl, Or.inl ⟨rfl, hcancel⟩⟩
  · refine ⟨rfl, rfl, rfl, Or.inr (Or.inl ⟨rfl, by simpa using hcancel, ?_⟩)⟩
    rw [retryPermitted] at hretry
    split_ifs at hretry with hbudget
    have hcount : (readWork w).attemptCount = w.attemptCount := rfl
    have hmax : (readWork w).maxAttempts = w.maxAttempts := rfl
    rw [hcount, hmax, ge_iff_le, Int32.le_iff_toInt_le] at hbudget
    omega
  · exact ⟨rfl, rfl, rfl, Or.inr (Or.inr ⟨rfl, by simpa using hcancel⟩)⟩

theorem ended_endAttempt {state : AttemptState} (hstate : state ≠ .running) (endedAtMs : Int64)
    (text : CString) (a : Attempt) :
  ((WorkStore.endAttempt state endedAtMs text).apply a).Ended
  := ⟨hstate, rfl⟩

/-- The end of an unsuccessful attempt keeps the account, when it ends the attempt that is
running. -/
theorem endRunning_accounted {v : WorkView} (h : v.Accounted) {attemptState : AttemptState}
    (hstate : attemptState ≠ .running) (cancelText failureText : CString) {number : Row → Int32}
    (hnumber : ∀ w, v.row? = some w → w.state = .running → number w = w.attemptCount)
    (nowMs : Int64) :
  (endRunning attemptState cancelText failureText number nowMs v).Accounted
  := by
  obtain ⟨row?, attempts⟩ := v
  cases hrow : row? with
  | none =>
      subst hrow
      exact h
  | some w =>
      subst hrow
      simp only [endRunning]
      split_ifs with hrunning
      · obtain ⟨earlier, last, rfl, hlast, hearlier, -⟩ := (h.of_some rfl).running hrunning
        have haccount := h.of_some (w := w) rfl
        obtain ⟨hcount, hmax, hflag, hverdict⟩ :=
          failureVerdict_cases w nowMs cancelText failureText
        rw [hnumber w rfl hrunning, Accounted]
        simp only
        rw [haccount.endAttempt_eq hlast hearlier]
        apply accounted_of_end haccount hearlier _ (ended_endAttempt hstate _ _ _) hcount hmax
        · intro hqueued
          rcases hverdict with ⟨hv, -⟩ | ⟨-, hfalse, hbudget⟩ | ⟨hv, -⟩
          · rw [hv] at hqueued
            cases hqueued
          · exact ⟨hbudget, hflag.trans hfalse⟩
          · rw [hv] at hqueued
            cases hqueued
        · rcases hverdict with ⟨hv, -⟩ | ⟨hv, -⟩ | ⟨hv, -⟩ <;> rw [hv] <;> simp
        · intro hsucceeded
          rcases hverdict with ⟨hv, -⟩ | ⟨hv, -⟩ | ⟨hv, -⟩ <;> rw [hv] at hsucceeded <;>
            cases hsucceeded
      · exact h

/-- The actions that are about the attempt that is running, when the Work is. -/
def Current (v : WorkView) : WorkAction → Prop
  | .finish attemptState workState _ number _ =>
      (workState = .succeeded ∧ attemptState = .succeeded
        ∨ workState = .cancelled ∧ attemptState = .cancelled)
      ∧ ∃ w, v.row? = some w ∧ w.state = .running ∧ w.attemptCount = number
  | .failAttempt attemptState _ number _ =>
      attemptState ≠ .running
        ∧ ∀ w, v.row? = some w → w.state = .running → w.attemptCount = number
  | _ => True

/-- An action that is about the running attempt keeps the account of a Work. -/
theorem apply_accounted {a : WorkAction} {v : WorkView} (ha : a.Current v) (h : v.Accounted) :
  (a.apply v).Accounted
  := by
  obtain ⟨row?, attempts⟩ := v
  cases row? with
  | none =>
      cases a with
      | finish attemptState workState technicalFailure number endedAtMs =>
          obtain ⟨-, w, hrow, -⟩ := ha
          cases hrow
      | _ => exact h
  | some w =>
      have haccount : RowAccounted w attempts := h
      cases a with
      | expire nowMs =>
          simp only [apply, Option.map_some, accounted_some]
          split_ifs with hexpired
          · simp only [expired, Bool.and_eq_true, decide_eq_true_eq] at hexpired
            exact accounted_of_ended haccount rfl rfl (Or.inl rfl)
              (haccount.ended (by rw [hexpired.1]; simp))
          · exact haccount
      | fail technicalFailure =>
          simp only [apply, WorkView.editIn, Option.map_some, accounted_some]
          split_ifs with hqueued
          · exact accounted_of_ended haccount rfl rfl (Or.inl rfl)
              (haccount.ended (by rw [hqueued]; simp))
          · exact haccount
      | start engineId modelId startedAtMs =>
          simp only [apply]
          split_ifs with hstart
          · exact start_accounted haccount hstart engineId modelId startedAtMs
          · exact h
      | finish attemptState workState technicalFailure number endedAtMs =>
          obtain ⟨hverdict, w₁, hrow, hrunning, hnumber⟩ := ha
          cases hrow
          obtain ⟨earlier, last, rfl, hlast, hearlier, -, hengine, hmodel⟩ :=
            haccount.running hrunning
          have hended : attemptState ≠ .running := by
            rcases hverdict with ⟨-, rfl⟩ | ⟨-, rfl⟩ <;> simp
          have hattempts := haccount.endAttempt_eq hlast hearlier (some w)
            (WorkStore.endAttempt attemptState endedAtMs technicalFailure)
          simp only [apply, WorkView.editIn, ← hnumber, hattempts]
          simp only [WorkView.endAttempt, Option.map_some, hrunning, if_true, accounted_some]
          refine accounted_of_end haccount hearlier _ (ended_endAttempt hended _ _ _) rfl rfl
            ?_ ?_ ?_
          · intro hqueued
            rcases hverdict with ⟨rfl, -⟩ | ⟨rfl, -⟩ <;> cases hqueued
          · rcases hverdict with ⟨rfl, -⟩ | ⟨rfl, -⟩ <;> simp [setState]
          · intro hsucceeded
            rcases hverdict with ⟨rfl, rfl⟩ | ⟨rfl, -⟩
            · exact ⟨rfl, hengine, hmodel⟩
            · cases hsucceeded
      | failAttempt attemptState technicalFailure number endedAtMs =>
          apply endRunning_accounted h ha.1
          intro w' hrow hrunning
          exact (ha.2 w' hrow hrunning).symm
      | recover nowMs =>
          apply endRunning_accounted h (by simp)
          intro w' _ _
          rfl
      | cancel =>
          simp only [apply, WorkView.editIn, Option.map_some, accounted_some]
          cases hstate : w.state with
          | queued =>
              simp only [reduceCtorEq, if_false, hstate, if_true]
              exact accounted_of_ended haccount rfl rfl (Or.inr rfl)
                (haccount.ended (by rw [hstate]; simp))
          | running =>
              simp only [if_true, requestCancel, hstate, reduceCtorEq, if_false]
              refine accounted_of_same haccount rfl rfl hstate.symm rfl rfl ?_
              intro hqueued
              rw [hstate] at hqueued
              cases hqueued
          | _ =>
              simp only [hstate, reduceCtorEq, if_false]
              exact haccount
      | acknowledge =>
          simp only [apply, Option.map_some, accounted_some]
          split_ifs with hack
          · refine accounted_of_same haccount rfl rfl rfl rfl rfl ?_
            intro hqueued
            rw [hack.1] at hqueued
            cases hqueued
          · exact haccount

end WorkAction
