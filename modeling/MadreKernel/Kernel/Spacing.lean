import MadreKernel.Kernel.Clock

/-!
# Retry spacing

The time of a retry is the sum of the reading of the clock at the failure and of the retry delay,
in 64 bits.  As long as these sums fit, the attempts of every Work are spaced by its retry delay, in
every run and across restarts.
-/

namespace Kernel

open WorkStore

variable {cfg : Config} {t t' : Timed} {e : System.Event}

/-- The times of the retries that a step decides on fit in 64 bits. -/
def System.retryTimesFit (s : System) (e : Event) : Bool :=
  (s.failures e).all fun f => (s.store.row? f.1).all fun w => w.retryFits f.2

/-- The attempts of every Work are spaced. -/
def Timed.Spaced (t : Timed) : Prop :=
  ∀ id w, t.system.store.row? id = some w → SpacedAttempts w (t.system.store.attemptsOf id)

/-- The action of a step that meets the condition keeps the spacing. -/
theorem timed_spaces
    (hreach : (timed cfg).Reachable t) (hfits : t.system.retryTimesFit e = true)
    (hstep : t.step cfg e = some t') {id : CString} {w : Row}
    (hrow : t.system.store.row? id = some w) {a : WorkAction} (ha : t.system.Timely e id a) :
  a.Spaces w
  := by
  have hfailure : ∀ nowMs, (id, nowMs) ∈ t.system.failures e → w.retryFits nowMs = true := by
    intro nowMs hmem
    have hall := List.all_eq_true.mp hfits _ hmem
    rw [hrow] at hall
    exact hall
  cases a with
  | start engineId modelId startedAtMs =>
      intro hqueued
      exact (timed_starts hreach hstep hrow hqueued ha).2.1
  | finish attemptState workState text number endedAtMs =>
      rcases ha with rfl | rfl <;> simp [WorkAction.Spaces]
  | failAttempt attemptState text number endedAtMs =>
      obtain ⟨hmem, o, ho, hid, hnumber⟩ := ha
      obtain ⟨w₁, hrow₁, -, hcount⟩ := (reachable_valid (timed_reachable hreach)).owned o ho
      rw [hid] at hrow₁
      cases hrow.symm.trans hrow₁
      exact ⟨hnumber.symm.trans hcount.symm, hfailure _ hmem⟩
  | recover nowMs =>
      obtain ⟨hprocess, faults, rfl, hreturns⟩ := ha
      intro hrunning
      apply hfailure
      simp only [System.failures, hprocess, hreturns, if_true, List.mem_map, List.mem_filter,
        decide_eq_true_eq]
      exact ⟨w, ⟨Store.mem_works_of_row? hrow, hrunning⟩, by rw [Store.id_of_row? hrow]⟩
  | _ => trivial

theorem Timed.Spaced.step
    (hreach : (timed cfg).Reachable t) (h : t.Spaced)
    (hfits : t.system.retryTimesFit e = true) (hstep : t.step cfg e = some t') :
  t'.Spaced
  := by
  intro id w' hrow'
  have hsystem := (Timed.step_eq_some hstep).1
  have hreach' := timed_reachable hreach
  cases hrow : t.system.store.row? id with
  | none =>
      rw [attemptsOf_new (hreach'.step hsystem) hsystem hrow hrow']
      constructor
      · simp
      · simp
  | some w =>
      rcases System.step_timely hsystem hrow with hview | ⟨a, hview, ha⟩
      · have hattempts := congrArg WorkView.attempts hview
        obtain rfl : w' = w :=
          Option.some.inj (hrow'.symm.trans ((congrArg WorkView.row? hview).trans hrow))
        simp only [Store.view] at hattempts
        rw [hattempts]
        exact h id w' hrow
      · obtain ⟨w₁, hrow₁, hretimed⟩ := a.apply_retimed (v := t.system.store.view id) hrow
        obtain ⟨w₂, hrow₂, hkept⟩ := a.apply_kept (v := t.system.store.view id) hrow
        cases hrow₁.symm.trans hrow₂
        obtain rfl : w' = w₁ :=
          Option.some.inj (hrow'.symm.trans ((congrArg WorkView.row? hview).trans hrow₁))
        have hattempts := congrArg WorkView.attempts hview
        simp only [Store.view] at hattempts
        rw [hattempts]
        have hdelay := (t.system.store.works_checked w (Store.mem_works_of_row? hrow)).2
        apply hretimed.spaced (reachable_account hreach' hrow) (h id w hrow)
          (Int64.le_iff_toInt_le.mp hdelay) hkept.constants
        apply timed_spaces hreach hfits hstep hrow ha

/-- In every run whose retry times fit in 64 bits, each attempt starts no earlier than the retry
delay after the end of the one before, and a Work is queued again only when the retry delay ends
before its deadline. -/
theorem retry_spacing
    {t₀ : Timed} {es : List System.Event} (hinit : (timed cfg).init t₀)
    (hfits : (timed cfg).Within (fun t e => t.system.retryTimesFit e = true) t₀ es)
    (hrun : (timed cfg).run t₀ es = some t) {id : CString} {w : Row}
    (hrow : t.system.store.row? id = some w) :
  (∀ a ∈ t.system.store.attemptsOf id, ∀ b ∈ t.system.store.attemptsOf id,
      b.attemptNumber.toInt = a.attemptNumber.toInt + 1 →
      ∃ endedAtMs, a.endedAtMs = some endedAtMs
        ∧ b.startedAtMs.toInt ≥ endedAtMs.toInt + w.retryDelayMs.toInt)
    ∧ (w.state = .queued → ∀ a ∈ t.system.store.attemptsOf id, a.attemptNumber = w.attemptCount →
      ∃ endedAtMs, a.endedAtMs = some endedAtMs
        ∧ ∀ deadline, w.deadlineMs = some deadline →
          endedAtMs.toInt + w.retryDelayMs.toInt < deadline.toInt)
  := by
  have hstart : (timed cfg).Reachable t₀ ∧ t₀.Spaced := by
    refine ⟨⟨t₀, [], hinit, rfl⟩, ?_⟩
    intro id w hrow
    rw [hinit.1] at hrow
    cases hrow
  have hspaced : (timed cfg).Reachable t ∧ t.Spaced := by
    apply hfits.preserves _ hstart hrun
    rintro t e t' ⟨hreach, hspaced⟩ hguard hstep
    exact ⟨hreach.step hstep, hspaced.step hreach hguard hstep⟩
  obtain ⟨hgap, hrequeued⟩ := hspaced.2 id w hrow
  refine ⟨hgap, ?_⟩
  intro hqueued a ha hlast
  obtain ⟨endedAtMs, hended, -, hdeadline⟩ := hrequeued hqueued a ha hlast
  exact ⟨endedAtMs, hended, hdeadline⟩

/-! ### A Work that is tried twice -/

namespace Sample

/-- The metadata of a `SUBMIT` with a retry delay. -/
def retryFields (retryDelayMs : String) : List (String × String) :=
  [("work_type", "t"), ("effort", "STANDARD"), ("urgency", "NORMAL"), ("max_attempts", "2"),
    ("retry_delay_ms", retryDelayMs)]

/-- A Work is dispatched at 1, its worker crashes, and it is dispatched again. -/
def retrying (retryDelayMs : String) (nowMs : Int64) : List System.Event :=
  submitting (frame .submit (retryFields retryDelayMs) "in") ++ failingAt 1 ++ dispatchingAt nowMs

/-- The times of the attempts of the Work. -/
def attemptTimes (t : Timed) : List (Int32 × Int64 × Option Int64) :=
  (t.system.store.attemptsOf (bindText workId)).map fun a =>
    (a.attemptNumber, a.startedAtMs, a.endedAtMs)

end Sample

theorem retry_spacing_second :
  ∃ t w, (timed Sample.config).run Sample.timedStart (Sample.retrying "5" 6) = some t
    ∧ t.system.store.row? (bindText Sample.workId) = some w
    ∧ Sample.attemptTimes t = [(1, 1, some 1), (2, 6, none)]
    ∧ ∀ a ∈ t.system.store.attemptsOf (bindText Sample.workId),
      ∀ b ∈ t.system.store.attemptsOf (bindText Sample.workId),
      b.attemptNumber.toInt = a.attemptNumber.toInt + 1 →
      ∃ endedAtMs, a.endedAtMs = some endedAtMs
        ∧ b.startedAtMs.toInt ≥ endedAtMs.toInt + w.retryDelayMs.toInt
  := by
  have hcheck : ((timed Sample.config).runWithin (fun t e => t.system.retryTimesFit e)
      Sample.timedStart (Sample.retrying "5" 6)).any (fun t =>
        (t.system.store.row? (bindText Sample.workId)).isSome
          && Sample.attemptTimes t = [(1, 1, some 1), (2, 6, none)]) = true := by
    decide +kernel
  obtain ⟨t, hrunWithin, ht⟩ := (Option.any_eq_true _ _).mp hcheck
  rw [Bool.and_eq_true, decide_eq_true_eq] at ht
  obtain ⟨w, hrow⟩ := Option.isSome_iff_exists.mp ht.1
  obtain ⟨hwithin, hrun⟩ := Machine.within_of_runWithin hrunWithin
  exact ⟨t, w, hrun, hrow, ht.2, (retry_spacing ⟨rfl, rfl, rfl⟩ hwithin hrun hrow).1⟩

/-- A retry delay of 2⁶³ - 1: the second attempt starts at once. -/
theorem retry_at_once :
  ∃ t w, (timed Sample.config).run Sample.timedStart (Sample.retrying "9223372036854775807" 1)
      = some t
    ∧ t.system.store.row? (bindText Sample.workId) = some w
    ∧ w.retryDelayMs.toInt = 2 ^ 63 - 1
    ∧ ¬∀ a ∈ t.system.store.attemptsOf (bindText Sample.workId),
      ∀ b ∈ t.system.store.attemptsOf (bindText Sample.workId),
      b.attemptNumber.toInt = a.attemptNumber.toInt + 1 →
      ∃ endedAtMs, a.endedAtMs = some endedAtMs
        ∧ b.startedAtMs.toInt ≥ endedAtMs.toInt + w.retryDelayMs.toInt
  := by
  have hcheck : ((timed Sample.config).run Sample.timedStart
      (Sample.retrying "9223372036854775807" 1)).any (fun t =>
        (t.system.store.row? (bindText Sample.workId)).any (fun w => w.retryDelayMs.toInt = 2 ^ 63 - 1)
          && Sample.attemptTimes t = [(1, 1, some 1), (2, 1, none)]) = true := by
    decide +kernel
  obtain ⟨t, hrun, ht⟩ := (Option.any_eq_true _ _).mp hcheck
  rw [Bool.and_eq_true, decide_eq_true_eq] at ht
  obtain ⟨w, hrow, hw⟩ := (Option.any_eq_true _ _).mp ht.1
  have hdelay := of_decide_eq_true hw
  refine ⟨t, w, hrun, hrow, hdelay, ?_⟩
  intro hspaced
  obtain ⟨a, rest, hattempts, ha, hrest⟩ := List.map_eq_cons_iff.mp ht.2
  obtain ⟨b, rfl, hb⟩ := List.map_eq_singleton_iff.mp hrest
  simp only [Prod.mk.injEq] at ha hb
  obtain ⟨hanumber, -, haended⟩ := ha
  obtain ⟨hbnumber, hbstarted, -⟩ := hb
  obtain ⟨endedAtMs, hended, hge⟩ := hspaced a (by simp [hattempts]) b (by simp [hattempts])
    (by rw [hanumber, hbnumber]; decide)
  rw [haended, Option.some_inj] at hended
  rw [← hended, hbstarted, hdelay] at hge
  revert hge
  decide

end Kernel
