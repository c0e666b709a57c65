import MadreKernel.Store.Accounting

/-!
# The ledger

The abstract machine of the attempts: the database, and the attempts that live threads are
responsible for.  Each running Work has at most one owner, whose attempt is the running
attempt of the Work; only the owner of an attempt ends it, and only while nobody owns an
attempt does a restart recover.  In the ledger every Work stays accounted.
-/

/-- A live thread's responsibility for an attempt.  It is `checked` once the thread has found
that the Work is not cancelled and is about to record the success of the attempt. -/
structure Owner where
  id : CString
  number : Int32
  checked : Bool

/-- The attempt of an owner. -/
def Owner.key (o : Owner) : CString × Int32 := (o.id, o.number)

/-- The actions by which an owner ends its attempt.  Success takes a check. -/
def Owner.Ends (o : Owner) : WorkAction → Prop
  | .finish attemptState workState _ number _ =>
      number = o.number
        ∧ (attemptState = .succeeded ∧ workState = .succeeded ∧ o.checked = true
          ∨ attemptState = .cancelled ∧ workState = .cancelled)
  | .failAttempt attemptState _ number _ => number = o.number ∧ attemptState ≠ .running
  | _ => False

/-- The actions that neither start nor end an attempt. -/
def WorkAction.Quiet : WorkAction → Prop
  | .expire _ | .fail _ | .cancel | .acknowledge => True
  | _ => False

namespace Ledger

/-- The steps of the ledger, where `picked` says with which engine and which model a Work may be
started. -/
inductive Step (picked : CString → CString → CString → Prop) (s : Store) :
    List Owner → Store → List Owner → Prop where
  /-- Owners go on or go away.  An owner becomes checked when its Work is not cancelled. -/
  | pass {owners owners' : List Owner}
      (hkeys : (owners'.map Owner.key).Sublist (owners.map Owner.key))
      (hchecked : ∀ o ∈ owners', o.checked = true →
        o ∈ owners ∨ ∀ w, s.row? o.id = some w → w.cancelRequested = false) :
      Step picked s owners s owners'
  /-- A new Work is queued. -/
  | insert {owners : List Owner} {s' : Store} (row : Row) (hnew : s.row? row.id = none)
      (hchecked : row.checked) (hstate : row.state = .queued) (hcount : row.attemptCount = 0)
      (hcancel : row.cancelRequested = false)
      (h : ∀ j, s'.view j = if j = row.id then ⟨some row, s.attemptsOf j⟩ else s.view j) :
      Step picked s owners s' owners
  /-- A quiet action on one Work. -/
  | act {owners : List Owner} {s' : Store} {a : WorkAction} {id : CString} (h : a.ActsAt id s s')
      (ha : a.Quiet) : Step picked s owners s' owners
  /-- A quiet action on every Work. -/
  | actAll {owners : List Owner} {s' : Store} {a : WorkAction} (h : a.ActsEverywhere s s')
      (ha : a.Quiet) : Step picked s owners s' owners
  /-- A queued Work is started, and its attempt has an owner. -/
  | start {owners : List Owner} {s' : Store} {w : Row} {id engineId modelId : CString}
      {startedAtMs : Int64} (hrow : s.row? id = some w) (hstart : WorkAction.startable w = true)
      (hpicked : picked id engineId modelId)
      (h : WorkAction.ActsAt (.start engineId modelId startedAtMs) id s s') :
      Step picked s owners s' (owners ++ [⟨id, w.attemptCount + 1, false⟩])
  /-- An owner ends its attempt. -/
  | finish {before after : List Owner} {s' : Store} {o : Owner} {a : WorkAction}
      (h : a.ActsAt o.id s s') (ha : o.Ends a) :
      Step picked s (before ++ o :: after) s' (before ++ after)
  /-- A restart recovers the Works that are running. -/
  | recover {s' : Store} {nowMs : Int64} (h : WorkAction.ActsEverywhere (.recover nowMs) s s') :
      Step picked s [] s' []

/-- The attempt of an owner is the running attempt of its Work. -/
def Owned (s : Store) (o : Owner) : Prop :=
  ∃ w, s.row? o.id = some w ∧ w.state = .running ∧ w.attemptCount = o.number

/-- Every Work is accounted, no Work has two owners, and owners own running attempts. -/
structure Valid (s : Store) (owners : List Owner) : Prop where
  accounted : ∀ id, (s.view id).Accounted
  distinct : (owners.map Owner.id).Nodup
  owned : ∀ o ∈ owners, Owned s o

theorem map_id_eq (owners : List Owner) :
  owners.map Owner.id = (owners.map Owner.key).map Prod.fst
  := by
  rw [List.map_map]
  rfl

/-- Owners of rows that a step leaves alone stay owners. -/
theorem owned_of_view
    {s s' : Store} {o : Owner} (h : Owned s o) (hview : s'.view o.id = s.view o.id) :
  Owned s' o
  := by
  obtain ⟨w, hrow, hrunning, hcount⟩ := h
  exact ⟨w, (congrArg WorkView.row? hview).trans hrow, hrunning, hcount⟩

/-- A quiet action leaves a running Work running, at the same attempt. -/
theorem quiet_running {a : WorkAction} (ha : a.Quiet) {v : WorkView} {w : Row} (hrow : v.row? = some w)
    (hrunning : w.state = .running) :
  ∃ w', (a.apply v).row? = some w' ∧ w'.state = .running ∧ w'.attemptCount = w.attemptCount
  := by
  cases a with
  | expire nowMs =>
      simp only [WorkAction.apply, hrow, Option.map_some, WorkStore.expired, hrunning, reduceCtorEq,
        decide_false, Bool.false_and, Bool.false_eq_true, if_false]
      exact ⟨w, rfl, hrunning, rfl⟩
  | fail technicalFailure =>
      simp only [WorkAction.apply, WorkView.editIn, hrow, Option.map_some, hrunning, reduceCtorEq,
        if_false]
      exact ⟨w, rfl, hrunning, rfl⟩
  | cancel =>
      simp only [WorkAction.apply, WorkView.editIn, hrow, Option.map_some, hrunning, if_true,
        WorkStore.requestCancel, reduceCtorEq, if_false]
      exact ⟨_, rfl, rfl, rfl⟩
  | acknowledge =>
      simp only [WorkAction.apply, hrow, Option.map_some, hrunning, reduceCtorEq, false_and,
        if_false]
      exact ⟨w, rfl, hrunning, rfl⟩
  | start => cases ha
  | finish => cases ha
  | failAttempt => cases ha
  | recover => cases ha

theorem owned_of_quiet {s s' : Store} {a : WorkAction} (ha : a.Quiet) {o : Owner} (h : Owned s o)
    (hview : s'.view o.id = a.apply (s.view o.id)) :
  Owned s' o
  := by
  obtain ⟨w, hrow, hrunning, hcount⟩ := h
  obtain ⟨w', hrow', hrunning', hcount'⟩ := quiet_running ha (v := s.view o.id) hrow hrunning
  exact ⟨w', (congrArg WorkView.row? hview).trans hrow', hrunning', hcount'.trans hcount⟩

theorem WorkAction.Quiet.current {a : WorkAction} (ha : a.Quiet) (v : WorkView) :
  a.Current v
  := by
  cases a with
  | finish => cases ha
  | failAttempt => cases ha
  | _ => trivial

/-- The end of an attempt by its owner is about the running attempt. -/
theorem Ends.current {o : Owner} {a : WorkAction} (ha : o.Ends a) {s : Store} (ho : Owned s o) :
  a.Current (s.view o.id)
  := by
  obtain ⟨w, hrow, hrunning, hcount⟩ := ho
  cases a with
  | finish attemptState workState technicalFailure number endedAtMs =>
      obtain ⟨rfl, hverdict⟩ := ha
      refine ⟨?_, w, hrow, hrunning, hcount⟩
      rcases hverdict with ⟨rfl, rfl, -⟩ | ⟨rfl, rfl⟩
      · exact Or.inl ⟨rfl, rfl⟩
      · exact Or.inr ⟨rfl, rfl⟩
  | failAttempt attemptState technicalFailure number endedAtMs =>
      obtain ⟨rfl, hstate⟩ := ha
      refine ⟨hstate, ?_⟩
      intro w' hrow' _
      have hsame : some w' = some w := hrow'.symm.trans hrow
      cases hsame
      exact hcount
  | _ => cases ha

/-- A Work that is inserted has an account without attempts. -/
theorem accounted_insert {row : Row} (hchecked : row.checked) (hstate : row.state = .queued)
    (hcount : row.attemptCount = 0) (hcancel : row.cancelRequested = false) :
  WorkView.RowAccounted row []
  := by
  have hzero : row.attemptCount.toInt = 0 := by
    rw [hcount]
    rfl
  have hmax : 1 ≤ row.maxAttempts.toInt := Int32.le_iff_toInt_le.mp hchecked.1
  constructor
  · simp [numbersTo, hzero]
  · omega
  · omega
  · intro _
    exact ⟨by omega, hcancel⟩
  · intro hrunning
    rw [hstate] at hrunning
    cases hrunning
  · simp
  · intro hsucceeded
    rw [hstate] at hsucceeded
    cases hsucceeded

/-- An action on one Work keeps the accounts of all. -/
theorem accounted_of_actsAt
    {s s' : Store} {a : WorkAction} {id : CString} (h : a.ActsAt id s s')
    (ha : a.Current (s.view id)) (haccounted : ∀ j, (s.view j).Accounted) :
  ∀ j, (s'.view j).Accounted
  := by
  intro j
  rw [h j]
  split_ifs with hj
  · subst hj
    apply WorkAction.apply_accounted ha (haccounted j)
  · apply haccounted

/-- An action on every Work keeps the accounts of all. -/
theorem accounted_of_actsEverywhere
    {s s' : Store} {a : WorkAction} (h : a.ActsEverywhere s s')
    (ha : ∀ j, a.Current (s.view j)) (haccounted : ∀ j, (s.view j).Accounted) :
  ∀ j, (s'.view j).Accounted
  := by
  intro j
  rw [h j]
  apply WorkAction.apply_accounted (ha j) (haccounted j)

section Valid

variable {s s' : Store} {owners owners' : List Owner}

/-- Owners that go on or go away leave the ledger valid. -/
theorem Valid.pass
    (h : Valid s owners) (hkeys : (owners'.map Owner.key).Sublist (owners.map Owner.key)) :
  Valid s owners'
  := by
  refine ⟨h.accounted, ?_, ?_⟩
  · have hdistinct := h.distinct
    rw [map_id_eq] at hdistinct ⊢
    apply hdistinct.sublist (hkeys.map _)
  · intro o ho
    obtain ⟨o', ho', hkey⟩ := List.mem_map.mp (hkeys.subset (List.mem_map_of_mem ho))
    obtain ⟨w, hrow, hrunning, hcount⟩ := h.owned o' ho'
    have hid : o'.id = o.id := congrArg Prod.fst hkey
    have hnumber : o'.number = o.number := congrArg Prod.snd hkey
    rw [hid] at hrow
    exact ⟨w, hrow, hrunning, hcount.trans hnumber⟩

/-- A new Work that is queued leaves the ledger valid. -/
theorem Valid.insert
    {row : Row} (hvalid : Valid s owners) (hnew : s.row? row.id = none) (hchecked : row.checked)
    (hstate : row.state = .queued) (hcount : row.attemptCount = 0)
    (hcancel : row.cancelRequested = false)
    (h : ∀ j, s'.view j = if j = row.id then ⟨some row, s.attemptsOf j⟩ else s.view j) :
  Valid s' owners
  := by
  refine ⟨?_, hvalid.distinct, ?_⟩
  · intro id
    rw [h id]
    split_ifs with hid
    · have hnone := (hvalid.accounted row.id).of_none hnew
      subst hid
      have hattempts : s.attemptsOf row.id = [] := hnone
      rw [hattempts]
      apply accounted_insert hchecked hstate hcount hcancel
    · apply hvalid.accounted
  · intro o ho
    apply owned_of_view (hvalid.owned o ho)
    rw [h, if_neg]
    intro hid
    obtain ⟨w, hrow, -⟩ := hvalid.owned o ho
    rw [hid, hnew] at hrow
    cases hrow

/-- Owners stay owners when a quiet action is done on a Work. -/
theorem Valid.act
    {a : WorkAction} {id : CString} (hvalid : Valid s owners) (h : a.ActsAt id s s')
    (ha : a.Quiet) :
  Valid s' owners
  := by
  refine ⟨?_, hvalid.distinct, ?_⟩
  · apply accounted_of_actsAt h (WorkAction.Quiet.current ha _) hvalid.accounted
  · intro o ho
    by_cases hid : o.id = id
    · apply owned_of_quiet ha (hvalid.owned o ho) ((h o.id).trans (if_pos hid))
    · apply owned_of_view (hvalid.owned o ho) ((h o.id).trans (if_neg hid))

/-- Owners stay owners when a quiet action is done on every Work. -/
theorem Valid.actAll
    {a : WorkAction} (hvalid : Valid s owners) (h : a.ActsEverywhere s s') (ha : a.Quiet) :
  Valid s' owners
  := by
  refine ⟨?_, hvalid.distinct, ?_⟩
  · apply accounted_of_actsEverywhere h (fun j => WorkAction.Quiet.current ha _) hvalid.accounted
  · intro o ho
    apply owned_of_quiet ha (hvalid.owned o ho) (h o.id)

/-- A queued Work has no owner, so that its new attempt can have one. -/
theorem Valid.start
    {w : Row} {id engineId modelId : CString} {startedAtMs : Int64} (hvalid : Valid s owners)
    (hrow : s.row? id = some w) (hstart : WorkAction.startable w = true)
    (h : WorkAction.ActsAt (.start engineId modelId startedAtMs) id s s') :
  Valid s' (owners ++ [⟨id, w.attemptCount + 1, false⟩])
  := by
  have hqueued := WorkAction.state_of_startable hstart
  have hfresh : ∀ o ∈ owners, o.id ≠ id := by
    rintro o ho rfl
    obtain ⟨w', hrow', hrunning, -⟩ := hvalid.owned o ho
    rw [hrow] at hrow'
    cases hrow'
    rw [hqueued] at hrunning
    cases hrunning
  refine ⟨?_, ?_, ?_⟩
  · apply accounted_of_actsAt h trivial hvalid.accounted
  · rw [List.map_append, List.map_singleton, ← List.concat_eq_append]
    apply hvalid.distinct.concat
    intro hmem
    obtain ⟨o, ho, hid⟩ := List.mem_map.mp hmem
    apply hfresh o ho hid
  · intro o ho
    rcases List.mem_append.mp ho with ho | ho
    · apply owned_of_view (hvalid.owned o ho) ((h o.id).trans (if_neg (hfresh o ho)))
    · rw [List.mem_singleton.mp ho]
      have hview := (h id).trans (if_pos rfl)
      have hrow' : (s.view id).row? = some w := hrow
      simp only [WorkAction.apply, hrow', hstart, if_true] at hview
      exact ⟨_, congrArg WorkView.row? hview, rfl, rfl⟩

/-- An owner that ends its attempt goes away, and the others stay. -/
theorem Valid.finish
    {before after : List Owner} {o : Owner} {a : WorkAction}
    (hvalid : Valid s (before ++ o :: after)) (h : a.ActsAt o.id s s') (ha : o.Ends a) :
  Valid s' (before ++ after)
  := by
  have hdistinct := hvalid.distinct
  rw [List.map_append, List.map_cons, List.nodup_middle, List.nodup_cons, ← List.map_append]
    at hdistinct
  refine ⟨?_, hdistinct.2, ?_⟩
  · apply accounted_of_actsAt h (Ends.current ha (hvalid.owned o (by simp))) hvalid.accounted
  · intro o' ho'
    have hne : o'.id ≠ o.id := by
      intro hid
      apply hdistinct.1
      rw [← hid]
      apply List.mem_map_of_mem ho'
    have hmem : o' ∈ before ++ o :: after := by
      simp only [List.mem_append, List.mem_cons] at ho' ⊢
      tauto
    apply owned_of_view (hvalid.owned o' hmem) ((h o'.id).trans (if_neg hne))

end Valid

/-- The steps of the ledger keep it valid. -/
theorem Step.valid
    {picked : CString → CString → CString → Prop} {s s' : Store} {owners owners' : List Owner}
    (h : Step picked s owners s' owners') (hvalid : Valid s owners) :
  Valid s' owners'
  := by
  cases h with
  | pass hkeys hchecked => exact hvalid.pass hkeys
  | insert row hnew hchecked hstate hcount hcancel h =>
      exact hvalid.insert hnew hchecked hstate hcount hcancel h
  | act h ha => exact hvalid.act h ha
  | actAll h ha => exact hvalid.actAll h ha
  | start hrow hstart hpicked h => exact hvalid.start hrow hstart h
  | finish h ha => exact hvalid.finish h ha
  | recover h =>
      exact ⟨accounted_of_actsEverywhere h (fun _ => trivial) hvalid.accounted, List.nodup_nil,
        by simp⟩

end Ledger
