import MadreKernel.Pool.WorkerPool

/-!
# What the operations of the pool leave

Whatever an operation does, each worker stays a worker of its engine, and a worker that leaves
the vector has no process any more.  `acquire` hands out an idle worker of the engine whose
process runs, or a new one.
-/

namespace Kernel

namespace Pool

/-- Every worker was started from the launch spec of its engine, and the workers outside the
vector have no process. -/
structure Sound (p : Pool) : Prop where
  spec : ∀ i < p.count, p.launchSpecs.find? (p.worker i).engineId = some (p.worker i).launch
  gone : ∀ i, i ∉ p.members → (p.worker i).child = none

/-- What every change of a pool keeps. -/
structure Changed (p p' : Pool) : Prop where
  launchSpecs : p'.launchSpecs = p.launchSpecs
  idleTimeoutMs : p'.idleTimeoutMs = p.idleTimeoutMs
  count_le : p.count ≤ p'.count
  later : ∀ i < p.count, (p.worker i).Later (p'.worker i)
  sound : p.Sound → p'.Sound

/-- What every operation of the pool leaves. -/
structure Operated (p p' : Pool) : Prop where
  launchSpecs : p'.launchSpecs = p.launchSpecs
  idleTimeoutMs : p'.idleTimeoutMs = p.idleTimeoutMs
  count_le : p.count ≤ p'.count
  handled : ∀ i < p.count, (p.worker i).Handled (p'.worker i)
  sound : p.Sound → p'.Sound

theorem Operated.changed {p p' : Pool} (h : Operated p p') :
  Changed p p'
  := ⟨h.launchSpecs, h.idleTimeoutMs, h.count_le, fun i hi => (h.handled i hi).later, h.sound⟩

/-- The visits of a loop: a worker is kept as it is, erased once it has no process, or the one
that the loop stops at. -/
def Gentle (visit : Worker → Worker × Next) : Prop :=
  ∀ w : Worker, visit w = (w, .keep)
    ∨ (∃ busy, visit w = ({ w with busy := busy }, .stop))
    ∨ (∃ status, visit w = ({ w with child := none, lastWaitStatus := status }, .erase))

theorem sound_create
    {launchSpecs : SortedMap Bytes WorkerLaunchSpec} {idleTimeoutMs : Int64} {p : Pool}
    (h : create launchSpecs idleTimeoutMs = .ok p) :
  p.Sound ∧ p.count = 0 ∧ ∀ i, p.worker i = .vacant
  := by
  rw [create] at h
  split_ifs at h
  cases h
  refine ⟨⟨?_, fun _ _ => rfl⟩, rfl, fun _ => rfl⟩
  intro i hi
  exact absurd hi (Nat.not_lt_zero i)

/-! ### Loops -/

theorem gentle_visitForWarm (engineId : Bytes) :
  Gentle (visitForWarm engineId)
  := by
  intro w
  cases hrun : w.running with
  | true =>
      rw [visitForWarm_running hrun]
      split_ifs
      · exact Or.inr (Or.inl ⟨w.busy, rfl⟩)
      · exact Or.inl rfl
  | false =>
      obtain ⟨status, halive⟩ := Worker.alive_of_not_running hrun
      rw [visitForWarm, halive]
      exact Or.inr (Or.inr ⟨status, rfl⟩)

theorem gentle_visitToReap (currentMs idleTimeoutMs : Int64) :
  Gentle (visitToReap currentMs idleTimeoutMs)
  := by
  intro w
  cases hrun : w.running with
  | true =>
      rw [visitToReap, Worker.alive_of_running hrun]
      simp only
      split_ifs
      · obtain ⟨status, hterminate⟩ := w.terminate_eq
        exact Or.inr (Or.inr ⟨status, by rw [hterminate]⟩)
      · exact Or.inl rfl
  | false =>
      obtain ⟨status, halive⟩ := Worker.alive_of_not_running hrun
      rw [visitToReap, halive]
      exact Or.inr (Or.inr ⟨status, rfl⟩)

theorem gentle_visitToAcquire (engineId : Bytes) :
  Gentle (visitToAcquire engineId)
  := by
  intro w
  rw [visitToAcquire]
  split_ifs with hbusy
  · exact Or.inl rfl
  · cases hrun : w.running with
    | true =>
        rw [Worker.alive_of_running hrun]
        simp only
        split_ifs
        · exact Or.inr (Or.inl ⟨true, rfl⟩)
        · exact Or.inl rfl
    | false =>
        obtain ⟨status, halive⟩ := Worker.alive_of_not_running hrun
        rw [halive]
        exact Or.inr (Or.inr ⟨status, rfl⟩)

theorem Gentle.handled {visit : Worker → Worker × Next} (h : Gentle visit) (w : Worker) :
  w.Handled (visit w).1
  := by
  rcases h w with hw | ⟨busy, hw⟩ | ⟨status, hw⟩
  · rw [hw]
    exact Worker.Handled.refl w
  · rw [hw]
    exact Worker.Handled.marked w busy w.lastUsedMs
  · rw [hw]
    exact Worker.Handled.ended w status

theorem Gentle.erased
    {visit : Worker → Worker × Next} (h : Gentle visit) {w : Worker}
    (herase : (visit w).2 = .erase) :
  (visit w).1.child = none
  := by
  rcases h w with hw | ⟨busy, hw⟩ | ⟨status, hw⟩
  · rw [hw] at herase
    cases herase
  · rw [hw] at herase
    cases herase
  · rw [hw]

theorem Gentle.sameUse
    {visit : Worker → Worker × Next} (h : Gentle visit) {w : Worker} (hgo : (visit w).2 ≠ .stop) :
  w.SameUse (visit w).1
  := by
  rcases h w with hw | ⟨busy, hw⟩ | ⟨status, hw⟩
  · rw [hw]
    exact ⟨rfl, rfl⟩
  · rw [hw] at hgo
    exact absurd rfl hgo
  · rw [hw]
    exact ⟨rfl, rfl⟩

theorem Gentle.lastUsedMs {visit : Worker → Worker × Next} (h : Gentle visit) (w : Worker) :
  (visit w).1.lastUsedMs = w.lastUsedMs
  := by
  rcases h w with hw | ⟨busy, hw⟩ | ⟨status, hw⟩
  · rw [hw]
  · rw [hw]
  · rw [hw]

/-- What `acquire` does with a worker that it stops at. -/
theorem visitToAcquire_stop
    {engineId : Bytes} {w : Worker} (h : (visitToAcquire engineId w).2 = .stop) :
  w.busy = false ∧ w.running = true ∧ w.engineId = engineId
    ∧ (visitToAcquire engineId w).1 = { w with busy := true }
  := by
  rw [visitToAcquire] at h ⊢
  split_ifs at h ⊢ with hbusy
  cases hrun : w.running with
  | true =>
      rw [Worker.alive_of_running hrun] at h ⊢
      by_cases hengine : w.engineId = engineId
      · simp only [hengine, if_true]
        exact ⟨by simpa using hbusy, trivial, trivial, trivial⟩
      · simp [hengine] at h
  | false =>
      obtain ⟨status, halive⟩ := Worker.alive_of_not_running hrun
      rw [halive] at h
      cases h

theorem Scanned.operated
    {visit : Worker → Worker × Next} {l : List Nat} {p p' : Pool} {found : Option Nat}
    (h : Scanned visit l p found p') (hvisit : Gentle visit) :
  Operated p p'
  := by
  have hhandled : ∀ i, (p.worker i).Handled (p'.worker i) := by
    intro i
    rw [h.worker]
    split_ifs
    · apply hvisit.handled
    · apply Worker.Handled.refl
  refine ⟨h.launchSpecs, h.idleTimeoutMs, h.count.ge, fun i _ => hhandled i, ?_⟩
  intro hsound
  constructor
  · intro i hi
    rw [h.launchSpecs, (hhandled i).later.engineId, (hhandled i).later.launch]
    apply hsound.spec
    rw [← h.count]
    exact hi
  · intro i hi
    by_cases hmember : i ∈ p.members
    · rw [h.members, not_and] at hi
      have herased := hi hmember
      push Not at herased
      rw [h.worker, if_pos herased.1]
      exact hvisit.erased herased.2
    · exact (hhandled i).later.gone (hsound.gone i hmember)

/-- A loop changes the use of the worker that it stops at only. -/
theorem Scanned.sameUse
    {visit : Worker → Worker × Next} {l : List Nat} {p p' : Pool} {found : Option Nat}
    (h : Scanned visit l p found p') (hvisit : Gentle visit) {i : Nat} (hi : found ≠ some i) :
  (p.worker i).SameUse (p'.worker i)
  := by
  rw [h.worker]
  split_ifs with hreached
  · apply hvisit.sameUse
    intro hstop
    exact hi ((h.stopped i).mpr ⟨hreached, hstop⟩)
  · exact ⟨rfl, rfl⟩

theorem Scanned.lastUsedMs
    {visit : Worker → Worker × Next} {l : List Nat} {p p' : Pool} {found : Option Nat}
    (h : Scanned visit l p found p') (hvisit : Gentle visit) (i : Nat) :
  (p'.worker i).lastUsedMs = (p.worker i).lastUsedMs
  := by
  rw [h.worker]
  split_ifs
  · apply hvisit.lastUsedMs
  · rfl

/-! ### Changes of a pool -/

theorem Operated.refl (p : Pool) :
  Operated p p
  := ⟨rfl, rfl, le_rfl, fun _ _ => Worker.Handled.refl _, id⟩

theorem Operated.trans {p p' p'' : Pool} (h : Operated p p') (h' : Operated p' p'') :
  Operated p p''
  where
  launchSpecs := h'.launchSpecs.trans h.launchSpecs
  idleTimeoutMs := h'.idleTimeoutMs.trans h.idleTimeoutMs
  count_le := h.count_le.trans h'.count_le
  handled i hi := (h.handled i hi).trans (h'.handled i (hi.trans_le h.count_le))
  sound hsound := h'.sound (h.sound hsound)

/-- A worker that is replaced by what it is later. -/
theorem sound_put {p : Pool} {i : Nat} {w : Worker} (h : (p.worker i).Later w) (hsound : p.Sound) :
  (p.put i w).Sound
  := by
  have hlater : ∀ j, (p.worker j).Later ((p.put i w).worker j) := by
    intro j
    by_cases hj : j = i
    · subst hj
      simpa [put] using h
    · simp only [put, Function.update_of_ne hj]
      apply Worker.Later.refl
  constructor
  · intro j hj
    rw [(hlater j).engineId, (hlater j).launch]
    exact hsound.spec j hj
  · intro j hj
    exact (hlater j).gone (hsound.gone j hj)

theorem operated_put {p : Pool} {i : Nat} {w : Worker} (h : (p.worker i).Handled w) :
  Operated p (p.put i w)
  := by
  refine ⟨rfl, rfl, le_rfl, ?_, sound_put h.later⟩
  intro j _
  by_cases hj : j = i
  · subst hj
    simpa [put] using h
  · simp only [put, Function.update_of_ne hj]
    apply Worker.Handled.refl

theorem changed_put {p : Pool} {i : Nat} {w : Worker} (h : (p.worker i).Later w) :
  Changed p (p.put i w)
  := by
  refine ⟨rfl, rfl, le_rfl, ?_, sound_put h⟩
  intro j _
  by_cases hj : j = i
  · subst hj
    simpa [put] using h
  · simp only [put, Function.update_of_ne hj]
    apply Worker.Later.refl

theorem operated_erase {p : Pool} {i : Nat} (h : (p.worker i).child = none) :
  Operated p (p.erase i)
  := by
  refine ⟨rfl, rfl, le_rfl, fun j _ => Worker.Handled.refl _, ?_⟩
  intro hsound
  refine ⟨hsound.spec, ?_⟩
  intro j hj
  by_cases hji : j = i
  · rw [hji]
    exact h
  · apply hsound.gone
    intro hmember
    exact hj ((List.mem_erase_of_ne hji).mpr hmember)

theorem operated_add
    {p : Pool} {w : Worker} (h : p.launchSpecs.find? w.engineId = some w.launch) :
  Operated p (p.add w)
  := by
  have hold : ∀ i, i ≠ p.count → (p.add w).worker i = p.worker i := by
    intro i hi
    simp only [add, Function.update_of_ne hi]
  have hnew : (p.add w).worker p.count = w := by
    simp [add]
  refine ⟨rfl, rfl, Nat.le_succ _, ?_, ?_⟩
  · intro i hi
    rw [hold i hi.ne]
    apply Worker.Handled.refl
  · intro hsound
    constructor
    · intro i hi
      by_cases hnewest : i = p.count
      · rw [hnewest, hnew]
        exact h
      · rw [hold i hnewest]
        exact hsound.spec i (lt_of_le_of_ne (Nat.lt_succ_iff.mp hi) hnewest)
    · intro i hi
      simp only [add, List.mem_append, List.mem_singleton, not_or] at hi
      rw [hold i hi.2]
      exact hsound.gone i hi.1

/-! ### The operations -/

theorem operated_isWarm (p : Pool) (engineId : Bytes) :
  Operated p (p.isWarm engineId).2
  := (scan_scanned (visitForWarm engineId) p p.nodup).operated (gentle_visitForWarm engineId)

theorem isWarm_count (p : Pool) (engineId : Bytes) :
  (p.isWarm engineId).2.count = p.count
  := (scan_scanned (visitForWarm engineId) p p.nodup).count

theorem isWarm_sameUse (p : Pool) (engineId : Bytes) (i : Nat) :
  (p.worker i).SameUse ((p.isWarm engineId).2.worker i)
  := by
  have hscan := scan_scanned (visitForWarm engineId) p p.nodup
  rw [isWarm, hscan.worker]
  split_ifs
  · cases hrun : (p.worker i).running with
    | true =>
        rw [visitForWarm_running hrun]
        exact ⟨rfl, rfl⟩
    | false =>
        apply (gentle_visitForWarm engineId).sameUse
        rw [visitForWarm_not_running hrun]
        simp
  · exact ⟨rfl, rfl⟩

theorem operated_reapIdle (p : Pool) (currentMs : Int64) :
  Operated p (p.reapIdle currentMs)
  := (scan_scanned _ p p.nodup).operated (gentle_visitToReap currentMs p.idleTimeoutMs)

theorem reapIdle_count (p : Pool) (currentMs : Int64) :
  (p.reapIdle currentMs).count = p.count
  := (scan_scanned (visitToReap currentMs p.idleTimeoutMs) p p.nodup).count

theorem reapIdle_sameUse (p : Pool) (currentMs : Int64) (i : Nat) :
  (p.worker i).SameUse ((p.reapIdle currentMs).worker i)
  := by
  have hscan := scan_scanned (visitToReap currentMs p.idleTimeoutMs) p p.nodup
  apply hscan.sameUse (gentle_visitToReap currentMs p.idleTimeoutMs)
  intro hfound
  exact visitToReap_ne_stop _ _ _ ((hscan.stopped i).mp hfound).2

theorem operated_shutdown (p : Pool) :
  Operated p p.shutdown
  := by
  have hhandled : ∀ i, (p.worker i).Handled (p.shutdown.worker i) := by
    intro i
    simp only [shutdown]
    split_ifs
    · exact (p.worker i).terminate_handled
    · apply Worker.Handled.refl
  refine ⟨rfl, rfl, le_rfl, fun i _ => hhandled i, ?_⟩
  intro hsound
  constructor
  · intro i hi
    rw [(hhandled i).later.engineId, (hhandled i).later.launch]
    exact hsound.spec i hi
  · intro i _
    simp only [shutdown]
    split_ifs with hmember
    · apply Worker.terminate_child
    · exact hsound.gone i hmember

theorem shutdown_sameUse (p : Pool) (i : Nat) :
  (p.worker i).SameUse (p.shutdown.worker i)
  := by
  simp only [shutdown]
  split_ifs
  · exact (p.worker i).terminate_later.2
  · exact ⟨rfl, rfl⟩

theorem operated_release (p : Pool) (i : Nat) (nowMs : Int64) :
  Operated p (p.release i nowMs)
  := by
  rw [release]
  split_ifs with hi
  · have hmarked := Worker.Handled.marked (p.worker i) false nowMs
    cases hrun : Worker.running { p.worker i with busy := false, lastUsedMs := nowMs } with
    | true =>
        rw [Worker.alive_of_running hrun]
        exact operated_put hmarked
    | false =>
        obtain ⟨status, halive⟩ := Worker.alive_of_not_running hrun
        rw [halive]
        apply (operated_put (hmarked.trans (Worker.Handled.ended _ status))).trans
        apply operated_erase
        simp [put]
  · exact Operated.refl p

theorem release_count (p : Pool) (i : Nat) (nowMs : Int64) :
  (p.release i nowMs).count = p.count
  := by
  rw [release]
  split_ifs
  · split <;> rfl
  · rfl

/-- `release` changes the released worker only. -/
theorem release_worker_of_ne {p : Pool} {i j : Nat} (h : j ≠ i) (nowMs : Int64) :
  (p.release i nowMs).worker j = p.worker j
  := by
  rw [release]
  split_ifs with hi
  · split <;> simp [put, erase, h]
  · rfl

/-- `release` records the time at which the released worker was last used. -/
theorem release_lastUsedMs (p : Pool) (i : Nat) (nowMs : Int64) (j : Nat) :
  ((p.release i nowMs).worker j).lastUsedMs = (p.worker j).lastUsedMs
    ∨ ((p.release i nowMs).worker j).lastUsedMs = nowMs
  := by
  by_cases hj : j = i
  · subst hj
    rw [release]
    split_ifs
    · right
      cases hrun : Worker.running { p.worker j with busy := false, lastUsedMs := nowMs } with
      | true =>
          rw [Worker.alive_of_running hrun]
          simp [put]
      | false =>
          obtain ⟨status, halive⟩ := Worker.alive_of_not_running hrun
          rw [halive]
          simp [put, erase]
    · exact Or.inl rfl
  · left
    rw [release_worker_of_ne hj]

/-- What `acquire` hands out: an idle worker of the engine whose process runs, or a new
worker. -/
structure Acquired (p : Pool) (engineId : Bytes) (i : Nat) (p' : Pool) : Prop where
  source : ((p.worker i).busy = false ∧ (p.worker i).running = true ∧ i < p.count
      ∧ p'.count = p.count ∧ p'.worker i = { p.worker i with busy := true })
    ∨ (i = p.count ∧ p'.count = p.count + 1
      ∧ ∃ launch pid inputFd outputFd nowMs, p'.worker i
        = { Worker.spawn launch engineId pid inputFd outputFd nowMs with busy := true })
  engine : (p'.worker i).engineId = engineId
  spec : p.launchSpecs.find? engineId = some (p'.worker i).launch
  sameUse : ∀ j, j ≠ i → (p.worker j).SameUse (p'.worker j)

theorem Acquired.lt
    {p p' : Pool} {engineId : Bytes} {i : Nat} (h : Acquired p engineId i p') :
  i < p'.count
  := by
  rcases h.source with ⟨-, -, hlt, hcount, -⟩ | ⟨hnew, hcount, -⟩
  · exact hlt.trans_le hcount.ge
  · rw [hcount, hnew]
    exact Nat.lt_succ_self _

/-- `acquire` finds an idle worker. -/
theorem acquired_of_scan
    {p p' : Pool} {engineId : Bytes} {i : Nat} (hsound : p.Sound)
    (h : Scanned (visitToAcquire engineId) p.members p (some i) p') :
  Acquired p engineId i p'
  := by
  obtain ⟨hreached, hstop⟩ := (h.stopped i).mp rfl
  obtain ⟨hbusy, hrun, hengine, hworker⟩ := visitToAcquire_stop hstop
  have hi : i < p.count := p.constructed i (reached_subset hreached)
  have hw : p'.worker i = { p.worker i with busy := true } := by
    rw [h.worker, if_pos hreached, hworker]
  constructor
  · exact Or.inl ⟨hbusy, hrun, hi, h.count, hw⟩
  · rw [hw]
    exact hengine
  · rw [hw, ← hengine]
    exact hsound.spec i hi
  · intro j hj
    apply h.sameUse (gentle_visitToAcquire engineId)
    rw [ne_eq, Option.some_inj]
    exact hj.symm

/-- `acquire` starts a new worker. -/
theorem acquired_of_add
    {p p' : Pool} {engineId : Bytes} {launch : WorkerLaunchSpec} (pid inputFd outputFd : Nat)
    (nowMs : Int64) (h : Scanned (visitToAcquire engineId) p.members p none p')
    (hspec : p'.launchSpecs.find? engineId = some launch) :
  Acquired p engineId p'.count
    (p'.add { Worker.spawn launch engineId pid inputFd outputFd nowMs with busy := true })
  := by
  have hw : (p'.add { Worker.spawn launch engineId pid inputFd outputFd nowMs with
      busy := true }).worker p'.count
      = { Worker.spawn launch engineId pid inputFd outputFd nowMs with busy := true } := by
    simp [add]
  constructor
  · refine Or.inr ⟨h.count, ?_, launch, pid, inputFd, outputFd, nowMs, hw⟩
    simp [add, h.count]
  · rw [hw]
    rfl
  · rw [hw, ← h.launchSpecs]
    exact hspec
  · intro j hj
    simp only [add, Function.update_of_ne hj]
    apply h.sameUse (gentle_visitToAcquire engineId)
    simp

theorem acquire_spec
    {p : Pool} (hsound : p.Sound) (engineId : Bytes) (spawn : Spawn) :
  Operated p (p.acquire engineId spawn).2
  ∧ match (p.acquire engineId spawn).1 with
    | .ok i => Acquired p engineId i (p.acquire engineId spawn).2
    | .error _ => (p.acquire engineId spawn).2.count = p.count
        ∧ ∀ i, (p.worker i).SameUse ((p.acquire engineId spawn).2.worker i)
  := by
  have hscan := scan_scanned (visitToAcquire engineId) p p.nodup
  have hoperated := hscan.operated (gentle_visitToAcquire engineId)
  rw [acquire]
  split
  · rename_i i p' heq
    rw [heq] at hscan hoperated
    exact ⟨hoperated, acquired_of_scan hsound hscan⟩
  · rename_i p' heq
    rw [heq] at hscan hoperated
    have herror : p'.count = p.count ∧ ∀ i, (p.worker i).SameUse (p'.worker i) := by
      refine ⟨hscan.count, ?_⟩
      intro i
      apply hscan.sameUse (gentle_visitToAcquire engineId)
      simp
    split
    · exact ⟨hoperated, herror⟩
    · rename_i launch hspec
      split
      · exact ⟨hoperated, herror⟩
      · rename_i pid inputFd outputFd nowMs
        refine ⟨hoperated.trans (operated_add hspec), ?_⟩
        exact acquired_of_add pid inputFd outputFd nowMs hscan hspec

/-- A worker that `acquire` starts counts as last used then. -/
theorem acquire_lastUsedMs (p : Pool) (engineId : Bytes) (spawn : Spawn) (i : Nat) :
  ((p.acquire engineId spawn).2.worker i).lastUsedMs = (p.worker i).lastUsedMs
    ∨ ∃ pid inputFd outputFd,
      spawn = .started pid inputFd outputFd ((p.acquire engineId spawn).2.worker i).lastUsedMs
  := by
  have hscan := scan_scanned (visitToAcquire engineId) p p.nodup
  have hkept := hscan.lastUsedMs (gentle_visitToAcquire engineId) i
  rw [acquire]
  split
  · rename_i j p' heq
    rw [heq] at hkept
    exact Or.inl hkept
  · rename_i p' heq
    rw [heq] at hkept
    split
    · exact Or.inl hkept
    · split
      · exact Or.inl hkept
      · rename_i pid inputFd outputFd nowMs
        by_cases hi : i = p'.count
        · right
          use pid, inputFd, outputFd
          simp [add, hi, Worker.spawn]
        · left
          simp only [add, Function.update_of_ne hi]
          exact hkept

end Pool

end Kernel
