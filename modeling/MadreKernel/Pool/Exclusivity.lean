import MadreKernel.Pool.Runtime

/-!
# Leases are exclusive

In every reachable state of the runtime each worker is referred to by at most one lease, and a
worker with a lease is marked busy; so the pool hands out and reaps idle workers only.

How long a worker has been idle is a difference of two readings of the clock in 64 bits.  It is
exact when the clock reads no time before the epoch.
-/

namespace Kernel

namespace Runtime

structure Exclusive (r : Runtime) : Prop where
  sound : r.pool.Sound
  nodup : r.leases.owned.Nodup
  constructed : ∀ i ∈ r.leases.owned, i < r.pool.count
  busy : ∀ i ∈ r.leases.owned, (r.pool.worker i).busy = true
  leased : ∀ lease call, r.calls lease = some call → ∃ i, r.leases.get? lease = some (some i)

theorem exclusive_init {r : Runtime} (h : machine.init r) :
  r.Exclusive
  := by
  obtain ⟨launchSpecs, idleTimeoutMs, pool, hcreate, rfl⟩ := h
  refine ⟨(Pool.sound_create hcreate).1, List.nodup_nil, ?_, ?_, ?_⟩
  · intro i hi
    cases hi
  · intro i hi
    cases hi
  · intro lease call hcall
    cases hcall

/-- The pool is operated on, and the leases stay. -/
theorem Exclusive.operated
    {r : Runtime} {pool : Pool} (h : r.Exclusive) (hchanged : r.pool.Changed pool)
    (huse : ∀ i, (r.pool.worker i).SameUse (pool.worker i)) :
  Exclusive { r with pool := pool }
  where
  sound := hchanged.sound h.sound
  nodup := h.nodup
  constructed i hi := (h.constructed i hi).trans_le hchanged.count_le
  busy i hi := (huse i).1.trans (h.busy i hi)
  leased := h.leased

/-- The worker that `acquire` hands out has no lease yet. -/
theorem Exclusive.acquired_free
    {r : Runtime} {engineId : Bytes} {i : Nat} {pool : Pool} (h : r.Exclusive)
    (hacquired : r.pool.Acquired engineId i pool) :
  i ∉ r.leases.owned
  := by
  intro hi
  rcases hacquired.source with ⟨hidle, -⟩ | ⟨hnew, -⟩
  · rw [h.busy i hi] at hidle
    cases hidle
  · exact (h.constructed i hi).ne hnew

theorem Exclusive.acquired
    {r : Runtime} {engineId : Bytes} {i : Nat} {pool : Pool} (h : r.Exclusive)
    (hoperated : r.pool.Operated pool) (hacquired : r.pool.Acquired engineId i pool) :
  Exclusive { r with pool := pool, leases := r.leases.give i }
  := by
  have hfree := h.acquired_free hacquired
  constructor
  · exact hoperated.sound h.sound
  · rw [Handles.owned_give]
    apply h.nodup.append (List.nodup_singleton i)
    intro j hj hji
    rw [List.mem_singleton.mp hji] at hj
    exact hfree hj
  · intro j hj
    rw [Handles.owned_give, List.mem_append, List.mem_singleton] at hj
    rcases hj with hj | rfl
    · exact (h.constructed j hj).trans_le hoperated.count_le
    · exact hacquired.lt
  · intro j hj
    rw [Handles.owned_give, List.mem_append, List.mem_singleton] at hj
    rcases hj with hj | rfl
    · rw [(hacquired.sameUse j (by rintro rfl; exact hfree hj)).1]
      exact h.busy j hj
    · rcases hacquired.source with ⟨-, -, -, -, hw⟩ | ⟨-, -, launch, pid, inputFd, outputFd, t, hw⟩
      · rw [hw]
      · rw [hw]
  · intro lease call hcall
    obtain ⟨j, hj⟩ := h.leased lease call hcall
    exact ⟨j, Handles.get?_give_of_get? hj i⟩

/-- An operation on leases on which no call runs. -/
theorem Exclusive.leases
    {r : Runtime} {op : Handles.Operation} {leases : Handles Nat} {given : Option Nat}
    (h : r.Exclusive) (hfree : ∀ lease ∈ op.objects, r.calls lease = none)
    (hstep : r.leases.step op = some (leases, given)) :
  Exclusive { r with leases := leases } ∧ ∀ i ∈ given, i ∈ r.leases.owned ∧ i ∉ leases.owned
  := by
  have hperm := Handles.step_owned hstep
  have hnodup := hperm.nodup_iff.mpr h.nodup
  have hsubset : ∀ i ∈ leases.owned, i ∈ r.leases.owned := by
    intro i hi
    exact hperm.mem_iff.mp (List.mem_append_right _ hi)
  constructor
  · refine ⟨h.sound, (List.nodup_append.mp hnodup).2.1, fun i hi => h.constructed i (hsubset i hi),
      fun i hi => h.busy i (hsubset i hi), ?_⟩
    intro lease call hcall
    obtain ⟨i, hi⟩ := h.leased lease call hcall
    use i
    apply Handles.step_get? hstep _ hi
    intro hmem
    rw [hfree lease hmem] at hcall
    cases hcall
  · rintro i rfl
    have hi : i ∉ leases.owned := by
      apply (List.nodup_cons.mp hnodup).1
    exact ⟨hperm.mem_iff.mp (List.mem_append_left _ (List.mem_singleton_self i)), hi⟩

theorem Exclusive.released
    {r : Runtime} {i : Nat} (h : r.Exclusive) (hi : i ∉ r.leases.owned) (nowMs : Int64) :
  Exclusive { r with pool := r.pool.release i nowMs }
  := by
  have hoperated := Pool.operated_release r.pool i nowMs
  refine ⟨hoperated.sound h.sound, h.nodup,
    fun j hj => (h.constructed j hj).trans_le hoperated.count_le, ?_, h.leased⟩
  intro j hj
  have hne : j ≠ i := by
    rintro rfl
    exact hi hj
  rw [Pool.release_worker_of_ne hne]
  exact h.busy j hj

theorem Exclusive.executed
    {r : Runtime} {lease i : Nat} {c : Call} {phase : Phase} {input : Input} {w : Worker}
    {progress : Progress} (h : r.Exclusive) (hlease : r.leases.get? lease = some (some i))
    (hmoves : Execute.Moves c (r.pool.worker i) phase input w progress) :
  (r.progressed lease i c w progress).Exclusive
  := by
  obtain ⟨hlater, huse⟩ := hmoves.later
  constructor
  · rw [progressed_pool]
    exact Pool.sound_put hlater h.sound
  · rw [progressed_leases]
    exact h.nodup
  · rw [progressed_leases, progressed_pool]
    exact h.constructed
  · rw [progressed_leases, progressed_pool]
    intro j hj
    by_cases hji : j = i
    · subst hji
      simp only [Pool.put, Function.update_self]
      rw [huse.1]
      exact h.busy j hj
    · simp only [Pool.put, Function.update_of_ne hji]
      exact h.busy j hj
  · rw [progressed_leases]
    intro lease' call hcall
    by_cases hsame : lease' = lease
    · rw [hsame]
      exact ⟨i, hlease⟩
    · apply h.leased lease' call
      rw [← hcall]
      cases progress <;> simp [progressed, Function.update_of_ne hsame]

/-- A step keeps the leases exclusive. -/
theorem Exclusive.moves {r r' : Runtime} {e : Event} (h : r.Exclusive) (hmoves : Moves r e r') :
  r'.Exclusive
  := by
  cases hmoves with
  | operated hoperated hcount huse => exact h.operated hoperated.changed huse
  | acquired hoperated hacquired => exact h.acquired hoperated hacquired
  | leased hfree hstep => exact (h.leases hfree hstep).1
  | released hfree hstep =>
      obtain ⟨hleases, hgiven⟩ := h.leases hfree hstep
      exact hleases.released (hgiven _ rfl).2 _
  | acted hact =>
      rename_i i a w
      obtain ⟨hlater, huse⟩ := Worker.act_later hact
      apply h.operated (Pool.changed_put hlater)
      intro j
      by_cases hj : j = i
      · subst hj
        simpa [Pool.put] using huse
      · simp only [Pool.put, Function.update_of_ne hj]
        exact ⟨rfl, rfl⟩
  | called hlease hfree =>
      rename_i lease i payload attemptStartedAtMs stopAtMs timeoutWins
      refine ⟨h.sound, h.nodup, h.constructed, h.busy, ?_⟩
      intro lease' call hcall
      by_cases hsame : lease' = lease
      · rw [hsame]
        exact ⟨i, hlease⟩
      · simp only [Function.update_of_ne hsame] at hcall
        exact h.leased lease' call hcall
  | executed hlease hcall hmoves => exact h.executed hlease hmoves

theorem exclusive_of_reachable {r : Runtime} (h : machine.Reachable r) :
  r.Exclusive
  := by
  apply Machine.Reachable.invariant exclusive_init _ h
  intro r e r' _ hexclusive hstep
  exact hexclusive.moves (step_moves hexclusive.sound hstep)

/-! ### Workers without a process -/

/-- A worker that was terminated or found dead stays without a process. -/
theorem gone_moves
    {r r' : Runtime} {e : Event} {i : Nat} (hmoves : Moves r e r')
    (h : i < r.pool.count ∧ (r.pool.worker i).child = none) :
  i < r'.pool.count ∧ (r'.pool.worker i).child = none
  := by
  have hchanged := hmoves.changed
  exact ⟨h.1.trans_le hchanged.count_le, (hchanged.later i h.1).gone h.2⟩

theorem gone_run
    {r r' : Runtime} {es : List Event} {i : Nat} (hreach : machine.Reachable r)
    (hrun : machine.run r es = some r')
    (h : i < r.pool.count ∧ (r.pool.worker i).child = none) :
  i < r'.pool.count ∧ (r'.pool.worker i).child = none
  := by
  have hboth := Machine.run_preserves
    (P := fun r => r.Exclusive ∧ i < r.pool.count ∧ (r.pool.worker i).child = none)
    (m := machine) ?_ ⟨exclusive_of_reachable hreach, h⟩ hrun
  · exact hboth.2
  · rintro r e r' ⟨hexclusive, hgone⟩ hstep
    have hmoves := step_moves hexclusive.sound hstep
    exact ⟨hexclusive.moves hmoves, gone_moves hmoves hgone⟩

/-- A worker that `acquire` hands out runs. -/
theorem acquired_running
    {p p' : Pool} {engineId : Bytes} {i : Nat} (h : p.Acquired engineId i p') :
  (p'.worker i).running = true ∧ (i < p.count → (p.worker i).running = true)
  := by
  rcases h.source with ⟨-, hrun, -, -, hw⟩ | ⟨hnew, -, launch, pid, inputFd, outputFd, t, hw⟩
  · rw [hw]
    exact ⟨hrun, fun _ => hrun⟩
  · rw [hw]
    refine ⟨rfl, ?_⟩
    intro hi
    exact absurd hnew hi.ne

theorem acquired_of_ok
    {p : Pool} {engineId : Bytes} {spawn : Spawn} {i : Nat} (hsound : p.Sound)
    (h : (p.acquire engineId spawn).1 = .ok i) :
  p.Acquired engineId i (p.acquire engineId spawn).2
  := by
  have hspec := (Pool.acquire_spec hsound engineId spawn).2
  rw [h] at hspec
  exact hspec

/-! ### Times -/

/-- The reading of the clock that a step takes. -/
def Event.reading : Event → Option Int64
  | .acquire _ (.started _ _ _ nowMs) => some nowMs
  | .lease _ nowMs => some nowMs
  | .reapIdle currentMs => some currentMs
  | _ => none

/-- The clock reads no time before the epoch. -/
def sinceEpoch (_ : Runtime) (e : Event) : Prop := ∀ nowMs ∈ e.reading, 0 ≤ nowMs

theorem acquire_pool (r : Runtime) (engineId : Bytes) (spawn : Spawn) :
  (r.acquire engineId spawn).pool = (r.pool.acquire engineId spawn).2
  := by
  rw [acquire]
  split
  · rename_i heq
    rw [heq]
  · rename_i heq
    rw [heq]

/-- The time of the last use of a worker is a reading of the clock. -/
theorem Moves.lastUsedMs
    {r r' : Runtime} {e : Event} (h : Moves r e r') (hstep : r.step e = some r') (i : Nat) :
  (r'.pool.worker i).lastUsedMs = (r.pool.worker i).lastUsedMs
    ∨ e.reading = some (r'.pool.worker i).lastUsedMs
  := by
  cases h with
  | operated _ _ huse => exact Or.inl (huse i).2
  | acquired =>
      rename_i engineId spawn j pool hoperated hacquired
      rw [← Option.some.inj hstep, acquire_pool]
      rcases r.pool.acquire_lastUsedMs engineId spawn i with hkept | ⟨pid, inputFd, outputFd, hnew⟩
      · exact Or.inl hkept
      · right
        generalize ((r.pool.acquire engineId spawn).2.worker i).lastUsedMs = nowMs at hnew ⊢
        rw [hnew]
        rfl
  | leased => exact Or.inl rfl
  | released =>
      rename_i op nowMs leases j hfree hleases
      rcases r.pool.release_lastUsedMs j nowMs i with hkept | hnew
      · exact Or.inl hkept
      · right
        rw [hnew]
        rfl
  | acted hact =>
      rename_i j a w
      left
      by_cases hi : i = j
      · subst hi
        simpa [Pool.put] using (Worker.act_later hact).2.2
      · simp only [Pool.put, Function.update_of_ne hi]
  | called => exact Or.inl rfl
  | executed hlease hcall hmoves =>
      rename_i lease j input c phase w progress
      left
      rw [progressed_pool]
      by_cases hi : i = j
      · subst hi
        simpa [Pool.put] using hmoves.later.2.2
      · simp only [Pool.put, Function.update_of_ne hi]

/-- With a clock that reads no time before the epoch, no worker was last used before it. -/
theorem lastUsedMs_nonneg
    {r₀ r : Runtime} {es : List Event} (hinit : machine.init r₀)
    (hclock : machine.Within sinceEpoch r₀ es) (hrun : machine.run r₀ es = some r) (i : Nat) :
  0 ≤ (r.pool.worker i).lastUsedMs
  := by
  have hstart : r₀.Exclusive ∧ ∀ i, 0 ≤ (r₀.pool.worker i).lastUsedMs := by
    use exclusive_init hinit
    obtain ⟨launchSpecs, idleTimeoutMs, pool, hcreate, rfl⟩ := hinit
    intro i
    rw [ofPool, (Pool.sound_create hcreate).2.2 i]
    decide
  apply (Machine.Within.preserves (m := machine)
    (P := fun r => r.Exclusive ∧ ∀ i, 0 ≤ (r.pool.worker i).lastUsedMs) ?_ hclock hstart hrun).2
  rintro r e r' ⟨hexclusive, hused⟩ hreading hstep
  have hmoves := step_moves hexclusive.sound hstep
  use hexclusive.moves hmoves
  intro i
  rcases hmoves.lastUsedMs hstep i with hkept | hnew
  · rw [hkept]
    exact hused i
  · exact hreading _ hnew

/-- The difference of two times since the epoch does not wrap around. -/
theorem toInt_sub_of_nonneg {x y : Int64} (hx : 0 ≤ x) (hy : 0 ≤ y) :
  (x - y).toInt = x.toInt - y.toInt
  := by
  rw [Int64.le_iff_toInt_le, Int64.toInt_zero] at hx hy
  have hxlt := x.toInt_lt
  have hylt := y.toInt_lt
  rw [Int64.toInt_sub]
  apply Int.bmod_eq_of_le
  · omega
  · omega

/-- What `reap_idle` terminates. -/
theorem reapIdle_terminates
    {p : Pool} {currentMs : Int64} {i : Nat} (hrun : (p.worker i).running = true)
    (hended : ((p.reapIdle currentMs).worker i).running = false) :
  (p.worker i).busy = false ∧ p.idleTimeoutMs ≤ currentMs - (p.worker i).lastUsedMs
  := by
  have hscan := Pool.scan_scanned (Pool.visitToReap currentMs p.idleTimeoutMs) p p.nodup
  rw [Pool.reapIdle, hscan.worker] at hended
  split_ifs at hended with hreached
  · rw [Pool.visitToReap, Worker.alive_of_running hrun] at hended
    simp only at hended
    split_ifs at hended with hidle
    · simpa [Pool.idleEnough] using hidle
    · rw [hrun] at hended
      cases hended
  · rw [hrun] at hended
    cases hended

/-- Workers are exclusive to their lease, and the pool hands out and reaps only idle ones. -/
theorem worker_exclusivity
    {r₀ r : Runtime} {es₀ : List Event} (hinit : machine.init r₀)
    (hrun₀ : machine.run r₀ es₀ = some r) :
  -- No two leases refer to the same worker.
  (∀ lease lease' i, r.leases.get? lease = some (some i) → r.leases.get? lease' = some (some i) →
    lease = lease')
  -- The lease of `acquire` refers to a worker that was launched for the engine.
  ∧ (∀ engineId spawn i, (r.pool.acquire engineId spawn).1 = .ok i →
    (r.acquire engineId spawn).leases = r.leases.give i ∧ i ∉ r.leases.owned
      ∧ ((r.acquire engineId spawn).pool.worker i).engineId = engineId
      ∧ r.pool.launchSpecs.find? engineId
        = some ((r.acquire engineId spawn).pool.worker i).launch)
  -- The workers with a lease are those marked busy.
  ∧ (∀ i ∈ r.leases.owned, (r.pool.worker i).busy = true)
  ∧ (∀ i, (r.pool.worker i).busy = false → i ∉ r.leases.owned)
  -- `reap_idle` terminates only workers without a lease, whatever it reads from the clock.
  ∧ (∀ currentMs i, (r.pool.worker i).running = true →
    ((r.pool.reapIdle currentMs).worker i).running = false →
    i ∉ r.leases.owned ∧ (r.pool.worker i).busy = false
      ∧ r.pool.idleTimeoutMs ≤ currentMs - (r.pool.worker i).lastUsedMs)
  -- They have been idle long enough, when the clock reads no time before the epoch.
  ∧ (machine.Within sinceEpoch r₀ es₀ → ∀ currentMs i, 0 ≤ currentMs →
    (r.pool.worker i).running = true → ((r.pool.reapIdle currentMs).worker i).running = false →
    r.pool.idleTimeoutMs.toInt ≤ currentMs.toInt - (r.pool.worker i).lastUsedMs.toInt)
  -- A worker that was terminated or found dead has no process, and it is never handed out.
  ∧ (∀ w : Worker, (w.alive.1 = false → w.alive.2.pid = none) ∧ w.terminate.pid = none)
  ∧ (∀ i < r.pool.count, (r.pool.worker i).pid = none →
    ∀ es r' engineId spawn, machine.run r es = some r' →
      (r'.pool.acquire engineId spawn).1 ≠ .ok i)
  := by
  have h : machine.Reachable r := ⟨r₀, es₀, hinit, hrun₀⟩
  have hexclusive := exclusive_of_reachable h
  refine ⟨?_, ?_, hexclusive.busy, ?_, ?_, ?_, ?_, ?_⟩
  · intro lease lease' i hi hi'
    exact Handles.get?_inj hexclusive.nodup hi hi'
  · intro engineId spawn i hok
    have hacquired := acquired_of_ok hexclusive.sound hok
    have hpool : r.acquire engineId spawn
        = { r with pool := (r.pool.acquire engineId spawn).2, leases := r.leases.give i } := by
      rw [acquire]
      split
      · rename_i j pool heq
        rw [heq] at hok ⊢
        cases hok
        rfl
      · rename_i what pool heq
        rw [heq] at hok
        cases hok
    rw [hpool]
    exact ⟨rfl, hexclusive.acquired_free hacquired, hacquired.engine, hacquired.spec⟩
  · intro i hidle hi
    rw [hexclusive.busy i hi] at hidle
    cases hidle
  · intro currentMs i hrun hended
    obtain ⟨hidle, hlong⟩ := reapIdle_terminates hrun hended
    refine ⟨?_, hidle, hlong⟩
    intro hi
    rw [hexclusive.busy i hi] at hidle
    cases hidle
  · intro hclock currentMs i hcurrent hrun hended
    have hlong := (reapIdle_terminates hrun hended).2
    have hused := lastUsedMs_nonneg hinit hclock hrun₀ i
    rwa [Int64.le_iff_toInt_le, toInt_sub_of_nonneg hcurrent hused] at hlong
  · intro w
    constructor
    · intro hdead
      rw [Worker.alive_fst] at hdead
      obtain ⟨status, halive⟩ := Worker.alive_of_not_running hdead
      rw [halive]
      rfl
    · rw [Worker.pid, Worker.terminate_child]
      rfl
  · intro i hi hpid es r' engineId spawn hrun hok
    have hchild : (r.pool.worker i).child = none := by
      simpa [Worker.pid] using hpid
    obtain ⟨hlt, hgone⟩ := gone_run h hrun ⟨hi, hchild⟩
    have hexclusive' := exclusive_of_reachable (h.run hrun)
    have halive := (acquired_running (acquired_of_ok hexclusive'.sound hok)).2 hlt
    rw [Worker.running_of_child_none hgone] at halive
    cases halive

namespace Sample

/-- A runtime with a pool of one engine. -/
def start : Runtime := ofPool Pool.Sample.idle

theorem init_start :
  machine.init start
  := by
  refine ⟨Pool.Sample.idle.launchSpecs, 1000, Pool.Sample.idle, ?_, rfl⟩
  rw [Pool.create, if_neg (by decide), if_neg (by decide +kernel)]
  rfl

/-- The worker of the engine is leased. -/
def leased : Runtime := start.acquire Pool.Sample.engine (.started 7 8 9 0)

/-- Its lease has been destroyed. -/
def returned : Runtime := (leased.operate (.destroy 0) 5).getD leased

end Sample

theorem worker_exclusivity_leased :
  (Sample.leased.leases.owned = [0] ∧ (Sample.leased.pool.worker 0).busy = true)
    ∧ (Sample.returned.pool.worker 0).running = true
    ∧ ((Sample.returned.pool.reapIdle 1005).worker 0).running = false
    ∧ 0 ∉ Sample.returned.leases.owned
    ∧ Sample.returned.pool.idleTimeoutMs.toInt
      ≤ (1005 : Int64).toInt - (Sample.returned.pool.worker 0).lastUsedMs.toInt
  := by
  have howned : Sample.leased.leases.owned = [0] := by decide +kernel
  have hrun : machine.run Sample.start [.acquire Pool.Sample.engine (.started 7 8 9 0)]
      = some Sample.leased := rfl
  have hreturned : machine.run Sample.start
      [.acquire Pool.Sample.engine (.started 7 8 9 0), .lease (.destroy 0) 5]
      = some Sample.returned := rfl
  have hclock : machine.Within sinceEpoch Sample.start
      [.acquire Pool.Sample.engine (.started 7 8 9 0), .lease (.destroy 0) 5] := by
    refine ⟨?_, fun r _ => ⟨?_, fun _ _ => trivial⟩⟩
    · simp [sinceEpoch, Event.reading]
    · simp [sinceEpoch, Event.reading]
  have hrunning : (Sample.returned.pool.worker 0).running = true := by decide +kernel
  have hended : ((Sample.returned.pool.reapIdle 1005).worker 0).running = false := by
    decide +kernel
  obtain ⟨-, -, hbusy, -⟩ := worker_exclusivity Sample.init_start hrun
  obtain ⟨-, -, -, -, hreaped, hidle, -⟩ := worker_exclusivity Sample.init_start hreturned
  refine ⟨⟨howned, ?_⟩, hrunning, hended, (hreaped 1005 0 hrunning hended).1, ?_⟩
  · apply hbusy
    rw [howned]
    exact List.mem_singleton_self 0
  · exact hidle hclock 1005 0 (by decide) hrunning hended

end Runtime

end Kernel
