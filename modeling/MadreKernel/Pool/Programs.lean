import MadreKernel.Pool.Attribution

/-!
# Worker programs

A worker process reads the frames of its standard input one after the other, and answers one before
it reads the next.  A `WorkerProgram` says what it may answer to a request.  A process that follows
its program has answered the first of the requests that it has read, in their order; it may stop
answering at any time.

When no request is left half written, what a process reads are the requests of the attempts.  A
program that copies the correlation id of a request then sends only frames with the correlation ids
of requests that were written to it, and an attempt that succeeds has got an answer of the program to
its own request.
-/

namespace Kernel

open Wire

/-- What a worker program may answer to a request. -/
abbrev WorkerProgram := Frame → Frame → Prop

/-- The answers of a program have the correlation ids of their requests. -/
def WorkerProgram.Correlates (program : WorkerProgram) : Prop :=
  ∀ request answer, program request answer → answer.correlationId = request.correlationId

namespace Runtime

/-! ### The request of a call -/

/-- The running calls are calls of different attempts, and what a worker has been sent for the
attempt of the call that runs on it is the request of that call. -/
structure Requested (r : Runtime) : Prop where
  distinct : ∀ lease lease' c c' phase phase', r.calls lease = some (c, phase) →
    r.calls lease' = some (c', phase') → c.attempt = c'.attempt → lease = lease'
  own : ∀ lease i c phase, r.leases.get? lease = some (some i) → r.calls lease = some (c, phase) →
    ∀ q ∈ (r.pool.worker i).requests, q.attempt = c.attempt →
      encodeFrame (c.requestFrame (r.pool.worker i).engineId) = .ok q.octets

theorem requested_init {r : Runtime} (h : machine.init r) :
  r.Requested
  := by
  obtain ⟨launchSpecs, idleTimeoutMs, pool, -, rfl⟩ := h
  constructor
  · intro lease lease' c c' phase phase' hcall
    cases hcall
  · intro lease i c phase _ hcall
    cases hcall

/-- The calls stay, on workers that have been sent the same. -/
theorem Requested.same
    {r r' : Runtime} (h : r.Requested) (hexclusive : r.Exclusive) (hcalls : r'.calls = r.calls)
    (hleases : ∀ lease i call, r.calls lease = some call → r'.leases.get? lease = some (some i) →
      r.leases.get? lease = some (some i))
    (hworkers : ∀ i < r.pool.count, (r'.pool.worker i).requests = (r.pool.worker i).requests
      ∧ (r'.pool.worker i).engineId = (r.pool.worker i).engineId) :
  r'.Requested
  := by
  constructor
  · rw [hcalls]
    exact h.distinct
  · intro lease i c phase hlease hcall q hq hattempt
    rw [hcalls] at hcall
    have hold := hleases lease i _ hcall hlease
    have hi := hexclusive.constructed i (Handles.mem_owned_iff.mpr ⟨lease, hold⟩)
    obtain ⟨hrequests, hengine⟩ := hworkers i hi
    rw [hrequests] at hq
    rw [hengine]
    exact h.own lease i c phase hold hcall q hq hattempt

/-- `execute` is called for a new attempt. -/
theorem Requested.called
    {r : Runtime} {lease : Nat} {c : Call} (h : r.Requested) (hattributed : r.Attributed)
    (hc : c.attempt = r.attempts) (correlation : UInt64) (attempts : Nat) :
  Requested { r with
    calls := Function.update r.calls lease (some (c, .entering))
    nextWorkerCorrelation := correlation
    attempts := attempts }
  := by
  have hnew : ∀ lease' c' phase', r.calls lease' = some (c', phase') → c'.attempt ≠ c.attempt := by
    intro lease' c' phase' hcall
    have hlt := (hattributed.calls lease' c' phase' hcall).1
    omega
  constructor
  · intro lease₁ lease₂ c₁ c₂ phase₁ phase₂ hcall₁ hcall₂ hsame
    by_cases h₁ : lease₁ = lease
    · by_cases h₂ : lease₂ = lease
      · rw [h₁, h₂]
      · simp only [h₁, Function.update_self, Option.some_inj, Prod.mk.injEq] at hcall₁
        simp only [Function.update_of_ne h₂] at hcall₂
        rw [← hcall₁.1] at hsame
        exact absurd hsame.symm (hnew lease₂ c₂ phase₂ hcall₂)
    · simp only [Function.update_of_ne h₁] at hcall₁
      by_cases h₂ : lease₂ = lease
      · simp only [h₂, Function.update_self, Option.some_inj, Prod.mk.injEq] at hcall₂
        rw [← hcall₂.1] at hsame
        exact absurd hsame (hnew lease₁ c₁ phase₁ hcall₁)
      · simp only [Function.update_of_ne h₂] at hcall₂
        exact h.distinct lease₁ lease₂ c₁ c₂ phase₁ phase₂ hcall₁ hcall₂ hsame
  · intro lease' i c' phase hlease hcall q hq hattempt
    by_cases hsame : lease' = lease
    · simp only [hsame, Function.update_self, Option.some_inj, Prod.mk.injEq] at hcall
      have hi := hattributed.exclusive.constructed i
        (Handles.mem_owned_iff.mpr ⟨lease', hlease⟩)
      have hlt := (hattributed.numbered i hi q hq).1
      rw [← hcall.1] at hattempt
      omega
    · simp only [Function.update_of_ne hsame] at hcall
      exact h.own lease' i c' phase hlease hcall q hq hattempt

/-- The requests of the attempt of a call, after a step of the call. -/
theorem own_moves
    {c : Call} {w w' : Worker} {phase : Phase} {input : Input} {progress : Progress}
    (hmoves : Execute.Moves c w phase input w' progress)
    (hwritten : w.child ≠ none → WrittenAt c w (Execute.stage phase))
    (hown : ∀ q ∈ w.requests, q.attempt = c.attempt →
      encodeFrame (c.requestFrame w.engineId) = .ok q.octets) :
  ∀ q ∈ w'.requests, q.attempt = c.attempt →
    encodeFrame (c.requestFrame w'.engineId) = .ok q.octets
  := by
  rw [hmoves.later.1.engineId]
  intro q hq hattempt
  cases hmoves with
  | @wrote request offset count hrun hpos hle =>
      rw [Worker.writeRequest] at hq
      simp only at hq
      split_ifs at hq
      · exact hown q hq hattempt
      · rcases List.mem_append.mp hq with hq | hq
        · exact hown q hq hattempt
        · cases List.mem_singleton.mp hq
          apply (hwritten _).1
          intro hnone
          rw [Worker.running_of_child_none hnone] at hrun
          cases hrun
  | readNothing _ _ hturn =>
      rw [(readTurn_same hturn).1] at hq
      exact hown q hq hattempt
  | failedRead _ _ hturn =>
      rw [(readTurn_same hturn).1] at hq
      exact hown q hq hattempt
  | answered _ hturn =>
      simp only at hq
      rw [(readTurn_same hturn).1] at hq
      exact hown q hq hattempt
  | _ => exact hown q hq hattempt

theorem Requested.executed
    {r : Runtime} {lease i : Nat} {input : Input} {c : Call} {phase : Phase} {w : Worker}
    {progress : Progress} (h : r.Requested) (hexclusive : r.Exclusive)
    (hworkers : r.Workers Written WrittenIn) (hlease : r.leases.get? lease = some (some i))
    (hcall : r.calls lease = some (c, phase))
    (hmoves : Execute.Moves c (r.pool.worker i) phase input w progress) :
  (r.progressed lease i c w progress).Requested
  := by
  have hcalls : ∀ lease' c' phase',
      (r.progressed lease i c w progress).calls lease' = some (c', phase') →
      ∃ phase'', r.calls lease' = some (c', phase'') := by
    intro lease' c' phase' hcall'
    by_cases hsame : lease' = lease
    · rw [hsame] at hcall' ⊢
      cases progress with
      | goesOn phase'' =>
          simp only [progressed, Function.update_self, Option.some_inj, Prod.mk.injEq] at hcall'
          use phase
          rw [← hcall'.1]
          exact hcall
      | returned outcome => simp [progressed] at hcall'
      | threw what => simp [progressed] at hcall'
    · use phase'
      rw [← hcall']
      cases progress <;> simp [progressed, Function.update_of_ne hsame]
  constructor
  · intro lease₁ lease₂ c₁ c₂ phase₁ phase₂ hcall₁ hcall₂ hsame
    obtain ⟨phase₁', hcall₁'⟩ := hcalls lease₁ c₁ phase₁ hcall₁
    obtain ⟨phase₂', hcall₂'⟩ := hcalls lease₂ c₂ phase₂ hcall₂
    exact h.distinct lease₁ lease₂ c₁ c₂ _ _ hcall₁' hcall₂' hsame
  · intro lease' j c' phase' hlease' hcall' q hq hattempt
    obtain ⟨phase'', hcall''⟩ := hcalls lease' c' phase' hcall'
    rw [progressed_leases] at hlease'
    simp only [progressed_pool, Pool.put] at hq ⊢
    by_cases hj : j = i
    · subst hj
      obtain rfl := Handles.get?_inj hexclusive.nodup hlease' hlease
      obtain ⟨rfl, -⟩ := Prod.mk.inj (Option.some.inj (hcall''.symm.trans hcall))
      simp only [Function.update_self] at hq ⊢
      apply own_moves hmoves _ _ q hq hattempt
      · exact (hworkers.busy lease' j c' phase hlease hcall).2
      · exact h.own lease' j c' phase hlease hcall
    · simp only [Function.update_of_ne hj] at hq ⊢
      exact h.own lease' j c' phase'' hlease' hcall'' q hq hattempt

theorem Requested.moves
    {r r' : Runtime} {e : Event} (h : r.Requested) (hattributed : r.Attributed)
    (hworkers : r.Workers Written WrittenIn) (hmoves : Moves r e r') :
  r'.Requested
  := by
  have hexclusive := hattributed.exclusive
  have hhandled : ∀ {pool : Pool}, r.pool.Operated pool → ∀ i < r.pool.count,
      (pool.worker i).requests = (r.pool.worker i).requests
        ∧ (pool.worker i).engineId = (r.pool.worker i).engineId := by
    intro pool hoperated i hi
    have hw := hoperated.handled i hi
    exact ⟨(handled_same hw).1, hw.later.engineId⟩
  cases hmoves with
  | operated hoperated =>
      refine h.same hexclusive ?_ ?_ (hhandled hoperated)
      · rfl
      · exact fun _ _ _ _ hlease => hlease
  | acquired hoperated hacquired =>
      rename_i engineId spawn i pool
      refine h.same hexclusive ?_ ?_ (hhandled hoperated)
      · rfl
      · intro lease j call hcall hlease
        exact (hexclusive.get?_of_call (fun lease j _ hget => Handles.get?_give_of_get? hget i)
          hcall).mp hlease
  | leased hfree hstep =>
      refine h.same hexclusive ?_ ?_ fun _ _ => ⟨rfl, rfl⟩
      · rfl
      · intro lease j call hcall hlease
        exact (hexclusive.get?_of_call (get?_of_step hfree hstep) hcall).mp hlease
  | released hfree hstep =>
      refine h.same hexclusive ?_ ?_ (hhandled (Pool.operated_release ..))
      · rfl
      · intro lease j call hcall hlease
        exact (hexclusive.get?_of_call (get?_of_step hfree hstep) hcall).mp hlease
  | acted hact =>
      rename_i j a w
      refine h.same hexclusive ?_ ?_ ?_
      · rfl
      · exact fun _ _ _ _ hlease => hlease
      · intro i hi
        by_cases hij : i = j
        · subst hij
          simp only [Pool.put, Function.update_self]
          exact ⟨(Worker.act_requests hact).1, (Worker.act_later hact).1.engineId⟩
        · simp [Pool.put, Function.update_of_ne hij]
  | called => exact h.called hattributed rfl _ _
  | executed hlease hcall hmoves => exact h.executed hexclusive hworkers hlease hcall hmoves

end Runtime

/-! ### Processes that follow a program -/

/-- The process has read requests, and has answered the first of them. -/
def Worker.Follows (program : WorkerProgram) (w : Worker) : Prop :=
  ∃ requests rest,
    (parseFrames w.emitted.length).run (w.stdin.take w.readCount) = .done requests rest
    ∧ List.Forall₂ (fun request (e : Emission) =>
      ∃ answer, program request answer ∧ encodeFrame answer = .ok e.octets) requests w.emitted

/-- A process that has sent nothing more, and may have been sent more. -/
theorem Worker.Follows.mono
    {program : WorkerProgram} {w w' : Worker} (h : w.Follows program)
    (hemitted : w'.emitted = w.emitted) (hread : w'.readCount = w.readCount)
    (hstdin : w.stdin <+: w'.stdin) :
  w'.Follows program
  := by
  obtain ⟨requests, rest, hrun, hanswers⟩ := h
  obtain ⟨more, hmore⟩ := hstdin
  have htake : w.stdin.take w.readCount <+: w'.stdin.take w'.readCount := by
    rw [hread, ← hmore, List.take_append]
    apply List.prefix_append
  obtain ⟨later, hlater⟩ := htake
  refine ⟨requests, rest ++ later, ?_, by rw [hemitted]; exact hanswers⟩
  rw [← hlater, hemitted]
  exact (parseFrames_streaming _).done_append later hrun

theorem Worker.Follows.handled
    {program : WorkerProgram} {w w' : Worker} (h : w.Follows program) (hw : w.Handled w') :
  w'.Follows program
  := by
  obtain ⟨busy, lastUsedMs, child, status, -, rfl⟩ := hw
  exact h

/-- A step of a call sends nothing for the process, and writes behind what was written. -/
theorem Execute.Moves.follows
    {program : WorkerProgram} {c : Call} {w w' : Worker} {phase : Phase} {input : Input}
    {progress : Progress} (hmoves : Moves c w phase input w' progress) (h : w.Follows program) :
  w'.Follows program
  := by
  cases hmoves with
  | wrote => exact h.mono rfl rfl (List.prefix_append _ _)
  | readNothing _ _ hturn =>
      obtain ⟨buffer, received, rfl⟩ := Worker.readTurn_eq hturn
      exact h
  | failedRead _ _ hturn =>
      obtain ⟨buffer, received, rfl⟩ := Worker.readTurn_eq hturn
      exact h
  | answered _ hturn =>
      obtain ⟨buffer, received, rfl⟩ := Worker.readTurn_eq hturn
      exact h
  | _ => exact h

namespace Runtime

variable {programs : WorkerLaunchSpec → WorkerProgram}

/-- The acts of a process are those of the program that it was launched with, and the cancellation
callback does not throw in the middle of a request. -/
def Obeys (programs : WorkerLaunchSpec → WorkerProgram) (r : Runtime) : Event → Prop
  | .act i a => ∀ w, (r.pool.worker i).act a = some w → w.Follows (programs w.launch)
  | .execute lease input => ∀ c phase, r.calls lease = some (c, phase) →
      throwsBetween phase input = true
  | _ => True

theorem Obeys.allows {r : Runtime} {e : Event} (h : r.Obeys programs e) :
  r.Allows AnyAct (fun phase input => throwsBetween phase input = true) e
  := by
  cases e with
  | execute lease input => exact h
  | _ => trivial

/-- Every process follows the program that it was launched with. -/
def Following (programs : WorkerLaunchSpec → WorkerProgram) (r : Runtime) : Prop :=
  ∀ i < r.pool.count, (r.pool.worker i).Follows (programs (r.pool.worker i).launch)

theorem following_moves
    {r r' : Runtime} {e : Event} (h : r.Following programs) (hobeys : r.Obeys programs e)
    (hmoves : Moves r e r') :
  r'.Following programs
  := by
  have hhandled : ∀ {pool : Pool}, r.pool.Operated pool → ∀ i < r.pool.count,
      (pool.worker i).Follows (programs (pool.worker i).launch) := by
    intro pool hoperated i hi
    have hw := hoperated.handled i hi
    rw [hw.later.launch]
    exact (h i hi).handled hw
  intro i hi
  cases hmoves with
  | operated hoperated hcount =>
      apply hhandled hoperated
      rw [← hcount]
      exact hi
  | @acquired engineId spawn j pool hoperated hacquired =>
      by_cases hlt : i < r.pool.count
      · exact hhandled hoperated i hlt
      · simp only at hi ⊢
        rcases hacquired.source with ⟨-, -, -, hcount, -⟩ | ⟨hnew, hcount, _, _, _, _, _, hw⟩
        · omega
        · obtain rfl : i = j := by omega
          rw [hw]
          exact ⟨[], [], rfl, .nil⟩
  | leased => exact h i hi
  | released =>
      apply hhandled (Pool.operated_release ..)
      rw [Pool.release_count] at hi
      exact hi
  | @acted j a w hact =>
      by_cases hij : i = j
      · subst hij
        simp only [Pool.put, Function.update_self]
        exact hobeys w hact
      · simp only [Pool.put, Function.update_of_ne hij]
        exact h i hi
  | called => exact h i hi
  | @executed lease j input c phase w progress hlease hcall hmoves =>
      rw [progressed_pool] at hi ⊢
      by_cases hij : i = j
      · subst hij
        simp only [Pool.put, Function.update_self]
        rw [hmoves.later.1.launch]
        exact hmoves.follows (h i hi)
      · simp only [Pool.put, Function.update_of_ne hij]
        exact h i hi

/-- What holds in the runs of processes that follow their programs. -/
structure Programmed (programs : WorkerLaunchSpec → WorkerProgram) (r : Runtime) : Prop where
  attributed : r.Attributed
  workers : r.Workers Written WrittenIn
  requested : r.Requested
  following : r.Following programs

theorem programmed_init {r : Runtime} (h : machine.init r) :
  r.Programmed programs
  := by
  refine ⟨attributed_init h, workers_init h, requested_init h, ?_⟩
  obtain ⟨launchSpecs, idleTimeoutMs, pool, hcreate, rfl⟩ := h
  intro i hi
  have hcount := (Pool.sound_create hcreate).2.1
  simp only [ofPool, hcount] at hi
  exact absurd hi (Nat.not_lt_zero i)

theorem Programmed.step
    {r r' : Runtime} {e : Event} (h : r.Programmed programs) (hobeys : r.Obeys programs e)
    (hstep : r.step e = some r') :
  r'.Programmed programs
  := by
  have hmoves := step_moves h.attributed.exclusive.sound hstep
  constructor
  · exact h.attributed.moves hmoves
  · exact written_rule.moves h.attributed.exclusive h.attributed.next h.workers hobeys.allows hmoves
  · exact h.requested.moves h.attributed h.workers hmoves
  · exact following_moves h.following hobeys hmoves

theorem programmed_run
    {r₀ r : Runtime} {es : List Event} (hinit : machine.init r₀) (hrun : machine.run r₀ es = some r)
    (hguard : machine.Within (Obeys programs) r₀ es) :
  r.Programmed programs
  := by
  apply hguard.preserves (P := Programmed programs) _ (programmed_init hinit) hrun
  intro r e r' hprogrammed hobeys hstep
  exact hprogrammed.step hobeys hstep

/-! ### Answers and requests -/

/-- A process that follows its program has answered the request at the place of each emission. -/
theorem answer_of_emission
    {program : WorkerProgram} {w : Worker} (hframed : w.Framed) (hwhole : w.Whole)
    (h : w.Follows program) {k : Nat} {e : Emission} (he : w.emitted[k]? = some e) :
  ∃ q frame answer, q ∈ w.requests ∧ FrameOf q frame ∧ program frame answer
    ∧ encodeFrame answer = .ok e.octets
  := by
  obtain ⟨read, rest, hrun, hanswers⟩ := h
  obtain ⟨frame, hframe, answer, hprogram, hencode⟩ := getElem?_of_forall₂ hanswers he
  obtain ⟨q, hq, hof, -⟩ := requests_of_read hframed hwhole hrun hframe
  exact ⟨q, frame, answer, List.mem_of_getElem? hq, hof, hprogram, hencode⟩

/-- A process that follows its program sends frames. -/
theorem sendsFrames_of_follows {program : WorkerProgram} {w : Worker} (h : w.Follows program) :
  w.SendsFrames
  := by
  obtain ⟨read, rest, -, hanswers⟩ := h
  intro e he
  obtain ⟨k, hk⟩ := List.getElem?_of_mem he
  obtain ⟨frame, -, answer, -, hencode⟩ := getElem?_of_forall₂ hanswers hk
  have hparse := parseFrame_encodeFrame hencode []
  rw [List.append_nil] at hparse
  simp [Worker.framed, hparse]

/-- A process that answers the next request that it has read, as its program does, sends what a
worker may send: a frame with the correlation id of a request that was written to it and that it has
read.  And it goes on to follow its program. -/
theorem programs_permitted
    (hcorrelates : ∀ launch, (programs launch).Correlates) {r₀ r : Runtime} {es : List Event}
    (hinit : machine.init r₀) (hrun : machine.run r₀ es = some r)
    (hguard : machine.Within (Obeys programs) r₀ es) {i : Nat} (hi : i < r.pool.count)
    (hrunning : (r.pool.worker i).running = true) {read : List Frame} {request answer : Frame}
    {rest octets : Bytes}
    (hread : (parseFrames ((r.pool.worker i).emitted.length + 1)).run
      ((r.pool.worker i).stdin.take (r.pool.worker i).readCount) = .done (read ++ [request]) rest)
    (hanswer : programs (r.pool.worker i).launch request answer)
    (hencode : encodeFrame answer = .ok octets) :
  r.permits (.act i (.send octets)) = true
    ∧ (∃ q ∈ (r.pool.worker i).requests, q.correlationId = answer.correlationId
      ∧ q.endsAt ≤ (r.pool.worker i).readCount)
    ∧ ∃ r', r.step (.act i (.send octets)) = some r' ∧ r.Obeys programs (.act i (.send octets))
  := by
  have hprogrammed := programmed_run hinit hrun hguard
  have hfollows := hprogrammed.following i hi
  have hchild : (r.pool.worker i).child ≠ none := by
    intro hnone
    rw [Worker.running_of_child_none hnone] at hrunning
    cases hrunning
  obtain ⟨hframed, hwhole⟩ := hprogrammed.workers.whole hi hchild
  have hlength := length_parseFrames hread
  rw [List.length_append, List.length_singleton, Nat.add_right_cancel_iff] at hlength
  have hlast : (read ++ [request])[read.length]? = some request := by simp
  have hid := hcorrelates _ _ _ hanswer
  -- The request is one that the process has read, and one that was written to it.
  have hmem : request ∈ (r.pool.worker i).framesRead := by
    have hlead := prefix_framesUpTo (List.length_take_le (r.pool.worker i).readCount
      (r.pool.worker i).stdin) hread
    exact hlead.subset (List.mem_append_right _ (List.mem_singleton_self request))
  obtain ⟨q, hq, ⟨-, hqid⟩, hends⟩ := requests_of_read hframed hwhole hread hlast
  have hparse := parseFrame_encodeFrame hencode []
  rw [List.append_nil] at hparse
  have hact : (r.pool.worker i).act (.send octets)
      = some { r.pool.worker i with
          emitted := (r.pool.worker i).emitted ++ [⟨octets, (r.pool.worker i).readCount⟩] } := by
    rw [Worker.act.eq_def, if_pos hrunning]
  refine ⟨?_, ⟨q, List.mem_of_getElem? hq, by rw [hid, ← hqid], hends⟩, _,
    by rw [step, hact, Option.map_some], ?_⟩
  · simp only [permits, Worker.permitted, hparse, decide_true, Bool.true_and, List.any_eq_true]
    exact ⟨request, hmem, decide_eq_true hid.symm⟩
  intro w hw
  rw [hact, Option.some_inj] at hw
  subst hw
  -- With the answer the process still follows its program.
  obtain ⟨read', rest', hrun', hanswers⟩ := hfollows
  obtain ⟨rest'', htake⟩ := parseFrames_take hread
  rw [htake, ← hlength, List.take_left] at hrun'
  obtain ⟨rfl, -⟩ := Outcome.done.inj hrun'
  refine ⟨read ++ [request], rest, ?_, ?_⟩
  · rw [List.length_append, List.length_singleton]
    exact hread
  · apply List.rel_append hanswers
    exact .cons ⟨answer, hanswer, hencode⟩ .nil

namespace Sample

/-- The result of every request is one octet. -/
def result (request : Frame) : Frame := ⟨workerResult, request.correlationId, ∅, [5]⟩

/-- A process that has answered the first of the requests that it has read with their results. -/
def follows (w : Worker) : Bool :=
  match (parseFrames w.emitted.length).run (w.stdin.take w.readCount) with
  | .done requests _ =>
      requests.map (fun request => (encodeFrame (result request)).toOption)
        = w.emitted.map fun e => some e.octets
  | _ => false

/-- Every launch is of the program with these results. -/
def answers (_ : WorkerLaunchSpec) : WorkerProgram := fun request answer => answer = result request

theorem correlates_answers (launch : WorkerLaunchSpec) :
  (answers launch).Correlates
  := by
  rintro request _ rfl
  rfl

theorem follows_of_follows {w : Worker} (h : follows w = true) :
  w.Follows (answers w.launch)
  := by
  rw [follows] at h
  split at h
  next requests rest hrun =>
    rw [decide_eq_true_eq, ← List.forall₂_eq_eq_eq, List.forall₂_map_left_iff,
      List.forall₂_map_right_iff] at h
    refine ⟨requests, rest, hrun, h.imp ?_⟩
    intro request e he
    refine ⟨_, rfl, ?_⟩
    rw [Except.toOption.eq_def] at he
    split at he
    next octets hencode =>
      cases he
      exact hencode
    next => cases he
  next => cases h

/-- The steps of a run with processes that answer with these results. -/
def obeys (r : Runtime) : Event → Bool
  | .act i a => ((r.pool.worker i).act a).all follows
  | .execute lease input => (r.calls lease).all fun call => throwsBetween call.2 input
  | _ => true

theorem obeys_of_obeys {r : Runtime} {e : Event} (h : obeys r e = true) :
  r.Obeys answers e
  := by
  cases e with
  | act i a =>
      intro w hw
      rw [obeys, hw, Option.all_some] at h
      exact follows_of_follows h
  | execute lease input =>
      intro c phase hcall
      rw [obeys, hcall, Option.all_some] at h
      exact h
  | _ => trivial

/-- The first attempt has sent its request, and its worker has read it. -/
def requestedEvents : List Event :=
  [.acquire Pool.Sample.engine (.started 7 8 9 0), .call 0 [] 0 none false, .execute 0 .probe,
    .execute 0 (.answers false (.ok false) 0), .execute 0 .probe, .execute 0 (.write (.wrote 69)),
    .act 0 (.read 69)]

end Sample

theorem programs_permitted_first :
  ∃ r r' request, machine.run Sample.start Sample.requestedEvents = some r
    ∧ (parseFrames 1).run ((r.pool.worker 0).stdin.take (r.pool.worker 0).readCount)
      = .done [request] []
    ∧ r.permits (.act 0 (.send Sample.response)) = true
    ∧ r.step (.act 0 (.send Sample.response)) = some r'
  := by
  have hcheck : (machine.runWithin Sample.obeys Sample.start Sample.requestedEvents).any (fun r =>
      r.pool.count = 1 && (r.pool.worker 0).running && (r.pool.worker 0).emitted.isEmpty
        && (parseFrames 1).run ((r.pool.worker 0).stdin.take (r.pool.worker 0).readCount)
          = .done [Sample.firstCall.requestFrame (r.pool.worker 0).engineId] []) = true := by
    decide +kernel
  obtain ⟨r, hrunWithin, hr⟩ := (Option.any_eq_true _ _).mp hcheck
  obtain ⟨hguard, hrun⟩ := Machine.within_of_runWithin hrunWithin
  simp only [Bool.and_eq_true, decide_eq_true_eq] at hr
  obtain ⟨⟨⟨hcount, hrunning⟩, hemitted⟩, hparse⟩ := hr
  have hread : (parseFrames ((r.pool.worker 0).emitted.length + 1)).run
      ((r.pool.worker 0).stdin.take (r.pool.worker 0).readCount)
      = .done ([] ++ [Sample.firstCall.requestFrame (r.pool.worker 0).engineId]) [] := by
    rw [List.isEmpty_iff.mp hemitted]
    exact hparse
  have hencode : encodeFrame (Sample.result (Sample.firstCall.requestFrame
      (r.pool.worker 0).engineId)) = .ok Sample.response := rfl
  obtain ⟨hpermits, -, r', hstep, -⟩ := programs_permitted
    Sample.correlates_answers Sample.init_start hrun
    (hguard.mono fun _ _ h => Sample.obeys_of_obeys h) (i := 0) (by omega) hrunning hread rfl
    hencode
  exact ⟨r, r', _, hrun, hparse, hpermits, hstep⟩

/-- The response to a call that succeeds is an answer of the worker's program to its request. -/
theorem Programmed.answer
    (hcorrelates : ∀ launch, (programs launch).Correlates) {r : Runtime}
    (hprogrammed : r.Programmed programs) (hattempts : r.attempts < 2 ^ 64) {lease i : Nat}
    {c : Call} {phase : Phase} {input : Input} {w : Worker} {payload : Bytes}
    (hlease : r.leases.get? lease = some (some i)) (hcall : r.calls lease = some (c, phase))
    (hmoves : Execute.Moves c (r.pool.worker i) phase input w (.returned (.succeeded payload))) :
  ∃ answer, programs (r.pool.worker i).launch (c.requestFrame (r.pool.worker i).engineId) answer
    ∧ answer.type = workerResult ∧ answer.payload = payload
  := by
  have hattributed := hprogrammed.attributed
  have hi := hattributed.exclusive.constructed i (Handles.mem_owned_iff.mpr ⟨lease, hlease⟩)
  obtain ⟨hlt, hid⟩ := hattributed.calls lease c phase hcall
  obtain ⟨-, haccounts⟩ := hattributed.workers.busy lease i c phase hlease hcall
  have hfollows := hprogrammed.following i hi
  cases hmoves with
  | ended _ _ _ hfailed => exact absurd rfl (hfailed payload)
  | @answered _ reports w₁ response _ hstage hturn hcorrelation hsucceeded =>
      have hchild := Worker.child_of_readTurn hturn
      obtain ⟨hframed, hwhole⟩ := hprogrammed.workers.whole hi hchild
      obtain ⟨taken, hw⟩ := haccounts (by rw [hstage]; exact nofun) hchild
      obtain ⟨e, hget, hresponse⟩ := hw.aligned.response (sendsFrames_of_follows hfollows) hturn
      obtain ⟨htype, hpayload⟩ := hsucceeded payload rfl
      obtain ⟨q, frame, answer, hq, hof, hanswer, hencode⟩ :=
        answer_of_emission hframed hwhole hfollows hget
      -- The response is the answer.
      have hparse := parseFrame_encodeFrame hencode []
      rw [List.append_nil, hresponse] at hparse
      obtain ⟨rfl, -⟩ := Outcome.done.inj hparse
      -- The request that it answers is the one of this attempt.
      obtain ⟨hqlt, hqid⟩ := hattributed.numbered i hi q hq
      have hsame : q.attempt = c.attempt := by
        apply correlationOf_inj (hqlt.trans hattempts) (hlt.trans hattempts)
        rw [← hqid, ← hof.2, ← hcorrelates _ _ _ hanswer, hcorrelation, hid]
      have hown := hprogrammed.requested.own lease i c phase hlease hcall q hq hsame
      have hframe : frame = c.requestFrame (r.pool.worker i).engineId := by
        have hfirst := parseFrame_encodeFrame hof.1 []
        rw [parseFrame_encodeFrame hown []] at hfirst
        exact (Outcome.done.inj hfirst).1.symm
      rw [hframe] at hanswer
      exact ⟨response, hanswer, htype, hpayload⟩

/-- An attempt that succeeds has got an answer of its worker's program to its own request. -/
theorem result_of_own_request
    (hcorrelates : ∀ launch, (programs launch).Correlates) {r₀ r : Runtime} {es : List Event}
    (hinit : machine.init r₀) (hrun : machine.run r₀ es = some r)
    (hguard : machine.Within (Obeys programs) r₀ es) (hattempts : r.attempts < 2 ^ 64)
    {lease i : Nat} {c : Call} {phase : Phase} {input : Input} {w : Worker} {payload : Bytes}
    (hlease : r.leases.get? lease = some (some i)) (hcall : r.calls lease = some (c, phase))
    (hstep : Execute.step c (r.pool.worker i) phase input
      = some (w, .returned (.succeeded payload))) :
  ∃ answer, programs (r.pool.worker i).launch (c.requestFrame (r.pool.worker i).engineId) answer
    ∧ answer.type = workerResult ∧ answer.payload = payload
  := (programmed_run hinit hrun hguard).answer hcorrelates hattempts hlease hcall
      (Execute.step_moves hstep)

theorem result_of_own_request_first :
  ∃ r answer, machine.run Sample.start Sample.attemptEvents = some r
    ∧ answer = Sample.result (Sample.firstCall.requestFrame (r.pool.worker 0).engineId)
    ∧ answer.type = workerResult ∧ answer.payload = [5]
  := by
  have hwithin : (machine.runWithin Sample.obeys Sample.start Sample.attemptEvents).isSome = true
      := by
    decide +kernel
  obtain ⟨r₁, hrunWithin⟩ := Option.isSome_iff_exists.mp hwithin
  obtain ⟨hguard, hrun₁⟩ := Machine.within_of_runWithin hrunWithin
  obtain ⟨r, hrun, hlease, hcall, hrunning, havailable, hreader, hattempts, -⟩ := Sample.run_attempt
  obtain rfl := Option.some.inj (hrun₁.symm.trans hrun)
  have hparse : parseFrame.run Sample.response = .done ⟨workerResult, 1, ∅, [5]⟩ [] := by
    decide +kernel
  have hstep := Sample.step_response Sample.firstCall hrunning havailable hreader hparse (by decide)
    (by decide)
  obtain ⟨answer, hanswer, htype, hpayload⟩ := result_of_own_request
    Sample.correlates_answers Sample.init_start hrun
    (hguard.mono fun _ _ h => Sample.obeys_of_obeys h) (by rw [hattempts]; decide) hlease hcall hstep
  exact ⟨_, answer, hrun, hanswer, htype, hpayload⟩

end Runtime

end Kernel
