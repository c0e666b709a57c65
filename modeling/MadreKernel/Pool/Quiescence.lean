import MadreKernel.Pool.Attribution

/-!
# Idle workers are quiescent

A worker is `Quiet` when only complete requests have been written to it and a response to each
of them was taken.  A call that returns leaves its worker quiet or without a process, whatever the
process sends.  A call that is left by an exception leaves it as it is: the cancellation callback
may throw while a part of the request has been written or while the response is awaited, and
`release` keeps the worker for the next attempt because its process still runs.

A response that a process sends behind one that was taken stays in the pipe of a quiet worker.  So
it takes a process that sends no two responses with one correlation id for the next attempt to find
no answer to an earlier one.
-/

namespace Kernel

open Wire

namespace Worker

/-- A response to each of the requests was taken. -/
def AllAnswered (w : Worker) (requests : List Request) : Prop :=
  ∀ q ∈ requests, q.attempt ∈ w.answered

/-- Only complete requests have been written, and a response to each was taken. -/
def Quiet (w : Worker) : Prop := w.stdin = w.requestOctets ∧ w.AllAnswered w.requests

end Worker

/-- The process has sent no two frames with the same correlation id. -/
def Worker.AnswersOnce (w : Worker) : Prop :=
  ∀ (n : Nat) (frames : List Frame) (rest : Bytes),
    (parseFrames n).run w.output = .done frames rest → (frames.map (·.correlationId)).Nodup

namespace Runtime

/-- The cancellation callback throws only while nothing of the request has been written. -/
def throwsInTime (phase : Phase) (input : Input) : Bool :=
  !input.throws || match phase with
    | .sending _ offset => offset = 0
    | _ => false

/-! ### Workers -/

/-- A worker on which no call runs. -/
def Settled (w : Worker) : Prop := w.child ≠ none → w.Quiet

/-- What a call that stands at a stage has written. -/
def SettledAt (c : Call) (w : Worker) : Execute.Stage → Prop
  | .entering => w.Quiet
  | .sending request offset =>
      offset < request.length ∧ w.stdin = w.requestOctets ++ request.take offset
        ∧ w.AllAnswered w.requests
  | .receiving => w.stdin = w.requestOctets
      ∧ ∃ earlier q, w.requests = earlier ++ [q] ∧ q.attempt = c.attempt ∧ w.AllAnswered earlier
  | .failed => True

/-- A worker on which a call runs. -/
def SettledIn (c : Call) (phase : Phase) (w : Worker) : Prop :=
  w.child ≠ none → SettledAt c w (Execute.stage phase)

/-- What has been written is the same, and so are the answers. -/
theorem quiet_congr
    {w w' : Worker} (h : w.Quiet)
    (hsame : w'.requests = w.requests ∧ w'.stdin = w.stdin ∧ w'.answered = w.answered) :
  w'.Quiet
  := by
  simp only [Worker.Quiet, Worker.AllAnswered, Worker.requestOctets, hsame] at h ⊢
  exact h

theorem SettledAt.congr
    {c : Call} {w w' : Worker} {stage : Execute.Stage} (h : SettledAt c w stage)
    (hsame : w'.requests = w.requests ∧ w'.stdin = w.stdin ∧ w'.answered = w.answered) :
  SettledAt c w' stage
  := by
  cases stage with
  | entering => exact quiet_congr h hsame
  | sending request offset =>
      simp only [SettledAt, Worker.AllAnswered, Worker.requestOctets, hsame] at h ⊢
      exact h
  | receiving =>
      simp only [SettledAt, Worker.AllAnswered, Worker.requestOctets, hsame] at h ⊢
      exact h
  | failed => trivial

/-- The request loop goes on while octets of the request are left. -/
theorem settledAt_sendLoop
    {c : Call} {w : Worker} {request : Bytes} {offset : Nat} (hlt : offset < request.length)
    (h : w.stdin = w.requestOctets ++ request.take offset ∧ w.AllAnswered w.requests) :
  SettledAt c w (Execute.stage (Execute.sendLoop request offset))
  := by
  rw [Execute.sendLoop, if_pos hlt]
  exact ⟨hlt, h⟩

/-- The octets of the request that are written next. -/
theorem settledAt_writeRequest
    {c : Call} {w : Worker} {request : Bytes} {offset count : Nat}
    (h : SettledAt c w (.sending request offset)) (hle : offset + count ≤ request.length) :
  SettledAt c (w.writeRequest c.attempt c.correlationId request offset count)
    (Execute.stage (Execute.sendLoop request (offset + count)))
  := by
  obtain ⟨-, hstdin, hanswered⟩ := h
  have hoctets : w.stdin ++ (request.drop offset).take count
      = w.requestOctets ++ request.take (offset + count) := by
    rw [hstdin, List.take_add, List.append_assoc]
  rw [Execute.sendLoop]
  split_ifs with hmore
  · refine ⟨hmore, ?_, ?_⟩
    · simp only [Worker.writeRequest, Worker.requestOctets, if_pos hmore]
      exact hoctets
    · simp only [Worker.writeRequest, Worker.AllAnswered, if_pos hmore]
      exact hanswered
  · have hall : request.take (offset + count) = request := by
      apply List.take_of_length_le
      omega
    rw [hall] at hoctets
    constructor
    · simp only [Worker.writeRequest, Worker.requestOctets, if_neg hmore, hoctets]
      simp
    · simp only [Worker.writeRequest, if_neg hmore]
      exact ⟨w.requests, _, rfl, rfl, hanswered⟩

/-- The response of the last request is taken. -/
theorem quiet_answered
    {c : Call} {w : Worker} (h : SettledAt c w .receiving) :
  { w with answered := w.answered ++ [c.attempt] : Worker }.Quiet
  := by
  obtain ⟨hstdin, earlier, q, hrequests, hattempt, hanswered⟩ := h
  refine ⟨hstdin, ?_⟩
  intro q' hq'
  simp only [hrequests] at hq'
  rcases List.mem_append.mp hq' with hearlier | hlast
  · exact List.mem_append_left _ (hanswered q' hearlier)
  · rw [List.mem_singleton.mp hlast, hattempt]
    exact List.mem_append_right _ (List.mem_singleton_self _)

theorem settled_rule :
  WorkerRule Settled SettledIn AnyAct fun phase input => throwsInTime phase input = true
  where
  spawned launch engineId pid inputFd outputFd nowMs _ := ⟨rfl, nofun⟩
  idle_handled {w w'} h hw hchild := by
    have hquiet := h fun hnone => hchild (hw.later.gone hnone)
    exact quiet_congr hquiet (handled_same hw)
  busy_handled {c phase w w'} h hw hchild := by
    have hsettled := h fun hnone => hchild (hw.later.gone hnone)
    exact hsettled.congr (handled_same hw)
  idle_act {w w' a} h _ hact hchild := by
    have hquiet := h fun hnone => hchild ((Worker.act_later hact).1.gone hnone)
    exact quiet_congr hquiet (Worker.act_requests hact)
  busy_act {c phase w w' a} h _ hact hchild := by
    have hsettled := h fun hnone => hchild ((Worker.act_later hact).1.gone hnone)
    exact hsettled.congr (Worker.act_requests hact)
  called h _ := h
  goesOn {c w phase input w' phase'} h _ hmoves hchild := by
    have hsettled := h fun hnone => hchild (hmoves.later.1.gone hnone)
    cases hmoves with
    | entered hrun hencode =>
        apply settledAt_sendLoop (encodeFrame_length_pos hencode)
        rw [List.take_zero, List.append_nil]
        exact hsettled
    | kept hstage =>
        rw [hstage]
        exact hsettled
    | failedWrite => trivial
    | resent => exact settledAt_sendLoop hsettled.1 hsettled.2
    | wrote hrun hpos hle => exact settledAt_writeRequest hsettled hle
    | readNothing hstage hstage' hturn =>
        rw [hstage] at hsettled
        rw [hstage']
        exact hsettled.congr (readTurn_same hturn)
    | failedRead hstage hstage' =>
        rw [hstage']
        trivial
  returned {c w phase input w' outcome} h _ hmoves hchild := by
    have hsettled := h fun hnone => hchild (hmoves.later.1.gone hnone)
    cases hmoves with
    | ended => exact absurd rfl hchild
    | answered hstage hturn =>
        rw [hstage] at hsettled
        exact quiet_answered (hsettled.congr (readTurn_same hturn))
  threw {c w phase input w' what} h hallowed hmoves hchild := by
    have hsettled := h fun hnone => hchild (hmoves.later.1.gone hnone)
    cases hmoves with
    | threwSending request offset =>
        have hzero : offset = 0 := by
          simpa [throwsInTime, Input.throws] using hallowed
        obtain ⟨-, hstdin, hanswered⟩ := hsettled
        rw [hzero, List.take_zero, List.append_nil] at hstdin
        exact ⟨hstdin, hanswered⟩
    | threwChecking => simp [throwsInTime, Input.throws] at hallowed

/-! ### Runs -/

/-- A step in which the cancellation callback does not throw too late. -/
def throwsNothingLate (r : Runtime) : Event → Bool
  | .execute lease input => (r.calls lease).all fun (_, phase) => throwsInTime phase input
  | _ => true

theorem allows_of_throwsNothingLate {r : Runtime} {e : Event} (h : r.throwsNothingLate e = true) :
  r.Allows AnyAct (fun phase input => throwsInTime phase input = true) e
  := by
  cases e with
  | execute lease input =>
      intro c phase hcall
      simpa [throwsNothingLate, hcall] using h
  | _ => trivial

/-- What holds in the runs in which the cancellation callback does not throw too late. -/
structure Calm (r : Runtime) : Prop where
  attributed : r.Attributed
  workers : r.Workers Settled SettledIn

theorem calm_run
    {r₀ r : Runtime} {es : List Event} (hinit : machine.init r₀) (hrun : machine.run r₀ es = some r)
    (hguard : machine.Within (fun r e => r.throwsNothingLate e = true) r₀ es) :
  r.Calm
  := by
  apply hguard.preserves (P := Calm) _ ⟨attributed_init hinit, workers_init hinit⟩ hrun
  intro r e r' hcalm hthrows hstep
  have hmoves := step_moves hcalm.attributed.exclusive.sound hstep
  use hcalm.attributed.moves hmoves
  exact settled_rule.moves hcalm.attributed.exclusive hcalm.attributed.next hcalm.workers
    (allows_of_throwsNothingLate hthrows) hmoves

/-- A worker without a lease whose process runs is quiet. -/
theorem Calm.quiet
    {r : Runtime} (h : r.Calm) {i : Nat} (hi : i ∈ r.pool.members)
    (hrun : (r.pool.worker i).running = true) (hfree : i ∉ r.leases.owned) :
  (r.pool.worker i).Quiet
  := by
  apply h.workers.idle i (r.pool.constructed i hi)
  · intro lease hget
    exact absurd (Handles.mem_owned_iff.mpr ⟨lease, hget⟩) hfree
  · intro hnone
    rw [Worker.running_of_child_none hnone] at hrun
    cases hrun

/-- A call whose worker sends no correlation id twice takes no response to the request of another
attempt. -/
theorem Calm.own_response
    {r : Runtime} (h : r.Calm) {lease i : Nat} {c : Call} {phase : Phase} {reports : Source}
    {frame : Frame} {w : Worker}
    (hlease : r.leases.get? lease = some (some i)) (hcall : r.calls lease = some (c, phase))
    (hstage : Execute.stage phase = .receiving) (honce : (r.pool.worker i).AnswersOnce)
    (hturn : (r.pool.worker i).readTurn reports = some (.ok (some frame), w)) {q : Request}
    (hq : q ∈ (r.pool.worker i).requests) (hid : q.correlationId = frame.correlationId) :
  q.attempt = c.attempt
  := by
  have hchild := Worker.child_of_readTurn hturn
  have hi := h.attributed.exclusive.constructed i (Handles.mem_owned_iff.mpr ⟨lease, hlease⟩)
  obtain ⟨-, haccounts⟩ := h.attributed.workers.busy lease i c phase hlease hcall
  obtain ⟨taken, hw⟩ := haccounts (by rw [hstage]; exact nofun) hchild
  have hsettled := h.workers.busy lease i c phase hlease hcall hchild
  rw [hstage] at hsettled
  obtain ⟨-, earlier, last, hrequests, hattempt, hanswered⟩ := hsettled
  have hqid := (h.attributed.numbered i hi q hq).2
  rw [hrequests, List.mem_append, List.mem_singleton] at hq
  rcases hq with hearlier | rfl
  · -- A second response to a request that has been answered.
    exfalso
    obtain ⟨answer, hanswer, hsame⟩ := hw.answered q.attempt (hanswered q hearlier)
    have hnext := hw.aligned.turn_some hturn
    obtain ⟨buffer, received, rfl⟩ := Worker.readTurn_eq hturn
    have hnodup := honce _ _ _ hnext.parsed
    rw [List.map_append, List.nodup_append] at hnodup
    apply hnodup.2.2 answer.correlationId (List.mem_map_of_mem hanswer) frame.correlationId (by simp)
    rw [hsame, ← hqid, hid]
  · exact hattempt

/-- While the cancellation callback throws only before a request is written, the workers without
a lease whose process runs have been sent complete requests only, and a response to each was
taken.  So a request is written behind complete requests that were answered, and a call on a
worker that sends no correlation id twice takes no response to the request of another attempt. -/
theorem idle_workers_quiescent
    (r₀ r : Runtime) (es : List Event) (hinit : machine.init r₀)
    (hrun : machine.run r₀ es = some r)
    (hguard : machine.Within (fun r e => r.throwsNothingLate e = true) r₀ es) :
  (∀ i ∈ r.pool.members, (r.pool.worker i).running = true → i ∉ r.leases.owned →
    (r.pool.worker i).Quiet)
  ∧ (∀ lease i c request offset, r.leases.get? lease = some (some i) →
    r.calls lease = some (c, .writing request offset) → (r.pool.worker i).running = true →
    (r.pool.worker i).stdin = (r.pool.worker i).requestOctets ++ request.take offset
      ∧ (r.pool.worker i).AllAnswered (r.pool.worker i).requests)
  ∧ (∀ lease i c phase reports frame w, r.leases.get? lease = some (some i) →
    r.calls lease = some (c, phase) → Execute.stage phase = .receiving →
    (r.pool.worker i).AnswersOnce →
    (r.pool.worker i).readTurn reports = some (.ok (some frame), w) →
    ∀ q ∈ (r.pool.worker i).requests, q.correlationId = frame.correlationId →
      q.attempt = c.attempt)
  := by
  have hcalm := calm_run hinit hrun hguard
  refine ⟨fun i hi hrunning hfree => hcalm.quiet hi hrunning hfree, ?_, ?_⟩
  · intro lease i c request offset hlease hcall hrunning
    apply (hcalm.workers.busy lease i c _ hlease hcall _).2
    intro hnone
    rw [Worker.running_of_child_none hnone] at hrunning
    cases hrunning
  · intro lease i c phase reports frame w hlease hcall hstage honce hturn q hq hid
    exact hcalm.own_response hlease hcall hstage honce hturn hq hid

namespace Sample

/-- Two workers, of which the second is idle and the first is about to be sent a request. -/
def sendingEvents : List Event :=
  [.acquire Pool.Sample.engine (.started 7 8 9 0), .acquire Pool.Sample.engine (.started 10 11 12 0),
    .lease (.destroy 1) 1, .call 0 [] 0 none false, .execute 0 .probe,
    .execute 0 (.answers false (.ok false) 0), .execute 0 .probe]

/-- The query for the cancellation fails when five octets of the request have been written, and
the lease is destroyed. -/
def unwoundEvents : List Event :=
  [.acquire Pool.Sample.engine (.started 7 8 9 0), .call 0 [] 0 none false, .execute 0 .probe,
    .execute 0 (.answers false (.ok false) 0), .execute 0 .probe, .execute 0 (.write (.wrote 5)),
    .execute 0 (.answers false (.error (Bytes.ofString "database is locked")) 0),
    .lease (.destroy 0) 1]

end Sample

theorem idle_workers_quiescent_two :
  ∃ r, machine.run Sample.start Sample.sendingEvents = some r ∧ (r.pool.worker 1).running = true
    ∧ (r.pool.worker 1).Quiet ∧ (r.pool.worker 0).stdin = []
  := by
  have hcheck : (machine.runWithin throwsNothingLate Sample.start Sample.sendingEvents).any
      (fun r => r.pool.members = [0, 1] && (r.pool.worker 1).running && r.leases.owned = [0]
        && (r.pool.worker 0).stdin = []) = true := by
    decide +kernel
  obtain ⟨r, hrunWithin, hr⟩ := (Option.any_eq_true _ _).mp hcheck
  obtain ⟨hguard, hrun⟩ := Machine.within_of_runWithin hrunWithin
  simp only [Bool.and_eq_true, decide_eq_true_eq] at hr
  obtain ⟨⟨⟨hmembers, hrunning⟩, howned⟩, hstdin⟩ := hr
  obtain ⟨hquiet, -⟩ := idle_workers_quiescent Sample.start r _ Sample.init_start hrun hguard
  refine ⟨r, hrun, hrunning, hquiet 1 ?_ hrunning ?_, hstdin⟩
  · rw [hmembers]
    decide
  · rw [howned]
    decide

/-- A worker to which a part of a request has been written is kept for the next attempt. -/
theorem unfinished_request_kept :
  ¬∀ r, machine.Reachable r → ∀ i ∈ r.pool.members, (r.pool.worker i).running = true →
    i ∉ r.leases.owned → (r.pool.worker i).Quiet
  := by
  intro h
  have hcheck : (machine.run Sample.start Sample.unwoundEvents).any
      (fun r => r.pool.members = [0] && (r.pool.worker 0).running && r.leases.owned = []
        && (r.pool.worker 0).stdin ≠ (r.pool.worker 0).requestOctets) = true := by
    decide +kernel
  obtain ⟨r, hrun, hr⟩ := (Option.any_eq_true _ _).mp hcheck
  simp only [Bool.and_eq_true, decide_eq_true_eq] at hr
  obtain ⟨⟨⟨hmembers, hrunning⟩, howned⟩, hstdin⟩ := hr
  have hquiet := h r ⟨Sample.start, _, Sample.init_start, hrun⟩ 0
    (by rw [hmembers]; decide) hrunning (by rw [howned]; decide)
  exact hstdin hquiet.1

end Runtime

end Kernel
