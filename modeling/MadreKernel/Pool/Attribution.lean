import MadreKernel.Pool.Requests

/-!
# Whose result an attempt gets

A worker process is used for many attempts, and it may answer late or more than once.  The
correlation ids of the attempts of a run are distinct, and a call takes a result with its own
correlation id only.  So the result of an attempt was sent by the worker that the attempt leased,
after that worker had read the request of the attempt: when each worker sends only frames with the
correlation id of a request that it has read, and no attempt is given up in the middle of its
request.

An attempt that is given up there makes its worker take the octets of the next request for the rest
of the first one.  A worker then reads a request that no attempt has sent, out of the payload of
another one, and its answer is the result of a later attempt.
-/

namespace Kernel

open Wire

/-- The worker is aligned, and a response to each answered attempt is among the frames that were
taken. -/
structure Worker.Accounts (w : Worker) (taken : List Frame) : Prop where
  aligned : w.Aligned taken
  answered : ∀ attempt ∈ w.answered, ∃ frame ∈ taken, frame.correlationId = correlationOf attempt

theorem Worker.Accounts.later
    {w w' : Worker} {taken : List Frame} (h : w.Accounts taken) (haligned : w'.Aligned taken)
    (hanswered : w'.answered = w.answered) :
  w'.Accounts taken
  := by
  refine ⟨haligned, ?_⟩
  rw [hanswered]
  exact h.answered

theorem Worker.Accounts.handled
    {w w' : Worker} {taken : List Frame} (h : w.Accounts taken) (hw : w.Handled w') :
  w'.Accounts taken
  := by
  apply h.later (h.aligned.handled hw)
  obtain ⟨busy, lastUsedMs, child, status, -, rfl⟩ := hw
  rfl

theorem Worker.Accounts.act
    {w w' : Worker} {taken : List Frame} {a : Act} (h : w.Accounts taken)
    (hact : w.act a = some w') :
  w'.Accounts taken
  := h.later (h.aligned.act hact) (act_requests hact).2.2

/-- A response to an attempt is taken. -/
theorem Worker.Accounts.turn_some
    {w w' : Worker} {taken : List Frame} {attempt : Nat} {reports : Source} {frame : Frame}
    (h : w.Accounts taken) (hturn : w.readTurn reports = some (.ok (some frame), w'))
    (hframe : frame.correlationId = correlationOf attempt) :
  { w' with answered := w'.answered ++ [attempt] : Worker }.Accounts (taken ++ [frame])
  := by
  have hnext := h.aligned.turn_some hturn
  obtain ⟨buffer, received, rfl⟩ := readTurn_eq hturn
  refine ⟨⟨hnext.received_le, hnext.flushed_le, hnext.parsed⟩, ?_⟩
  intro attempt' hattempt
  rcases List.mem_append.mp hattempt with hold | hnew
  · obtain ⟨frame', hmem, hid⟩ := h.answered attempt' hold
    exact ⟨frame', List.mem_append_left _ hmem, hid⟩
  · cases List.mem_singleton.mp hnew
    exact ⟨frame, List.mem_append_right _ (List.mem_singleton_self frame), hframe⟩

/-! ### The steps of a call -/

namespace Execute

variable {c : Call} {w w' : Worker} {phase : Phase} {input : Input} {progress : Progress}

/-- A step of a call keeps the account of the responses, unless its read has failed. -/
theorem Moves.accounts
    (h : Moves c w phase input w' progress) (hc : c.correlationId = correlationOf c.attempt)
    (haccounts : stage phase ≠ .failed → w.child ≠ none → ∃ taken, w.Accounts taken)
    (hchild : w'.child ≠ none)
    (hgoes : ∀ phase', progress = .goesOn phase' → stage phase' ≠ .failed) :
  ∃ taken, w'.Accounts taken
  := by
  have hstage : stage phase ≠ .failed := fun hfailed => hchild (h.of_failed hfailed).1
  have hbefore : w.child ≠ none := fun hnone => hchild (h.later.1.gone hnone)
  obtain ⟨taken, hw⟩ := haccounts hstage hbefore
  have haligned := hw.aligned
  cases h with
  | ended => exact absurd rfl hchild
  | entered => exact ⟨taken, hw⟩
  | threwSending => exact ⟨taken, hw⟩
  | threwChecking => exact ⟨taken, hw⟩
  | kept => exact ⟨taken, hw⟩
  | failedWrite => exact ⟨taken, hw⟩
  | resent => exact ⟨taken, hw⟩
  | wrote =>
      exact ⟨taken, hw.later ⟨haligned.received_le, haligned.flushed_le, haligned.parsed⟩ rfl⟩
  | readNothing _ _ hturn =>
      have hnext := haligned.turn_none hturn
      obtain ⟨buffer, received, rfl⟩ := Worker.readTurn_eq hturn
      exact ⟨taken, hw.later hnext rfl⟩
  | failedRead _ hstage' => exact absurd hstage' (hgoes _ rfl)
  | answered _ hturn hcorrelation => exact ⟨_, hw.turn_some hturn (hcorrelation.trans hc)⟩

/-- What the process of a worker has sent does not change in a step of a call. -/
theorem Moves.emitted (h : Moves c w phase input w' progress) :
  w'.emitted = w.emitted
  := by
  cases h with
  | readNothing _ _ hturn =>
      obtain ⟨buffer, received, rfl⟩ := Worker.readTurn_eq hturn
      rfl
  | failedRead _ _ hturn =>
      obtain ⟨buffer, received, rfl⟩ := Worker.readTurn_eq hturn
      rfl
  | answered _ hturn =>
      obtain ⟨buffer, received, rfl⟩ := Worker.readTurn_eq hturn
      rfl
  | _ => rfl

/-- The requests that have been written, after a step of a call. -/
theorem Moves.requests (h : Moves c w phase input w' progress) {q : Request}
    (hq : q ∈ w'.requests) :
  q ∈ w.requests ∨ (q.attempt = c.attempt ∧ q.correlationId = c.correlationId)
  := by
  cases h with
  | wrote =>
      rw [Worker.writeRequest] at hq
      simp only at hq
      split_ifs at hq
      · exact Or.inl hq
      · rcases List.mem_append.mp hq with hq | hq
        · exact Or.inl hq
        · cases List.mem_singleton.mp hq
          exact Or.inr ⟨rfl, rfl⟩
  | readNothing _ _ hturn =>
      obtain ⟨buffer, received, rfl⟩ := Worker.readTurn_eq hturn
      exact Or.inl hq
  | failedRead _ _ hturn =>
      obtain ⟨buffer, received, rfl⟩ := Worker.readTurn_eq hturn
      exact Or.inl hq
  | answered _ hturn =>
      obtain ⟨buffer, received, rfl⟩ := Worker.readTurn_eq hturn
      exact Or.inl hq
  | _ => exact Or.inl hq

end Execute

namespace Runtime

/-! ### The workers -/

/-- What is known of the responses of a worker on which no call runs. -/
def Tidy (w : Worker) : Prop := w.child ≠ none → ∃ taken, w.Accounts taken

/-- What is known of the responses of a worker on which a call runs. -/
def TidyIn (c : Call) (phase : Phase) (w : Worker) : Prop :=
  c.correlationId = correlationOf c.attempt
    ∧ (Execute.stage phase ≠ .failed → w.child ≠ none → ∃ taken, w.Accounts taken)

theorem tidy_rule :
  WorkerRule Tidy TidyIn AnyAct AnyAnswer
  where
  spawned launch engineId pid inputFd outputFd nowMs _ := by
    have hspawn := Worker.aligned_spawn launch engineId pid inputFd outputFd nowMs
    have hmarked := Worker.Handled.marked
      (Worker.spawn launch engineId pid inputFd outputFd nowMs) true nowMs
    exact ⟨[], hspawn.handled hmarked, nofun⟩
  idle_handled := by
    intro w w' haccounts hw hchild
    obtain ⟨taken, hw₀⟩ := haccounts fun hnone => hchild (hw.later.gone hnone)
    exact ⟨taken, hw₀.handled hw⟩
  busy_handled := by
    rintro c phase w w' ⟨hc, haccounts⟩ hw
    refine ⟨hc, ?_⟩
    intro hstage hchild
    obtain ⟨taken, hw₀⟩ := haccounts hstage fun hnone => hchild (hw.later.gone hnone)
    exact ⟨taken, hw₀.handled hw⟩
  idle_act := by
    intro w w' a haccounts _ hact hchild
    obtain ⟨taken, hw⟩ := haccounts fun hnone => hchild ((Worker.act_later hact).1.gone hnone)
    exact ⟨taken, hw.act hact⟩
  busy_act := by
    rintro c phase w w' a ⟨hc, haccounts⟩ - hact
    refine ⟨hc, ?_⟩
    intro hstage hchild
    obtain ⟨taken, hw⟩ := haccounts hstage
      fun hnone => hchild ((Worker.act_later hact).1.gone hnone)
    exact ⟨taken, hw.act hact⟩
  called := by
    intro c w haccounts hc
    exact ⟨hc, fun _ => haccounts⟩
  goesOn := by
    rintro c w phase input w' phase' ⟨hc, haccounts⟩ - hmoves
    refine ⟨hc, ?_⟩
    intro hstage hchild
    apply hmoves.accounts hc haccounts hchild
    rintro phase'' ⟨⟩
    exact hstage
  returned := by
    rintro c w phase input w' outcome ⟨hc, haccounts⟩ - hmoves hchild
    exact hmoves.accounts hc haccounts hchild nofun
  threw := by
    rintro c w phase input w' what ⟨hc, haccounts⟩ - hmoves hchild
    exact hmoves.accounts hc haccounts hchild nofun

/-! ### The correlation ids -/

theorem correlationOf_succ (attempt : Nat) :
  correlationOf attempt + 1 = correlationOf (attempt + 1)
  := by
  rw [correlationOf, correlationOf, UInt64.ofNat_add (attempt + 1) 1]
  rfl

theorem correlationOf_inj
    {a b : Nat} (ha : a < 2 ^ 64) (hb : b < 2 ^ 64) (h : correlationOf a = correlationOf b) :
  a = b
  := by
  have hnat := congrArg UInt64.toNat h
  simp only [correlationOf, UInt64.toNat_ofNat'] at hnat
  omega

/-- The requests that have been written to the workers are numbered by the attempts. -/
def Numbered (r : Runtime) : Prop :=
  ∀ i < r.pool.count, ∀ q ∈ (r.pool.worker i).requests,
    q.attempt < r.attempts ∧ q.correlationId = correlationOf q.attempt

/-- The calls, the requests and the outcomes of a run of the runtime belong to its attempts. -/
structure Attributed (r : Runtime) : Prop where
  exclusive : r.Exclusive
  workers : r.Workers Tidy TidyIn
  next : r.nextWorkerCorrelation = correlationOf r.attempts
  calls : ∀ lease c phase, r.calls lease = some (c, phase) →
    c.attempt < r.attempts ∧ c.correlationId = correlationOf c.attempt
  numbered : r.Numbered
  ended : ∀ e ∈ r.ended, e.worker < r.pool.count ∧ e.attempt < r.attempts
    ∧ e.correlationId = correlationOf e.attempt

theorem attributed_init {r : Runtime} (h : machine.init r) :
  r.Attributed
  := by
  refine ⟨exclusive_init h, workers_init h, ?_, ?_, ?_, ?_⟩
  all_goals obtain ⟨launchSpecs, idleTimeoutMs, pool, hcreate, rfl⟩ := h
  · rfl
  · intro lease c phase hcall
    cases hcall
  · intro i hi
    have hcount := (Pool.sound_create hcreate).2.1
    simp only [ofPool, hcount] at hi
    exact absurd hi (Nat.not_lt_zero i)
  · intro e he
    cases he

/-- The requests of a worker change only when a call writes to it. -/
theorem requests_moves
    {r r' : Runtime} {e : Event} {i : Nat} {q : Request} (h : Moves r e r')
    (hi : i < r'.pool.count) (hq : q ∈ (r'.pool.worker i).requests) :
  (i < r.pool.count ∧ q ∈ (r.pool.worker i).requests)
    ∨ ∃ lease c phase, r.calls lease = some (c, phase) ∧ q.attempt = c.attempt
      ∧ q.correlationId = c.correlationId
  := by
  have hhandled : ∀ {pool : Pool}, r.pool.Operated pool → i < r.pool.count →
      q ∈ (pool.worker i).requests → q ∈ (r.pool.worker i).requests := by
    intro pool hoperated hlt hq
    obtain ⟨busy, lastUsedMs, child, status, -, hw⟩ := hoperated.handled i hlt
    rw [hw] at hq
    exact hq
  cases h with
  | operated hoperated hcount =>
      have hlt : i < r.pool.count := hcount ▸ hi
      exact Or.inl ⟨hlt, hhandled hoperated hlt hq⟩
  | acquired hoperated hacquired =>
      rename_i engineId spawn j pool
      by_cases hlt : i < r.pool.count
      · exact Or.inl ⟨hlt, hhandled hoperated hlt hq⟩
      · exfalso
        simp only at hi hq
        rcases hacquired.source with ⟨-, -, -, hcount, -⟩ | ⟨hnew, hcount, _, _, _, _, _, hw⟩
        · omega
        · have hij : i = j := by omega
          rw [hij, hw] at hq
          cases hq
  | leased => exact Or.inl ⟨hi, hq⟩
  | released =>
      have hlt : i < r.pool.count := by
        simp only [Pool.release_count] at hi
        exact hi
      exact Or.inl ⟨hlt, hhandled (Pool.operated_release ..) hlt hq⟩
  | acted hact =>
      rename_i j a w
      left
      refine ⟨hi, ?_⟩
      by_cases hij : i = j
      · subst hij
        simp only [Pool.put, Function.update_self] at hq
        rw [(Worker.act_requests hact).1] at hq
        exact hq
      · simp only [Pool.put, Function.update_of_ne hij] at hq
        exact hq
  | called => exact Or.inl ⟨hi, hq⟩
  | executed hlease hcall hmoves =>
      rename_i lease j input c phase w progress
      rw [progressed_pool] at hi hq
      by_cases hij : i = j
      · subst hij
        simp only [Pool.put, Function.update_self] at hq
        rcases hmoves.requests hq with hold | hnew
        · exact Or.inl ⟨hi, hold⟩
        · exact Or.inr ⟨lease, c, phase, hcall, hnew⟩
      · simp only [Pool.put, Function.update_of_ne hij] at hq
        exact Or.inl ⟨hi, hq⟩

theorem attempts_moves {r r' : Runtime} {e : Event} (h : Moves r e r') :
  r.attempts ≤ r'.attempts
  := by
  cases h with
  | called => exact Nat.le_succ _
  | executed =>
      rename_i progress _ _ _
      cases progress <;> exact le_rfl
  | _ => exact le_rfl

theorem Attributed.numbered_moves
    {r r' : Runtime} {e : Event} (h : r.Attributed) (hmoves : Moves r e r') :
  r'.Numbered
  := by
  intro i hi q hq
  have hle := attempts_moves hmoves
  rcases requests_moves hmoves hi hq with ⟨hlt, hold⟩ | ⟨lease, c, phase, hcall, hattempt, hid⟩
  · obtain ⟨hq, hcorrelation⟩ := h.numbered i hlt q hold
    exact ⟨hq.trans_le hle, hcorrelation⟩
  · obtain ⟨hc, hcorrelation⟩ := h.calls lease c phase hcall
    rw [hattempt, hid]
    exact ⟨hc.trans_le hle, hcorrelation⟩

/-- The outcomes of earlier calls stay attributed. -/
theorem Attributed.ended_moves
    {r r' : Runtime} {e : Event} {ended : Ended} (h : r.Attributed) (hmoves : Moves r e r')
    (hended : ended ∈ r.ended) :
  ended.worker < r'.pool.count ∧ ended.attempt < r'.attempts
    ∧ ended.correlationId = correlationOf ended.attempt
  := by
  obtain ⟨hlt, hattempt, hcorrelation⟩ := h.ended ended hended
  exact ⟨hlt.trans_le hmoves.changed.count_le, hattempt.trans_le (attempts_moves hmoves),
    hcorrelation⟩

theorem calls_progressed
    {r : Runtime} {lease lease' i : Nat} {c c' : Call} {w : Worker} {progress : Progress}
    {phase : Phase} (h : (r.progressed lease i c w progress).calls lease' = some (c', phase)) :
  c' = c ∨ r.calls lease' = some (c', phase)
  := by
  by_cases hsame : lease' = lease
  · subst hsame
    cases progress with
    | goesOn phase' =>
        simp only [progressed, Function.update_self, Option.some_inj, Prod.mk.injEq] at h
        exact Or.inl h.1.symm
    | returned outcome => simp [progressed] at h
    | threw what => simp [progressed] at h
  · right
    cases progress <;> simpa [progressed, Function.update_of_ne hsame] using h

theorem Attributed.moves {r r' : Runtime} {e : Event} (h : r.Attributed) (hmoves : Moves r e r') :
  r'.Attributed
  := by
  have hexclusive := h.exclusive.moves hmoves
  have hworkers := tidy_rule.moves h.exclusive h.next h.workers (r.allows_any e) hmoves
  have hnumbered := h.numbered_moves hmoves
  have hended := fun ended (he : ended ∈ r.ended) => h.ended_moves hmoves he
  cases hmoves with
  | operated => exact ⟨hexclusive, hworkers, h.next, h.calls, hnumbered, hended⟩
  | acquired => exact ⟨hexclusive, hworkers, h.next, h.calls, hnumbered, hended⟩
  | leased => exact ⟨hexclusive, hworkers, h.next, h.calls, hnumbered, hended⟩
  | released => exact ⟨hexclusive, hworkers, h.next, h.calls, hnumbered, hended⟩
  | acted => exact ⟨hexclusive, hworkers, h.next, h.calls, hnumbered, hended⟩
  | called hlease hfree =>
      rename_i lease i payload attemptStartedAtMs stopAtMs timeoutWins
      refine ⟨hexclusive, hworkers, ?_, ?_, hnumbered, hended⟩
      · simp only [h.next]
        apply correlationOf_succ
      · intro lease' c phase hcall
        by_cases hsame : lease' = lease
        · subst hsame
          simp only [Function.update_self, Option.some_inj, Prod.mk.injEq] at hcall
          obtain ⟨rfl, rfl⟩ := hcall
          exact ⟨Nat.lt_succ_self _, h.next⟩
        · simp only [Function.update_of_ne hsame] at hcall
          obtain ⟨hlt, hcorrelation⟩ := h.calls lease' c phase hcall
          exact ⟨Nat.lt_succ_of_lt hlt, hcorrelation⟩
  | executed hlease hcall hmoves =>
      rename_i lease i input c phase w progress
      have hcalls : ∀ lease' c' phase',
          (r.progressed lease i c w progress).calls lease' = some (c', phase') →
          c'.attempt < r.attempts ∧ c'.correlationId = correlationOf c'.attempt := by
        intro lease' c' phase' hcall'
        rcases calls_progressed hcall' with rfl | hold
        · exact h.calls lease c' phase hcall
        · exact h.calls lease' c' phase' hold
      cases progress with
      | goesOn phase' => exact ⟨hexclusive, hworkers, h.next, hcalls, hnumbered, hended⟩
      | threw what => exact ⟨hexclusive, hworkers, h.next, hcalls, hnumbered, hended⟩
      | returned outcome =>
          refine ⟨hexclusive, hworkers, h.next, hcalls, hnumbered, ?_⟩
          intro e he
          rcases List.mem_append.mp he with he | he
          · exact hended e he
          · cases List.mem_singleton.mp he
            have hi := h.exclusive.constructed i (Handles.mem_owned_iff.mpr ⟨lease, hlease⟩)
            exact ⟨hi, h.calls lease c phase hcall⟩

/-! ### Workers that answer requests -/

end Runtime

namespace Worker

/-- What an act of the process adds to what it has sent. -/
theorem act_emitted {w w' : Worker} {a : Act} (h : w.act a = some w') :
  w'.emitted = w.emitted
    ∨ ∃ octets, a = .send octets ∧ w'.emitted = w.emitted ++ [⟨octets, w.readCount⟩]
  := by
  rw [act.eq_def, if_pos (act_running h)] at h
  cases a with
  | send octets =>
      cases h
      exact Or.inr ⟨octets, rfl, rfl⟩
  | exit status =>
      cases h
      exact Or.inl rfl
  | vanish =>
      cases h
      exact Or.inl rfl
  | read count =>
      simp only at h
      split_ifs at h
      cases h
      exact Or.inl rfl
  | flush count =>
      simp only at h
      split_ifs at h
      cases h
      exact Or.inl rfl

/-- An emission is a frame with the correlation id of a request that was written before the process
had read as much, or octets that the framing rejects. -/
def Correlated (requests : List Request) (e : Emission) : Prop :=
  framed e.octets = true ∧ ∀ frame, parseFrame.run e.octets = .done frame [] →
    ∃ q ∈ requests, q.correlationId = frame.correlationId ∧ q.endsAt ≤ e.readBefore

def SendsCorrelated (w : Worker) : Prop := ∀ e ∈ w.emitted, Correlated w.requests e

/-- More is written to the process. -/
theorem SendsCorrelated.grows
    {w w' : Worker} (h : w.SendsCorrelated) (hrequests : w.requests <+: w'.requests)
    (hemitted : w'.emitted = w.emitted) :
  w'.SendsCorrelated
  := by
  intro e he
  rw [hemitted] at he
  obtain ⟨hframed, hq⟩ := h e he
  use hframed
  intro frame hframe
  obtain ⟨q, hq, hsame⟩ := hq frame hframe
  exact ⟨q, hrequests.subset hq, hsame⟩

theorem SendsCorrelated.handled {w w' : Worker} (h : w.SendsCorrelated) (hw : w.Handled w') :
  w'.SendsCorrelated
  := by
  obtain ⟨busy, lastUsedMs, child, status, -, rfl⟩ := hw
  exact h

theorem SendsCorrelated.act
    {w w' : Worker} {a : Act} (h : w.SendsCorrelated)
    (hsends : ∀ octets, a = .send octets → Correlated w.requests ⟨octets, w.readCount⟩)
    (hact : w.act a = some w') :
  w'.SendsCorrelated
  := by
  have hrequests := (act_requests hact).1
  rcases act_emitted hact with hsame | ⟨octets, rfl, hemitted⟩
  · apply h.grows _ hsame
    simp [hrequests]
  · intro e he
    rw [hemitted] at he
    rw [hrequests]
    rcases List.mem_append.mp he with hold | hnew
    · exact h e hold
    · rw [List.mem_singleton.mp hnew]
      exact hsends octets rfl

/-- What a process may send is correlated, when what it reads are the requests. -/
theorem correlated_of_permitted
    {w : Worker} (hframed : w.Framed) (hwhole : w.Whole) {octets : Bytes}
    (h : w.permitted octets = true) :
  Correlated w.requests ⟨octets, w.readCount⟩
  := by
  cases hrun : parseFrame.run octets with
  | done frame rest =>
      simp only [permitted, hrun, Bool.and_eq_true, List.any_eq_true] at h
      obtain ⟨hrest, request, hmem, hid⟩ := h
      constructor
      · simpa only [framed, hrun] using hrest
      · intro frame' hrun'
        obtain ⟨rfl, -⟩ := Outcome.done.inj (hrun.symm.trans hrun')
        obtain ⟨rest, hread⟩ := parseFrames_framesUpTo w.readCount (w.stdin.take w.readCount)
        obtain ⟨k, hk⟩ := List.getElem?_of_mem hmem
        obtain ⟨q, hq, ⟨-, hqid⟩, hends⟩ := Runtime.requests_of_read hframed hwhole hread hk
        refine ⟨q, List.mem_of_getElem? hq, ?_, hends⟩
        rw [← hqid]
        exact of_decide_eq_true hid
  | raised e =>
      constructor
      · simp only [framed, hrun]
      · intro frame' hrun'
        cases hrun.symm.trans hrun'
  | waiting =>
      simp only [permitted, hrun] at h
      cases h

/-- The process of a worker has sent a result with a correlation id, after it had read a
request with that id. -/
def SentResult (w : Worker) (correlationId : UInt64) (payload : Bytes) : Prop :=
  ∃ e ∈ w.emitted, ∃ metadata,
    parseFrame.run e.octets = .done ⟨workerResult, correlationId, metadata, payload⟩ []
    ∧ ∃ q ∈ w.requests, q.correlationId = correlationId ∧ q.endsAt ≤ e.readBefore

theorem SentResult.later
    {w w' : Worker} {correlationId : UInt64} {payload : Bytes}
    (h : w.SentResult correlationId payload) (hlater : w.Later w') :
  w'.SentResult correlationId payload
  := by
  obtain ⟨e, he, metadata, hrun, q, hq, hread⟩ := h
  exact ⟨e, hlater.emitted.subset he, metadata, hrun, q, hlater.requests.subset hq, hread⟩

end Worker

/-- A call that succeeds has taken a result that the process of its worker sent. -/
theorem Execute.Moves.succeeded
    {c : Call} {w w' : Worker} {phase : Phase} {input : Input} {payload : Bytes}
    (h : Moves c w phase input w' (.returned (.succeeded payload))) (hsends : w.SendsCorrelated)
    (haccounts : stage phase ≠ .failed → w.child ≠ none → ∃ taken, w.Accounts taken) :
  w.SentResult c.correlationId payload
  := by
  cases h with
  | ended _ _ _ hfailed => exact absurd rfl (hfailed payload)
  | @answered _ reports w₁ response _ hstage hturn hcorrelation hsucceeded =>
      obtain ⟨taken, hw⟩ := haccounts (by rw [hstage]; exact nofun)
        (Worker.child_of_readTurn hturn)
      obtain ⟨e, hget, hrun⟩ := hw.aligned.response (fun e he => (hsends e he).1) hturn
      obtain ⟨htype, hpayload⟩ := hsucceeded payload rfl
      have he := List.mem_of_getElem? hget
      obtain ⟨q, hq, hqid, hread⟩ := (hsends e he).2 response hrun
      refine ⟨e, he, response.metadata, ?_, q, hq, hqid.trans hcorrelation, hread⟩
      rw [hrun, ← htype, ← hcorrelation, ← hpayload]

namespace Runtime

theorem correlated_rule :
  WorkerRule Worker.SendsCorrelated (fun _ _ => Worker.SendsCorrelated)
    (fun w a => ∀ octets, a = .send octets →
      Worker.Correlated w.requests ⟨octets, w.readCount⟩) AnyAnswer
  where
  spawned launch engineId pid inputFd outputFd nowMs := by
    intro e he
    cases he
  idle_handled := Worker.SendsCorrelated.handled
  busy_handled := Worker.SendsCorrelated.handled
  idle_act := Worker.SendsCorrelated.act
  busy_act := Worker.SendsCorrelated.act
  called h _ := h
  goesOn h _ hmoves := h.grows hmoves.later.1.requests hmoves.emitted
  returned h _ hmoves := h.grows hmoves.later.1.requests hmoves.emitted
  threw h _ hmoves := h.grows hmoves.later.1.requests hmoves.emitted

/-- A step in which no process sends what it may not send. -/
def permits (r : Runtime) : Event → Bool
  | .act i (.send octets) => (r.pool.worker i).permitted octets
  | _ => true

/-- A step in which the cancellation callback does not throw while a part of a request has been
written. -/
def throwsOnlyBetween (r : Runtime) : Event → Bool
  | .execute lease input => (r.calls lease).all fun (_, phase) => throwsBetween phase input
  | _ => true

theorem allows_of_throwsOnlyBetween {r : Runtime} {e : Event} (h : r.throwsOnlyBetween e = true) :
  r.Allows AnyAct (fun phase input => throwsBetween phase input = true) e
  := by
  cases e with
  | execute lease input =>
      intro c phase hcall
      simpa [throwsOnlyBetween, hcall] using h
  | _ => trivial

/-- What holds in the runs in which each worker sends only what it may send, and no attempt is given
up in the middle of its request. -/
structure Disciplined (r : Runtime) : Prop where
  attributed : r.Attributed
  written : r.Workers Written WrittenIn
  sends : r.Workers Worker.SendsCorrelated fun _ _ => Worker.SendsCorrelated
  results : ∀ e ∈ r.ended, ∀ payload, e.outcome = .succeeded payload →
    (r.pool.worker e.worker).SentResult e.correlationId payload

theorem disciplined_init {r : Runtime} (h : machine.init r) :
  r.Disciplined
  := by
  refine ⟨attributed_init h, workers_init h, workers_init h, ?_⟩
  obtain ⟨launchSpecs, idleTimeoutMs, pool, -, rfl⟩ := h
  intro e he
  cases he

/-- A process that runs is that of a worker that was constructed. -/
theorem Exclusive.lt_of_running
    {r : Runtime} (h : r.Exclusive) {i : Nat} (hrunning : (r.pool.worker i).running = true) :
  i < r.pool.count ∧ (r.pool.worker i).child ≠ none
  := by
  have hchild : (r.pool.worker i).child ≠ none := by
    intro hnone
    rw [Worker.running_of_child_none hnone] at hrunning
    cases hrunning
  refine ⟨?_, hchild⟩
  by_contra hi
  exact hchild (h.sound.gone i fun hmem => hi (r.pool.constructed i hmem))

/-- A process sends correlated frames only. -/
theorem Disciplined.allows
    {r r' : Runtime} {e : Event} (h : r.Disciplined) (hpermits : r.permits e = true)
    (hstep : r.step e = some r') :
  r.Allows (fun w a => ∀ octets, a = .send octets →
    Worker.Correlated w.requests ⟨octets, w.readCount⟩) AnyAnswer e
  := by
  cases e with
  | act i a =>
      obtain ⟨w, hact, -⟩ := Option.map_eq_some_iff.mp hstep
      obtain ⟨hi, hchild⟩ := h.attributed.exclusive.lt_of_running (Worker.act_running hact)
      obtain ⟨hframed, hwhole⟩ := h.written.whole hi hchild
      rintro octets rfl
      exact Worker.correlated_of_permitted hframed hwhole hpermits
  | execute lease input => exact fun _ _ _ => trivial
  | _ => trivial

/-- The calls that have returned. -/
theorem ended_moves {r r' : Runtime} {e : Event} {ended : Ended} (hmoves : Moves r e r')
    (hended : ended ∈ r'.ended) :
  ended ∈ r.ended ∨ ∃ lease i c phase input w outcome, r.leases.get? lease = some (some i)
    ∧ r.calls lease = some (c, phase)
    ∧ Execute.Moves c (r.pool.worker i) phase input w (.returned outcome)
    ∧ ended = ⟨c.attempt, c.correlationId, i, outcome⟩
  := by
  cases hmoves with
  | @executed lease i input c phase w progress hlease hcall hmoves =>
      cases progress with
      | goesOn phase' => exact Or.inl hended
      | threw what => exact Or.inl hended
      | returned outcome =>
          rcases List.mem_append.mp hended with hold | hnew
          · exact Or.inl hold
          · right
            exact ⟨lease, i, c, phase, input, w, outcome, hlease, hcall, hmoves,
              List.mem_singleton.mp hnew⟩
  | _ => exact Or.inl hended

theorem Disciplined.step
    {r r' : Runtime} {e : Event} (h : r.Disciplined) (hpermits : r.permits e = true)
    (hthrows : r.throwsOnlyBetween e = true) (hstep : r.step e = some r') :
  r'.Disciplined
  := by
  have hexclusive := h.attributed.exclusive
  have hmoves := step_moves hexclusive.sound hstep
  have hchanged := hmoves.changed
  refine ⟨h.attributed.moves hmoves, written_rule.moves hexclusive h.attributed.next h.written
    (allows_of_throwsOnlyBetween hthrows) hmoves, correlated_rule.moves hexclusive h.attributed.next
    h.sends (h.allows hpermits hstep) hmoves, ?_⟩
  intro ended hended payload hsucceeded
  rcases ended_moves hmoves hended with hold | ⟨lease, i, c, phase, input, w, outcome, hlease, hcall,
    hcallMoves, rfl⟩
  · exact (h.results ended hold payload hsucceeded).later
      (hchanged.later _ (h.attributed.ended ended hold).1)
  · simp only at hsucceeded
    subst hsucceeded
    have hi := hexclusive.constructed i (Handles.mem_owned_iff.mpr ⟨lease, hlease⟩)
    obtain ⟨-, haccounts⟩ := h.attributed.workers.busy lease i c phase hlease hcall
    exact (hcallMoves.succeeded (h.sends.busy lease i c phase hlease hcall) haccounts).later
      (hchanged.later i hi)

theorem disciplined_run
    {r₀ r : Runtime} {es : List Event} (hinit : machine.init r₀) (hrun : machine.run r₀ es = some r)
    (hworkers : machine.Within (fun r e => r.permits e = true) r₀ es)
    (hthrows : machine.Within (fun r e => r.throwsOnlyBetween e = true) r₀ es) :
  r.Disciplined
  := by
  apply (hworkers.and hthrows).preserves (P := Disciplined) _ (disciplined_init hinit) hrun
  rintro r e r' hdisciplined ⟨hpermits, hthrows⟩ hstep
  exact hdisciplined.step hpermits hthrows hstep

/-- When each worker sends only frames with the correlation id of a request that it has read, and no
attempt is given up in the middle of its request: the result of an attempt was sent by the process
of the worker that the attempt leased, in a result frame with the correlation id of the attempt,
after that process had read the request of the attempt. -/
theorem no_cross_attempt_result
    (r₀ r : Runtime) (es : List Event) (hinit : machine.init r₀)
    (hrun : machine.run r₀ es = some r)
    (hworkers : machine.Within (fun r e => r.permits e = true) r₀ es)
    (hthrows : machine.Within (fun r e => r.throwsOnlyBetween e = true) r₀ es)
    (hattempts : r.attempts < 2 ^ 64) (e : Ended) (he : e ∈ r.ended) (payload : Bytes)
    (hsucceeded : e.outcome = .succeeded payload) :
  ∃ sent ∈ (r.pool.worker e.worker).emitted, ∃ metadata,
    parseFrame.run sent.octets = .done ⟨workerResult, e.correlationId, metadata, payload⟩ []
    ∧ ∃ q ∈ (r.pool.worker e.worker).requests, q.attempt = e.attempt
      ∧ q.correlationId = e.correlationId ∧ q.endsAt ≤ sent.readBefore
  := by
  have hdisciplined := disciplined_run hinit hrun hworkers hthrows
  obtain ⟨hlt, hattempt, hcorrelation⟩ := hdisciplined.attributed.ended e he
  obtain ⟨sent, hsent, metadata, hsentRun, q, hq, hid, hread⟩ :=
    hdisciplined.results e he payload hsucceeded
  refine ⟨sent, hsent, metadata, hsentRun, q, hq, ?_, hid, hread⟩
  obtain ⟨hqattempt, hqid⟩ := hdisciplined.attributed.numbered e.worker hlt q hq
  -- The request with the correlation id of the attempt is the request of the attempt.
  apply correlationOf_inj (hqattempt.trans hattempts) (hattempt.trans hattempts)
  rw [← hqid, hid, hcorrelation]

namespace Sample

/-- The call of the first attempt. -/
def firstCall : Call := ⟨0, [], 1, 0, none, false⟩

/-- The response to the first attempt. -/
def response : Bytes := encodeHeader workerResult 1 0 1 ++ [5]

/-- The first attempt has sent its request, and its response is in the pipe. -/
def attemptEvents : List Event :=
  [.acquire Pool.Sample.engine (.started 7 8 9 0), .call 0 [] 0 none false, .execute 0 .probe,
    .execute 0 (.answers false (.ok false) 0), .execute 0 .probe, .execute 0 (.write (.wrote 69)),
    .act 0 (.read 69), .act 0 (.send response), .act 0 (.flush 29)]

theorem run_attempt :
  ∃ r, machine.run start attemptEvents = some r ∧ r.leases.get? 0 = some (some 0)
    ∧ r.calls 0 = some (firstCall, .reading) ∧ (r.pool.worker 0).running = true
    ∧ (r.pool.worker 0).available = response ∧ (r.pool.worker 0).responseReader = []
    ∧ r.attempts = 1 ∧ r.ended.isEmpty = true
  := by
  have hcheck : (machine.run start attemptEvents).any (fun r =>
      r.leases.get? 0 = some (some 0) && r.calls 0 = some (firstCall, .reading)
        && (r.pool.worker 0).running && (r.pool.worker 0).available = response
        && (r.pool.worker 0).responseReader = [] && r.attempts = 1 && r.ended.isEmpty) = true := by
    decide +kernel
  obtain ⟨r, hrun, hr⟩ := (Option.any_eq_true _ _).mp hcheck
  simp only [Bool.and_eq_true, decide_eq_true_eq] at hr
  obtain ⟨⟨⟨⟨⟨⟨hlease, hcall⟩, hrunning⟩, havailable⟩, hreader⟩, hattempts⟩, hended⟩ := hr
  exact ⟨r, hrun, hlease, hcall, hrunning, havailable, hreader, hattempts, hended⟩

/-- The turn that reads the response ends the call. -/
theorem step_response
    (c : Call) {w : Worker} {octets payload : Bytes} {metadata : SortedMap Bytes Bytes}
    (hrunning : w.running = true) (havailable : w.available = octets)
    (hreader : w.responseReader = [])
    (hparse : parseFrame.run octets = .done ⟨workerResult, c.correlationId, metadata, payload⟩ [])
    (hsize : octets.length < kReadBudget) (hfits : octets.length ≤ kMaxBufferedFrame) :
  Execute.step c w .reading (.read (Source.ofBytes octets))
    = some ({ w with
        responseReader := []
        received := w.received + octets.length
        answered := w.answered ++ [c.attempt] }, .returned (.succeeded payload))
  := by
  have hframe := takeFrame_eq octets
  rw [hparse] at hframe
  have hturn := Worker.readTurn_all hrunning (Source.open_ofBytes octets)
    (by rw [havailable, Source.content_ofBytes])
    (by rw [hreader, havailable, List.length_nil, Nat.zero_add]; exact hfits)
    (by rw [havailable]; exact hsize)
  rw [hreader, havailable, List.nil_append, hframe] at hturn
  rw [Execute.step, Execute.read, hturn]
  simp [Execute.finishResponse]

/-- The call succeeds when it reads the response. -/
theorem run_response
    {r : Runtime} {lease i : Nat} {c : Call} {octets payload : Bytes}
    {metadata : SortedMap Bytes Bytes} (hlease : r.leases.get? lease = some (some i))
    (hcall : r.calls lease = some (c, .reading)) (hrunning : (r.pool.worker i).running = true)
    (havailable : (r.pool.worker i).available = octets)
    (hreader : (r.pool.worker i).responseReader = [])
    (hparse : parseFrame.run octets = .done ⟨workerResult, c.correlationId, metadata, payload⟩ [])
    (hsize : octets.length < kReadBudget) (hfits : octets.length ≤ kMaxBufferedFrame) :
  ∃ r', machine.step r (.execute lease (.read (Source.ofBytes octets))) = some r'
    ∧ r'.attempts = r.attempts
    ∧ r'.ended = r.ended ++ [⟨c.attempt, c.correlationId, i, .succeeded payload⟩]
    ∧ (r'.pool.worker i).emitted = (r.pool.worker i).emitted
    ∧ (r'.pool.worker i).requests = (r.pool.worker i).requests
  := by
  have hstep := step_response c hrunning havailable hreader hparse hsize hfits
  simp only [machine, step, execute, hlease, hcall, hstep, Option.map_some]
  refine ⟨_, rfl, rfl, rfl, ?_, ?_⟩
  · simp [progressed, Pool.put]
  · simp [progressed, Pool.put]

/-- A step in which each worker and each cancellation callback does what it may. -/
def disciplined (r : Runtime) (e : Event) : Bool := r.permits e && r.throwsOnlyBetween e

/-- The query for the cancellation fails. -/
def locked : Input := .answers false (.error (Bytes.ofString "database is locked")) 0

/-- A request of the third attempt. -/
def embedded : Bytes :=
  match encodeFrame ((⟨2, [], 3, 0, none, false⟩ : Call).requestFrame Pool.Sample.engine) with
  | .ok octets => octets
  | .error _ => []

/-- The result of the third attempt. -/
def laterResponse : Bytes := encodeHeader workerResult 3 0 1 ++ [5]

/-- The first attempt is given up before its payload is written, and the second one before the last
octet of its payload is.  The payload of the second one is a request of the third one.  The worker
takes the front of the second request for the payload of the first one, reads the request behind it
and answers it.  Then the third attempt is made, whose request the worker has yet to read. -/
def embeddedEvents : List Event :=
  [.acquire Pool.Sample.engine (.started 7 8 9 0), .call 0 (List.replicate 69 0) 0 none false,
    .execute 0 .probe, .execute 0 (.answers false (.ok false) 0), .execute 0 .probe,
    .execute 0 (.write (.wrote 69)), .execute 0 locked, .lease (.destroy 0) 1,
    .acquire Pool.Sample.engine (.failed []), .call 1 (embedded ++ [0]) 0 none false,
    .execute 1 .probe, .execute 1 (.answers false (.ok false) 0), .execute 1 .probe,
    .execute 1 (.write (.wrote 138)), .execute 1 locked, .lease (.destroy 1) 2,
    .act 0 (.read 207), .act 0 (.send laterResponse), .act 0 (.flush 29),
    .acquire Pool.Sample.engine (.failed []), .call 2 [] 0 none false, .execute 2 .probe,
    .execute 2 (.answers false (.ok false) 0), .execute 2 .probe, .execute 2 (.write (.wrote 69))]

end Sample

theorem no_cross_attempt_result_answered :
  ∃ r e, machine.run Sample.start
      (Sample.attemptEvents ++ [.execute 0 (.read (Source.ofBytes Sample.response))]) = some r
    ∧ e ∈ r.ended ∧ e.outcome = .succeeded [5]
    ∧ ∃ sent ∈ (r.pool.worker e.worker).emitted, ∃ metadata,
      parseFrame.run sent.octets = .done ⟨workerResult, e.correlationId, metadata, [5]⟩ []
      ∧ ∃ q ∈ (r.pool.worker e.worker).requests, q.attempt = e.attempt
        ∧ q.correlationId = e.correlationId ∧ q.endsAt ≤ sent.readBefore
  := by
  have hwithin : (machine.runWithin Sample.disciplined Sample.start Sample.attemptEvents).isSome
      = true := by
    decide +kernel
  obtain ⟨r₁, hrunWithin⟩ := Option.isSome_iff_exists.mp hwithin
  obtain ⟨hguard, hrun₁⟩ := Machine.within_of_runWithin hrunWithin
  obtain ⟨r, hrun, hlease, hcall, hrunning, havailable, hreader, hattempts, -⟩ := Sample.run_attempt
  obtain rfl := Option.some.inj (hrun₁.symm.trans hrun)
  have hparse : parseFrame.run Sample.response = .done ⟨workerResult, 1, ∅, [5]⟩ [] := by
    decide +kernel
  obtain ⟨r', hstep, hattempts', hended, -, -⟩ := Sample.run_response hlease hcall hrunning havailable
    hreader hparse (by decide) (by decide)
  have hrun' : machine.run Sample.start
      (Sample.attemptEvents ++ [.execute 0 (.read (Source.ofBytes Sample.response))]) = some r' := by
    rw [Machine.run_append hrun₁]
    exact Machine.run_of_step hstep []
  have hlast : r₁.throwsOnlyBetween (.execute 0 (.read (Source.ofBytes Sample.response))) = true := by
    rw [throwsOnlyBetween, hcall]
    rfl
  have hboth := hguard.mono fun _ _ h => Bool.and_eq_true_iff.mp h
  have he : ⟨0, 1, 0, .succeeded [5]⟩ ∈ r'.ended := by
    rw [hended]
    exact List.mem_append_right _ (List.mem_singleton_self _)
  refine ⟨r', ⟨0, 1, 0, .succeeded [5]⟩, hrun', he, rfl, ?_⟩
  exact no_cross_attempt_result Sample.start r' _ Sample.init_start hrun'
    ((hboth.mono fun _ _ h => h.1).append hrun₁ ⟨rfl, fun _ _ => trivial⟩)
    ((hboth.mono fun _ _ h => h.2).append hrun₁ ⟨hlast, fun _ _ => trivial⟩)
    (by rw [hattempts', hattempts]; decide) _ he [5] rfl

/-- The result of an attempt was sent before the worker had read the request of the attempt. -/
theorem result_before_request :
  ¬∀ (r₀ r : Runtime) (es : List Event), machine.init r₀ → machine.run r₀ es = some r →
    machine.Within (fun r e => r.permits e = true) r₀ es → r.attempts < 2 ^ 64 → ∀ e ∈ r.ended,
    ∀ payload, e.outcome = .succeeded payload →
    ∃ sent ∈ (r.pool.worker e.worker).emitted, ∃ metadata,
      parseFrame.run sent.octets = .done ⟨workerResult, e.correlationId, metadata, payload⟩ []
      ∧ ∃ q ∈ (r.pool.worker e.worker).requests, q.attempt = e.attempt
        ∧ q.correlationId = e.correlationId ∧ q.endsAt ≤ sent.readBefore
  := by
  intro hclaim
  have hcheck : (machine.runWithin permits Sample.start Sample.embeddedEvents).any (fun r =>
      r.leases.get? 2 = some (some 0) && r.calls 2 = some (⟨2, [], 3, 0, none, false⟩, .reading)
        && (r.pool.worker 0).running && (r.pool.worker 0).available = Sample.laterResponse
        && (r.pool.worker 0).responseReader = [] && r.attempts = 3
        && (r.pool.worker 0).emitted.map (·.readBefore) = [207]
        && (r.pool.worker 0).requests.map (·.endsAt) = [276]) = true := by
    decide +kernel
  obtain ⟨r, hrunWithin, hr⟩ := (Option.any_eq_true _ _).mp hcheck
  obtain ⟨hguard, hrun⟩ := Machine.within_of_runWithin hrunWithin
  simp only [Bool.and_eq_true, decide_eq_true_eq] at hr
  obtain ⟨⟨⟨⟨⟨⟨⟨hlease, hcall⟩, hrunning⟩, havailable⟩, hreader⟩, hattempts⟩, hread⟩, hends⟩ := hr
  have hparse : parseFrame.run Sample.laterResponse = .done ⟨workerResult, 3, ∅, [5]⟩ [] := by
    decide +kernel
  obtain ⟨r', hstep, hattempts', hended, hemitted, hrequests⟩ := Sample.run_response hlease hcall
    hrunning havailable hreader hparse (by decide) (by decide)
  have hrun' : machine.run Sample.start
      (Sample.embeddedEvents ++ [.execute 2 (.read (Source.ofBytes Sample.laterResponse))])
        = some r' := by
    rw [Machine.run_append hrun]
    exact Machine.run_of_step hstep []
  obtain ⟨sent, hsent, metadata, -, q, hq, -, -, hle⟩ := hclaim Sample.start r' _ Sample.init_start
    hrun' (hguard.append hrun ⟨rfl, fun _ _ => trivial⟩) (by rw [hattempts', hattempts]; decide)
    ⟨2, 3, 0, .succeeded [5]⟩
    (by rw [hended]; exact List.mem_append_right _ (List.mem_singleton_self _)) [5] rfl
  rw [hemitted] at hsent
  rw [hrequests] at hq
  have hsent' := List.mem_map_of_mem (f := (·.readBefore)) hsent
  have hq' := List.mem_map_of_mem (f := (·.endsAt)) hq
  rw [hread, List.mem_singleton] at hsent'
  rw [hends, List.mem_singleton] at hq'
  omega

end Runtime

end Kernel
