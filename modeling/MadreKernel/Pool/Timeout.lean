import MadreKernel.Lib.Decimal
import MadreKernel.Pool.Supervision
import MadreKernel.Store.Timing

/-!
# The stop time of an attempt

`execute_worker` computes the time at which `execute` gives up, from the timeout and the deadline
of the Work, and whether it is the timeout that ends the attempt.  The timeout is added to the
time the attempt was started at, in 64-bit arithmetic.  An attempt is timed out at the right time
and for the right reason exactly when this sum does not overflow.
-/

namespace Kernel

open Wire

def attemptTimeoutText : Bytes := Bytes.ofString "ATTEMPT_TIMEOUT: per-attempt timeout expired"

def deadlineExpiredText : Bytes :=
  Bytes.ofString "DEADLINE_EXPIRED: Work deadline expired during attempt"

/-- `stop_at` and `timeout_wins` of `execute_worker`, before it looks at the deadline. -/
def timeoutStop (work : WorkRecord) (startedAtMs : Int64) : Option Int64 × Bool :=
  match work.timeoutMs with
  | some timeout => (some (startedAtMs + timeout), true)
  | none => (none, false)

/-- `stop_at` and `timeout_wins` of `execute_worker`. -/
def stopTime (work : WorkRecord) (startedAtMs : Int64) : Option Int64 × Bool :=
  match work.deadlineMs with
  | some deadline =>
      if (timeoutStop work startedAtMs).1.all (deadline < ·) then (some deadline, false)
      else timeoutStop work startedAtMs
  | none => timeoutStop work startedAtMs

/-- The call of `execute` that `execute_worker` makes. -/
def executeCall (work : WorkRecord) (startedAtMs : Int64) (attempt : Nat) (input : Bytes)
    (correlation : UInt64) : Call where
  attempt := attempt
  payload := input
  correlationId := correlation
  attemptStartedAtMs := startedAtMs
  stopAtMs := (stopTime work startedAtMs).1
  timeoutWins := (stopTime work startedAtMs).2

theorem timeoutStop_of_none
    {work : WorkRecord} (h : work.timeoutMs = none) (startedAtMs : Int64) :
  timeoutStop work startedAtMs = (none, false)
  := by
  rw [timeoutStop, h]

theorem timeoutStop_of_some
    {work : WorkRecord} {timeout : Int64} (h : work.timeoutMs = some timeout)
    (startedAtMs : Int64) :
  timeoutStop work startedAtMs = (some (startedAtMs + timeout), true)
  := by
  rw [timeoutStop, h]

theorem stopTime_of_none
    {work : WorkRecord} (h : work.deadlineMs = none) (startedAtMs : Int64) :
  stopTime work startedAtMs = timeoutStop work startedAtMs
  := by
  rw [stopTime, h]

theorem stopTime_of_some
    {work : WorkRecord} {deadline : Int64} (h : work.deadlineMs = some deadline)
    (startedAtMs : Int64) :
  stopTime work startedAtMs
    = if (timeoutStop work startedAtMs).1.all (deadline < ·) then (some deadline, false)
      else timeoutStop work startedAtMs
  := by
  rw [stopTime, h]

/-! ### When a call times out -/

/-- The stop time was reached at the last reading of the clock. -/
def StopReached (c : Call) (clock : Option Int64) : Prop :=
  ∃ t, clock = some t ∧ c.stopTimeReached t = true

/-- A call that is about to time out, or has timed out, has reached its stop time. -/
def Timely (c : Call) (clock : Option Int64) : Progress → Prop
  | .goesOn (.lastReading .timedOut) => StopReached c clock
  | .returned (.timedOut text) => StopReached c clock ∧ text = c.timeoutFailure
  | _ => True

section

variable {c : Call} {clock : Option Int64} {w : Worker}

theorem timely_probed {next : Worker → Worker × Progress} (h : ∀ w, Timely c clock (next w).2) :
  Timely c clock (Execute.probed w next).2
  := by
  rw [Execute.probed]
  split
  · trivial
  · apply h

theorem timely_sendLoop (request : Bytes) (offset : Nat) :
  Timely c clock (.goesOn (Execute.sendLoop request offset))
  := by
  rw [Execute.sendLoop]
  split_ifs
  · trivial
  · trivial

theorem timely_polled {failure : Option Bytes} {what : String} {next : Phase}
    (h : Timely c clock (.goesOn next)) :
  Timely c clock (Execute.polled w failure what next).2
  := by
  cases failure with
  | none => exact h
  | some reason => trivial

theorem timely_finishResponse (response : Frame) :
  Timely c clock (.returned (Execute.finishResponse c w response).2)
  := by
  rw [Execute.finishResponse]
  split_ifs
  · trivial
  · trivial
  · trivial
  · trivial

theorem timely_enter :
  Timely c clock (Execute.enter c w).2
  := by
  apply timely_probed
  intro w
  split
  · trivial
  · apply timely_sendLoop

/-- The checks at the head of the request loop. -/
theorem timely_checkSending
    {request : Bytes} {offset : Nat} {stopping : Bool} {cancellation : Except Bytes Bool}
    {nowMs : Int64} :
  Timely c (some nowMs) (Execute.checkSending c w request offset stopping cancellation nowMs).2
  := by
  rw [Execute.checkSending.eq_def]
  split
  · trivial
  · split
    · trivial
    · trivial
    · split_ifs with hreached
      · exact ⟨⟨nowMs, rfl, hreached⟩, rfl⟩
      · trivial

/-- The checks of the response loop. -/
theorem timely_check
    {stopping : Bool} {cancellation : Except Bytes Bool} {nowMs : Int64} :
  Timely c (some nowMs) (Execute.check c w stopping cancellation nowMs).2
  := by
  rw [Execute.check.eq_def]
  split
  · trivial
  · split
    · trivial
    · trivial
    · split_ifs with hreached
      · exact ⟨nowMs, rfl, hreached⟩
      · trivial

end

namespace Supervision

/-- A turn of the response loop. -/
theorem timely_read
    {c : Call} {s : Supervision} {reports : Source} {silent : Worker → Worker × Progress}
    (h : ∀ w, Timely c s.clock (silent w).2) :
  Timely c (s.read c reports silent).clock (s.read c reports silent).progress
  := by
  rw [Supervision.read]
  cases (readAvailable s.worker.responseReader reports).result with
  | ok response =>
      cases response with
      | some response => exact timely_finishResponse response
      | none => exact h _
  | error e => trivial

/-- A step that does not read. -/
theorem timely_step
    {c : Call} {w w' : Worker} {phase : Phase} {input : Input} {progress : Progress}
    {clock : Option Int64} (hread : ∀ reports, input ≠ .read reports)
    (hclock : ∀ stopping cancellation nowMs, input = .answers stopping cancellation nowMs →
      clock = some nowMs)
    (h : Execute.step c w phase input = some (w', progress)) :
  Timely c clock progress
  := by
  have hresult : ∀ {result : Worker × Progress}, some result = some (w', progress) →
      Timely c clock result.2 → Timely c clock progress := by
    intro result heq htimely
    cases heq
    exact htimely
  rw [Execute.step.eq_def] at h
  split at h
  · apply hresult h timely_enter
  · cases hclock _ _ _ rfl
    apply hresult h timely_checkSending
  · apply hresult h
    apply timely_probed
    exact fun _ => trivial
  · rename_i request offset result
    cases result with
    | wrote count =>
        simp only [Execute.write] at h
        split_ifs at h
        cases h
        apply timely_sendLoop
    | blocked =>
        cases h
        trivial
    | failed reason =>
        cases h
        trivial
  · apply hresult h
    apply timely_probed
    exact fun _ => trivial
  · apply hresult h
    apply timely_polled
    apply timely_sendLoop
  · exact absurd rfl (hread _)
  · apply hresult h
    apply timely_probed
    exact fun _ => trivial
  · cases hclock _ _ _ rfl
    apply hresult h timely_check
  · exact absurd rfl (hread _)
  · apply hresult h
    apply timely_probed
    exact fun _ => trivial
  · apply hresult h
    apply timely_polled
    trivial
  · cases h

/-- A step of `execute`. -/
theorem timely_execute
    {c : Call} {s s' : Supervision} {phase : Phase} {input : Input}
    (h : Timely c s.clock (.goesOn phase)) (hstep : execute c s phase input = some s') :
  Timely c s'.clock s'.progress
  := by
  have hmap : ∀ clock, (∀ reports, input ≠ .read reports) →
      (∀ stopping cancellation nowMs, input = .answers stopping cancellation nowMs →
        clock = some nowMs) →
      (Execute.step c s.worker phase input).map (fun moved =>
        (⟨moved.1, moved.2, s.taken, clock⟩ : Supervision)) = some s' →
      Timely c s'.clock s'.progress := by
    intro clock hread hclock hsome
    obtain ⟨⟨w, progress⟩, hexecute, rfl⟩ := Option.map_eq_some_iff.mp hsome
    exact timely_step hread hclock hexecute
  cases input with
  | read reports =>
      rw [Supervision.execute.eq_def] at hstep
      cases phase with
      | reading =>
          cases hstep
          apply timely_read
          exact fun _ => trivial
      | lastReading verdict =>
          cases hstep
          apply timely_read
          intro w
          cases verdict with
          | cancelled => trivial
          | timedOut => exact ⟨h, rfl⟩
      | _ => cases hstep
  | write result =>
      cases result with
      | wrote count =>
          rw [Supervision.execute.eq_def] at hstep
          cases phase with
          | writing request offset =>
              simp only at hstep
              split_ifs at hstep
              cases hstep
              apply timely_sendLoop
          | _ => cases hstep
      | blocked => exact hmap s.clock (by simp) (by simp) hstep
      | failed reason => exact hmap s.clock (by simp) (by simp) hstep
  | answers stopping cancellation nowMs =>
      apply hmap (some nowMs) (by simp) _ hstep
      rintro _ _ _ ⟨⟩
      rfl
  | probe => exact hmap s.clock (by simp) (by simp) hstep
  | poll failure => exact hmap s.clock (by simp) (by simp) hstep

/-- A call that has timed out has reached its stop time at its last reading of the clock. -/
theorem timely_run
    {c : Call} {w : Worker} {es : List Event} {s : Supervision}
    (hrun : (machine c).run (start w) es = some s) :
  Timely c s.clock s.progress
  := by
  have hstart : Timely c (start w).clock (start w).progress := trivial
  apply Machine.run_preserves (P := fun s => Timely c s.clock s.progress) _ hstart hrun
  intro t e t' h hstep
  cases e with
  | exits state =>
      simp only [machine, step] at hstep
      split_ifs at hstep
      cases hstep
      exact h
  | probed =>
      cases hstep
      exact h
  | execute input =>
      simp only [machine, step] at hstep
      cases hprogress : t.progress with
      | goesOn phase =>
          rw [hprogress] at h hstep
          exact timely_execute h hstep
      | returned outcome =>
          rw [hprogress] at hstep
          cases hstep
      | threw what =>
          rw [hprogress] at hstep
          cases hstep

end Supervision

/-! ### Exact arithmetic -/

/-- As exact integers, a timeout is set and it ends no later than the deadline. -/
def TimeoutFirst (work : WorkRecord) (startedAtMs : Int64) : Prop :=
  ∃ timeout ∈ work.timeoutMs, ∀ deadline ∈ work.deadlineMs,
    startedAtMs.toInt + timeout.toInt ≤ deadline.toInt

/-- Whatever the worker does, an attempt of the Work that was started at the given time is
recorded as timed out only at a reading of the clock at which its timeout or its deadline has
passed, and for the one that comes first. -/
def TimedCorrectly (work : WorkRecord) (startedAtMs : Int64) : Prop :=
  ∀ (attempt : Nat) (input : Bytes) (correlation : UInt64) (w : Worker)
    (es : List Supervision.Event) (s : Supervision) (outcome : WorkerOutcome) (text : Bytes),
    (Supervision.machine (executeCall work startedAtMs attempt input correlation)).run
      (Supervision.start w) es = some s →
    s.progress = .returned outcome →
    afterOutcome outcome = some (.settling (.failure .timedOut text)) →
    (∃ t, s.clock = some t
      ∧ ((∃ timeout ∈ work.timeoutMs, startedAtMs.toInt + timeout.toInt ≤ t.toInt)
        ∨ ∃ deadline ∈ work.deadlineMs, deadline.toInt ≤ t.toInt))
    ∧ (TimeoutFirst work startedAtMs → text = attemptTimeoutText)
    ∧ (¬TimeoutFirst work startedAtMs → text = deadlineExpiredText)

/-- The timeout of the Work, added to the start of the attempt, is a 64-bit integer. -/
def SumFits (work : WorkRecord) (startedAtMs : Int64) : Prop :=
  ∀ timeout ∈ work.timeoutMs, startedAtMs.toInt + timeout.toInt < 2 ^ 63

/-- A sum that does not fit is negative. -/
theorem toInt_add_lt_zero {a b : Int64} (h : 2 ^ 63 ≤ a.toInt + b.toInt) :
  (a + b).toInt < 0
  := by
  have ha := a.toInt_lt
  have hb := b.toInt_lt
  have hrange : (a.toInt + b.toInt).bmod (2 ^ 64) = a.toInt + b.toInt - 2 ^ 64 := by
    rw [← Int.sub_bmod_right]
    apply Int.bmod_eq_of_le
    · norm_num
      omega
    · norm_num
      omega
  rw [Int64.toInt_add, hrange]
  omega

/-! ### The reason and the time -/

/-- A call that has reached its stop time, when the sum fits. -/
theorem stopReached_exact
    {work : WorkRecord} {startedAtMs : Int64} {attempt : Nat} {input : Bytes}
    {correlation : UInt64} (htimeout : ∀ timeout ∈ work.timeoutMs, 0 ≤ timeout)
    (hfits : SumFits work startedAtMs) {t : Int64}
    (h : (executeCall work startedAtMs attempt input correlation).stopTimeReached t = true) :
  ((∃ timeout ∈ work.timeoutMs, startedAtMs.toInt + timeout.toInt ≤ t.toInt)
      ∨ ∃ deadline ∈ work.deadlineMs, deadline.toInt ≤ t.toInt)
    ∧ ((executeCall work startedAtMs attempt input correlation).timeoutWins = true
      ↔ TimeoutFirst work startedAtMs)
  := by
  have hsum : ∀ timeout ∈ work.timeoutMs,
      (startedAtMs + timeout).toInt = startedAtMs.toInt + timeout.toInt := by
    intro timeout hmem
    apply WorkAction.toInt_add_of_fits _ (hfits timeout hmem)
    exact Int64.le_iff_toInt_le.mp (htimeout timeout hmem)
  have hreached : ((stopTime work startedAtMs).1.any (· ≤ t)) = true := h
  have hwins : (executeCall work startedAtMs attempt input correlation).timeoutWins
      = (stopTime work startedAtMs).2 := rfl
  rw [hwins, TimeoutFirst]
  cases htimeoutMs : work.timeoutMs with
  | none =>
      cases hdeadlineMs : work.deadlineMs with
      | none =>
          rw [stopTime_of_none hdeadlineMs, timeoutStop_of_none htimeoutMs] at hreached
          cases hreached
      | some deadline =>
          rw [stopTime_of_some hdeadlineMs, timeoutStop_of_none htimeoutMs] at hreached ⊢
          simpa [Int64.le_iff_toInt_le] using hreached
  | some timeout =>
      have hexact := hsum timeout htimeoutMs
      cases hdeadlineMs : work.deadlineMs with
      | none =>
          rw [stopTime_of_none hdeadlineMs, timeoutStop_of_some htimeoutMs] at hreached ⊢
          simpa [Int64.le_iff_toInt_le, hexact] using hreached
      | some deadline =>
          rw [stopTime_of_some hdeadlineMs, timeoutStop_of_some htimeoutMs] at hreached ⊢
          simp only [Option.all_some, decide_eq_true_eq, Int64.lt_iff_toInt_lt, hexact]
            at hreached ⊢
          split_ifs at hreached ⊢ with hearlier
          · have hdeadline : deadline.toInt ≤ t.toInt := by
              simpa [Int64.le_iff_toInt_le] using hreached
            simpa [hdeadline] using hearlier
          · have hpassed : startedAtMs.toInt + timeout.toInt ≤ t.toInt := by
              simpa [Int64.le_iff_toInt_le, hexact] using hreached
            simpa [hpassed] using hearlier

theorem requestFrame_entries (c : Call) (engineId : Bytes) :
  (c.requestFrame engineId).metadata.entries
    = [(Bytes.ofString "attempt_started_at_ms",
        Bytes.ofString (toString c.attemptStartedAtMs.toInt)),
      (Bytes.ofString "engine_id", engineId)]
  := by
  have hentries : ∀ started : Bytes,
      (SortedMap.ofEntries [(Bytes.ofString "engine_id", engineId),
        (Bytes.ofString "attempt_started_at_ms", started)]).entries
      = [(Bytes.ofString "attempt_started_at_ms", started),
        (Bytes.ofString "engine_id", engineId)] := by
    intro started
    with_unfolding_all rfl
  exact hentries _

/-- The request of a call that carries little is encoded. -/
theorem exists_encodeFrame_requestFrame (c : Call) (hpayload : c.payload = []) :
  ∃ request, encodeFrame (c.requestFrame [101]) = .ok request ∧ 0 < request.length
  := by
  have hlow := c.attemptStartedAtMs.le_toInt
  have hhigh := c.attemptStartedAtMs.toInt_lt
  have hstarted : (Bytes.ofString (toString c.attemptStartedAtMs.toInt)).length ≤ 19 + 1 := by
    apply Decimal.length_ofString_toString_le
    · decide
    · norm_num
      omega
  have hvalid : ∀ e ∈ (c.requestFrame [101]).metadata.entries, invalidEntry e.1 e.2 = false := by
    intro e he
    rw [requestFrame_entries, List.mem_cons, List.mem_singleton] at he
    rcases he with rfl | rfl
    · have hvalue : (Bytes.ofString (toString c.attemptStartedAtMs.toInt)).any
          (· ∈ [carriageReturn, lineFeed]) = false := by
        simp only [List.any_eq_false, decide_eq_true_eq]
        intro b hb hmem
        rcases Decimal.isOctet_of_mem hb with rfl | hdigit
        · revert hmem
          decide
        · simp only [List.mem_cons, List.not_mem_nil, or_false] at hmem
          rcases hmem with rfl | rfl
          · revert hdigit
            decide
          · revert hdigit
            decide
      have hkey : ((Bytes.ofString "attempt_started_at_ms").isEmpty
          || (Bytes.ofString "attempt_started_at_ms").any
            (· ∈ [equalsSign, carriageReturn, lineFeed])) = false := by decide
      rw [invalidEntry, hvalue, Bool.or_false]
      exact hkey
    · decide
  have hmetadata := (encodeEntries_eq_ok_iff (c.requestFrame [101]).metadata.entries _).mpr
    ⟨hvalid, rfl⟩
  have hok := (encodeFrame_eq_ok_iff (c.requestFrame [101]) _).mpr ⟨_, hmetadata, ?_, ?_, rfl⟩
  · exact ⟨_, hok, encodeFrame_length_pos hok⟩
  · rw [requestFrame_entries]
    simp only [KeyValue.render, KeyValue.renderEntry, List.flatMap_cons, List.flatMap_nil,
      List.length_append, List.length_cons, List.length_nil, kMaxMetadata]
    have hkey : (Bytes.ofString "attempt_started_at_ms").length = 21 := by decide
    have hkey' : (Bytes.ofString "engine_id").length = 9 := by decide
    omega
  · have hempty : (c.requestFrame [101]).payload = [] := hpayload
    rw [hempty]
    decide

/-- A call whose stop time has passed at a reading of the clock can time out at that reading. -/
theorem exists_timedOut
    {c : Call} (hpayload : c.payload = []) {t : Int64} (h : c.stopTimeReached t = true) :
  ∃ es s, (Supervision.machine c).run (Supervision.start Supervision.Sample.worker) es = some s
    ∧ s.progress = .returned (.timedOut c.timeoutFailure) ∧ s.clock = some t
  := by
  obtain ⟨request, hencode, hpos⟩ := exists_encodeFrame_requestFrame c hpayload
  have henter : Execute.step c Supervision.Sample.worker .entering .probe
      = some (Supervision.Sample.worker, .goesOn (.sending request 0)) := by
    have halive := Worker.alive_of_running (w := Supervision.Sample.worker) rfl
    have hengine : Supervision.Sample.worker.engineId = [101] := rfl
    rw [Execute.step, Execute.enter, Execute.probed, halive]
    simp only [hengine, hencode, Execute.sendLoop, if_pos hpos]
  have hcheck : Execute.step c Supervision.Sample.worker (.sending request 0)
      (.answers false (.ok false) t)
      = some (Supervision.Sample.worker.terminate, .returned (.timedOut c.timeoutFailure)) := by
    simp only [Execute.step, Execute.checkSending, h, if_true, Bool.false_eq_true, if_false]
  use [.execute .probe, .execute (.answers false (.ok false) t)],
    ⟨Supervision.Sample.worker.terminate, .returned (.timedOut c.timeoutFailure), [], some t⟩
  refine ⟨?_, rfl, rfl⟩
  simp only [Machine.run, Supervision.machine, Supervision.step, Supervision.start,
    Supervision.execute, henter, hcheck, Option.map_some, Option.bind_some]

/-- A sum that does not fit comes before every deadline and every reading of the clock. -/
theorem stopTime_of_overflow
    {work : WorkRecord} {startedAtMs timeout : Int64} (htimeout : work.timeoutMs = some timeout)
    (hdeadline : ∀ deadline ∈ work.deadlineMs, 0 ≤ deadline)
    (h : 2 ^ 63 ≤ startedAtMs.toInt + timeout.toInt) :
  stopTime work startedAtMs = (some (startedAtMs + timeout), true)
  := by
  have hneg := toInt_add_lt_zero h
  cases hdeadlineMs : work.deadlineMs with
  | none => rw [stopTime_of_none hdeadlineMs, timeoutStop_of_some htimeout]
  | some deadline =>
      have hnonneg := Int64.le_iff_toInt_le.mp (hdeadline deadline hdeadlineMs)
      have hzero : (0 : Int64).toInt = 0 := rfl
      rw [stopTime_of_some hdeadlineMs, timeoutStop_of_some htimeout, if_neg]
      simp only [Option.all_some, decide_eq_true_eq, Int64.lt_iff_toInt_lt]
      omega

/-- When the sum does not fit, an attempt can be timed out before its timeout has passed, or for
the wrong reason. -/
theorem sumFits_of_timedCorrectly
    {work : WorkRecord} {startedAtMs : Int64}
    (hdeadline : ∀ deadline ∈ work.deadlineMs, 0 ≤ deadline)
    (hcorrect : TimedCorrectly work startedAtMs) :
  SumFits work startedAtMs
  := by
  intro timeout hmem
  by_contra hover
  have hstop := stopTime_of_overflow hmem hdeadline (not_lt.mp hover)
  have hneg := toInt_add_lt_zero (not_lt.mp hover)
  have hlast : (executeCall work startedAtMs 0 [] 0).stopTimeReached Int64.maxValue = true := by
    have hmax : Int64.maxValue.toInt = 2 ^ 63 - 1 := rfl
    rw [Call.stopTimeReached, executeCall, hstop, Option.any_some, decide_eq_true_eq,
      Int64.le_iff_toInt_le, hmax]
    omega
  have hwins : (executeCall work startedAtMs 0 [] 0).timeoutFailure = attemptTimeoutText := by
    rw [Call.timeoutFailure, executeCall, hstop]
    rfl
  obtain ⟨es, s, hrun, hreturned, hclock⟩ := exists_timedOut rfl hlast
  rw [hwins] at hreturned
  obtain ⟨⟨t, ht, hpassed⟩, -, hlate⟩ := hcorrect 0 [] 0 _ es s _ _ hrun hreturned rfl
  have hlt := t.toInt_lt
  -- The timeout has not passed, so the deadline has, and it comes first.
  have hfirst : ¬TimeoutFirst work startedAtMs := by
    rintro ⟨timeout', hmem', hall⟩
    cases hmem.symm.trans hmem'
    rcases hpassed with ⟨timeout', hmem', hle⟩ | ⟨deadline, hmem', hle⟩
    · cases hmem.symm.trans hmem'
      omega
    · have hdeadlineLe := hall deadline hmem'
      omega
  have htext := hlate hfirst
  revert htext
  decide

theorem timedCorrectly_of_sumFits
    {work : WorkRecord} {startedAtMs : Int64}
    (htimeout : ∀ timeout ∈ work.timeoutMs, 0 ≤ timeout) (hfits : SumFits work startedAtMs) :
  TimedCorrectly work startedAtMs
  := by
  intro attempt input correlation w es s outcome text hrun hreturned hrecorded
  have htimely := Supervision.timely_run hrun
  have houtcome : outcome = .timedOut text := by
    cases outcome with
    | timedOut text' =>
        cases hrecorded
        rfl
    | succeeded payload => cases hrecorded
    | technicalFailure text' => cases hrecorded
    | crashed text' => cases hrecorded
    | cancelled => cases hrecorded
    | stopped => cases hrecorded
  rw [hreturned, houtcome] at htimely
  obtain ⟨⟨t, hclock, hreached⟩, htext⟩ := htimely
  obtain ⟨hpassed, hwins⟩ := stopReached_exact htimeout hfits hreached
  refine ⟨⟨t, hclock, hpassed⟩, ?_, ?_⟩
  · intro hfirst
    rw [htext, Call.timeoutFailure, if_pos (hwins.mpr hfirst)]
    rfl
  · intro hfirst
    rw [htext, Call.timeoutFailure, if_neg (fun h => hfirst (hwins.mp h))]
    rfl

/-- The attempts of a Work with a nonnegative timeout and a nonnegative deadline, if any, are timed
out at the right time and for the right reason exactly when the timeout, added to the start of the
attempt, is a 64-bit integer. -/
theorem timedCorrectly_iff
    (work : WorkRecord) (startedAtMs : Int64)
    (htimeout : ∀ timeout ∈ work.timeoutMs, 0 ≤ timeout)
    (hdeadline : ∀ deadline ∈ work.deadlineMs, 0 ≤ deadline) :
  TimedCorrectly work startedAtMs ↔ SumFits work startedAtMs
  := by
  constructor
  · apply sumFits_of_timedCorrectly hdeadline
  · apply timedCorrectly_of_sumFits htimeout

/-- A Work with a timeout and a deadline. -/
def timedWork (timeoutMs deadlineMs : Option Int64) : WorkRecord where
  id := [49]
  workType := Bytes.ofString "text-generation/v1"
  state := .running
  effort := .standard
  urgency := .normal
  requiredCapabilities := []
  eligibleEngineIds := []
  exactEngineId := []
  exactModelId := []
  createdAtMs := 0
  eligibleAtMs := 0
  nextAttemptAtMs := 0
  deadlineMs := deadlineMs
  timeoutMs := timeoutMs
  maxAttempts := 1
  retryDelayMs := 0
  attemptCount := 1
  inputPath := []
  resultPath := []
  acknowledged := false
  cancelRequested := false
  selectedEngineId := []
  selectedModelId := []
  technicalFailure := []

theorem timedCorrectly_iff_tie :
  TimedCorrectly (timedWork (some 10) (some 15)) 5
  := by
  apply (timedCorrectly_iff (timedWork (some 10) (some 15)) 5 ?_ ?_).mpr
  · rintro timeout ⟨⟩
    decide
  · rintro timeout ⟨⟩
    decide
  · rintro deadline ⟨⟩
    decide

/-- A Work that practically has no timeout: an attempt that starts at 1 is timed out at once. -/
theorem largest_timeout_expires :
  ¬∀ (work : WorkRecord) (startedAtMs : Int64), (∀ timeout ∈ work.timeoutMs, 0 ≤ timeout) →
    (∀ deadline ∈ work.deadlineMs, 0 ≤ deadline) → TimedCorrectly work startedAtMs
  := by
  intro h
  have hcorrect := h (timedWork (some Int64.maxValue) none) 1
    (by rintro timeout ⟨⟩; decide) (by rintro deadline ⟨⟩)
  have hfits := sumFits_of_timedCorrectly (by rintro deadline ⟨⟩) hcorrect Int64.maxValue rfl
  revert hfits
  decide

end Kernel
