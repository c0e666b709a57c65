import MadreKernel.Pool.Execute

/-!
# Ending an attempt

Each time a call of `execute` asks whether to go on, the Kernel may be stopping, the Work may be
cancelled, the question itself may throw, or the stop time may be reached.  A call that is told so
at each of its questions is `Interrupted`.  It goes on for a few steps only, whatever the child does;
and no step of a call waits for the child, so that it can always be made.
-/

namespace Kernel

open Wire

namespace Execute

/-- The phases in which a call asks whether to go on. -/
def asks : Phase → Bool
  | .sending _ _ => true
  | .checking => true
  | _ => false

/-- The answers that do not let a call go on. -/
def Interrupting (c : Call) (stopping : Bool) (cancellation : Except Bytes Bool) (nowMs : Int64) :
    Prop :=
  stopping = true ∨ cancellation ≠ .ok false ∨ c.stopTimeReached nowMs = true

/-- An input that lets a call go on nowhere. -/
def Interrupted (c : Call) (input : Input) : Prop :=
  ∀ stopping cancellation nowMs, input = .answers stopping cancellation nowMs →
    Interrupting c stopping cancellation nowMs

/-- The steps that a call has left at most while it is interrupted. -/
def remaining : Phase → Nat
  | .entering => 5
  | .sending _ _ => 1
  | .probingToSend _ _ => 7
  | .writing _ _ => 6
  | .writeFailed _ => 1
  | .pollingToSend _ _ => 5
  | .reading => 4
  | .readFailed _ => 1
  | .checking => 3
  | .lastReading _ => 2
  | .probing => 6
  | .polling => 5

theorem remaining_le (phase : Phase) :
  remaining phase ≤ 7
  := by
  cases phase <;> simp [remaining]

theorem remaining_sendLoop (request : Bytes) (offset : Nat) :
  remaining (sendLoop request offset) ≤ 4
  := by
  rw [sendLoop]
  split_ifs <;> simp [remaining]

/-! ### An interrupted call ends -/

theorem remaining_probed
    {w : Worker} {next : Worker → Worker × Progress} {n : Nat}
    (hnext : ∀ w phase, (next w).2 = .goesOn phase → remaining phase < n) {phase : Phase}
    (h : (probed w next).2 = .goesOn phase) :
  remaining phase < n
  := by
  rw [probed] at h
  split at h
  · cases h
  · exact hnext _ _ h

theorem remaining_polled
    {w : Worker} {failure : Option Bytes} {what : String} {next phase : Phase}
    (h : (polled w failure what next).2 = .goesOn phase) :
  phase = next
  := by
  cases failure with
  | none =>
      cases h
      rfl
  | some reason => cases h

theorem remaining_checkSending
    {c : Call} {w : Worker} {request : Bytes} {offset : Nat} {stopping : Bool}
    {cancellation : Except Bytes Bool} {nowMs : Int64}
    (hinterrupting : Interrupting c stopping cancellation nowMs) (phase : Phase) :
  (checkSending c w request offset stopping cancellation nowMs).2 ≠ .goesOn phase
  := by
  rw [checkSending.eq_def]
  cases stopping with
  | true => simp
  | false =>
      simp only [Bool.false_eq_true, if_false]
      cases cancellation with
      | error what => simp
      | ok cancelled =>
          cases cancelled with
          | true => simp
          | false =>
              rcases hinterrupting with hstop | hcancel | hreached
              · cases hstop
              · exact absurd rfl hcancel
              · simp [hreached]

theorem remaining_check
    {c : Call} {w : Worker} {stopping : Bool} {cancellation : Except Bytes Bool} {nowMs : Int64}
    (hinterrupting : Interrupting c stopping cancellation nowMs) {phase : Phase}
    (h : (check c w stopping cancellation nowMs).2 = .goesOn phase) :
  ∃ verdict, phase = .lastReading verdict
  := by
  rw [check.eq_def] at h
  cases stopping with
  | true => cases h
  | false =>
      simp only [Bool.false_eq_true, if_false] at h
      cases cancellation with
      | error what => cases h
      | ok cancelled =>
          cases cancelled with
          | true =>
              cases h
              exact ⟨_, rfl⟩
          | false =>
              rcases hinterrupting with hstop | hcancel | hreached
              · cases hstop
              · exact absurd rfl hcancel
              · simp only [hreached, if_true] at h
                cases h
                exact ⟨_, rfl⟩

theorem remaining_read
    {c : Call} {w w' : Worker} {reports : Source} {silent : Worker → Worker × Progress} {n : Nat}
    (hn : 1 < n) (hsilent : ∀ w phase, (silent w).2 = .goesOn phase → remaining phase < n)
    {phase : Phase} (h : read c w reports silent = some (w', .goesOn phase)) :
  remaining phase < n
  := by
  rw [read, Option.map_eq_some_iff] at h
  obtain ⟨⟨result, w₁⟩, -, h⟩ := h
  cases result with
  | error e =>
      cases h
      exact hn
  | ok response =>
      cases response with
      | none =>
          apply hsilent w₁
          rw [show silent w₁ = (w', .goesOn phase) from h]
      | some response => cases h

/-- Each step of an interrupted call takes it nearer to its end. -/
theorem remaining_step
    {c : Call} {w w' : Worker} {phase phase' : Phase} {input : Input}
    (hinterrupted : Interrupted c input) (h : step c w phase input = some (w', .goesOn phase')) :
  remaining phase' < remaining phase
  := by
  have hresult : ∀ {result : Worker × Progress}, some result = some (w', Progress.goesOn phase') →
      result.2 = .goesOn phase' := by
    rintro result ⟨⟩
    rfl
  rw [step.eq_def] at h
  split at h
  case h_1 =>
    apply remaining_probed _ (hresult h)
    intro w phase hnext
    split at hnext
    · cases hnext
    · cases hnext
      exact (remaining_sendLoop _ _).trans_lt (by simp [remaining])
  case h_2 => exact absurd (hresult h) (remaining_checkSending (hinterrupted _ _ _ rfl) phase')
  case h_3 =>
    apply remaining_probed _ (hresult h)
    rintro w phase ⟨⟩
    simp [remaining]
  case h_4 request offset result =>
    cases result with
    | wrote count =>
        rw [write] at h
        split_ifs at h
        cases h
        exact (remaining_sendLoop _ _).trans_lt (by simp [remaining])
    | blocked =>
        cases h
        simp [remaining]
    | failed reason =>
        cases h
        simp [remaining]
  case h_5 =>
    apply remaining_probed _ (hresult h)
    rintro w phase ⟨⟩
  case h_6 =>
    rw [remaining_polled (hresult h)]
    exact (remaining_sendLoop _ _).trans_lt (by simp [remaining])
  case h_7 =>
    apply remaining_read (by simp [remaining]) _ h
    rintro w phase ⟨⟩
    simp [remaining]
  case h_8 =>
    apply remaining_probed _ (hresult h)
    rintro w phase ⟨⟩
  case h_9 =>
    obtain ⟨verdict, rfl⟩ := remaining_check (hinterrupted _ _ _ rfl) (hresult h)
    simp [remaining]
  case h_10 =>
    apply remaining_read (by simp [remaining]) _ h
    rintro w phase ⟨⟩
  case h_11 =>
    apply remaining_probed _ (hresult h)
    rintro w phase ⟨⟩
    simp [remaining]
  case h_12 =>
    rw [remaining_polled (hresult h)]
    simp [remaining]
  case h_13 => cases h

/-! ### A call never waits -/

/-- A turn can be read, whatever is in the pipe. -/
theorem exists_read (c : Call) (w : Worker) (silent : Worker → Worker × Progress) :
  ∃ reports result, read c w reports silent = some result
  := by
  use Source.ofBytes w.available
  rw [read, Worker.readTurn]
  split_ifs with hchild hreports
  · exact ⟨_, rfl⟩
  · exact ⟨_, rfl⟩
  · exact absurd ⟨Source.open_ofBytes _, Source.content_ofBytes _⟩ hreports

/-- In a phase in which it asks, a call takes any answer. -/
theorem step_answers
    (c : Call) (w : Worker) {phase : Phase} (hasks : asks phase = true) (stopping : Bool)
    (cancellation : Except Bytes Bool) (nowMs : Int64) :
  ∃ result, step c w phase (.answers stopping cancellation nowMs) = some result
  := by
  cases phase with
  | sending request offset => exact ⟨_, rfl⟩
  | checking => exact ⟨_, rfl⟩
  | _ => cases hasks

/-- In any other phase a step is possible that needs no answer. -/
theorem exists_step (c : Call) (w : Worker) {phase : Phase} (hasks : asks phase = false) :
  ∃ input result, (∀ stopping cancellation nowMs, input ≠ .answers stopping cancellation nowMs)
    ∧ step c w phase input = some result
  := by
  cases phase with
  | sending request offset => cases hasks
  | checking => cases hasks
  | writing request offset => exact ⟨.write .blocked, _, by simp, rfl⟩
  | pollingToSend request offset => exact ⟨.poll none, _, by simp, rfl⟩
  | polling => exact ⟨.poll none, _, by simp, rfl⟩
  | reading =>
      obtain ⟨reports, result, hread⟩ := exists_read c w fun w => (w, .goesOn .checking)
      exact ⟨.read reports, result, by simp, hread⟩
  | lastReading verdict =>
      obtain ⟨reports, result, hread⟩ := exists_read c w fun w =>
        (w.terminate, .returned (conclude c verdict))
      exact ⟨.read reports, result, by simp, hread⟩
  | _ => exact ⟨.probe, _, by simp, rfl⟩

end Execute

end Kernel
