import MadreKernel.Pool.Programs
import MadreKernel.Wire.Encoding
import MadreKernel.Wire.Stream

/-!
# The main loop of a worker

A worker process reads a frame from its standard input, executes it, and reads the next one.  It
ends with status 0 when its input is closed, and with status 1 when it throws.  `mainLoop` is this
loop over what the reads and the writes of the process report.

When the executions of a worker answer as a function says, the loop writes the encodings of the
answers in the order of their requests, up to the first request that it does not answer.
-/

namespace Wire

def closedError : WireError := .runtime (Bytes.ofString "peer closed framed IPC")

/-- At the end of its input `read_frame` throws. -/
theorem readFrame_throwsAt (more : Source) :
  Consumer.ThrowsAt (.closed :: more) closedError readFrame
  := by
  have hread : ∀ size, Consumer.ThrowsAt (.closed :: more) closedError (readExact size) :=
    Consumer.ThrowsAt.readLoop (by simp) rfl
  have hsection : ∀ length, Consumer.ThrowsAt (.closed :: more) closedError (readSection readExact length) :=
    by
    intro length
    rw [readSection]
    split_ifs
    · apply hread
    · apply Consumer.ThrowsAt.lift (.ok [])
  apply (hread _).bind
  intro header
  apply (Consumer.ThrowsAt.lift _).bind
  intro h
  apply (hsection _).bind
  intro metadata
  apply (hsection _).bind
  intro payload
  apply (Consumer.ThrowsAt.lift _).bind
  intro decoded
  apply Consumer.ThrowsAt.lift (.ok _)

end Wire

namespace Kernel

open Wire

namespace WorkerMain

/-! ### The loop -/

/-- How `execute` ends, with the state of the worker after it. -/
inductive Executed (σ : Type) where
  | returned (state : σ) (sink : Sink)
  /-- it waits in a write -/
  | writing
  | threw (what : Bytes)
  /-- it has left the process -/
  | exited (status : Nat)
  /-- it waits forever -/
  | hanging

/-- How the process of a worker stands. -/
inductive Standing where
  | reading
  | writing
  | hanging
  | exited (status : Nat)
  deriving DecidableEq

/-- How the process stands when an execution ends. -/
def Executed.standing {σ : Type} : Executed σ → Standing
  | .returned _ _ => .reading
  | .writing => .writing
  | .threw _ => .exited 1
  | .exited status => .exited status
  | .hanging => .hanging

/-- `main` catches what `read_frame` throws. -/
def statusOf (e : WireError) : Standing :=
  .exited (if e.what = Bytes.ofString "peer closed framed IPC" then 0 else 1)

variable {σ : Type}

/-- The loop of `main`, for at most `n` requests: what it writes, and how it stands. -/
def mainLoop (execute : σ → Frame → Sink → Bytes × Executed σ) :
    Nat → σ → Source → Sink → Bytes × Standing
  | 0, _, _, _ => ([], .reading)
  | n + 1, state, src, sink =>
      match readFrame.run src with
      | .waiting => ([], .reading)
      | .raised e => ([], statusOf e)
      | .done request rest =>
          match execute state request sink with
          | (written, .returned state sink) =>
              let after := mainLoop execute n state rest sink
              (written ++ after.1, after.2)
          | (written, executed) => (written, executed.standing)

/-- `write_frame` of an answer. -/
def send (state : σ) (sink : Sink) (frame : Frame) : Bytes × Executed σ :=
  match writeFrame sink frame with
  | (written, .done () sink) => (written, .returned state sink)
  | (written, .waiting) => (written, .writing)
  | (written, .raised e) => (written, .threw e.what)

/-! ### Answers -/

/-- The execution writes the answer of a function on a descriptor that takes bytes or is
interrupted, or a part of it while the descriptor has not taken bytes often enough.  Where the
function has none, it does not return. -/
inductive Reacts (sink : Sink) (result : Bytes × Executed σ) : Option (σ × Frame) → Prop where
  | answered {state : σ} {frame : Frame} {octets : Bytes} {rest : Sink}
      (hencode : encodeFrame frame = .ok octets) (hresult : result = (octets, .returned state rest))
      (hrest : Progressing rest) (hle : acceptances sink ≤ acceptances rest + octets.length) :
      Reacts sink result (some (state, frame))
  | waits {state : σ} {frame : Frame} {octets written : Bytes}
      (hencode : encodeFrame frame = .ok octets) (hresult : result = (written, .writing))
      (hwritten : written <+: octets) (hlt : acceptances sink < octets.length) :
      Reacts sink result (some (state, frame))
  | stops (hstops : ∀ state rest, result.2 ≠ .returned state rest) : Reacts sink result none

theorem send_reacts
    {sink : Sink} (hsink : Progressing sink) {frame : Frame} {octets : Bytes}
    (hencode : encodeFrame frame = .ok octets) (state : σ) :
  Reacts sink (send state sink frame) (some (state, frame))
  := by
  rw [send, writeFrame, hencode]
  rcases writeExactTo_progressing hsink octets with
    ⟨rest, hwrites, hrest, hle⟩ | ⟨written, hwrites, hprefix, hlt⟩
  · simp only [hwrites]
    exact .answered hencode rfl hrest hle
  · simp only [hwrites]
    exact .waits hencode rfl hprefix hlt

/-- A failure with a plain and short text is encodable. -/
theorem encodable_failure
    (id : UInt64) {text : Bytes} (hplain : plainText text = true) (hlength : text.length ≤ 128) :
  encodable ⟨workerFailure, id,
    SortedMap.ofEntries [(Bytes.ofString "technical_failure", text)], []⟩ = true
  := by
  have hkey : plainKey (Bytes.ofString "technical_failure") = true
      ∧ (Bytes.ofString "technical_failure").length = 17 := by
    decide +kernel
  apply (encodable_iff_of_perm (l := [(Bytes.ofString "technical_failure", text)]) .rfl).mpr
  refine ⟨?_, ?_, Nat.zero_le _⟩
  · simp [hkey.1, hplain]
  · simp only [textLength, List.map_cons, List.map_nil, List.sum_cons, List.sum_nil, hkey.2,
      kMaxMetadata]
    omega

/-- A result within the limit is encodable. -/
theorem encodable_result
    (id : UInt64) {payload : Bytes}
    (hpayload : payload.length ≤ kMaxC1TextGenerationOpaquePayloadBytes) :
  encodable ⟨workerResult, id, ∅, payload⟩ = true
  := by
  apply (encodable_iff_of_perm (l := []) .rfl).mpr
  exact ⟨by simp, Nat.zero_le _, hpayload⟩

/-- The answers to some requests, up to the first one that is not answered, and the state of the
worker before this one. -/
def answers (react : σ → Frame → Option (σ × Frame)) :
    σ → List Frame → List Frame × Option (σ × Frame)
  | _, [] => ([], none)
  | state, request :: requests =>
      match react state request with
      | some (state, frame) =>
          let after := answers react state requests
          (frame :: after.1, after.2)
      | none => ([], some (state, request))

theorem answers_stops
    {react : σ → Frame → Option (σ × Frame)} {state state' : σ} {requests : List Frame}
    {request : Frame} (h : (answers react state requests).2 = some (state', request)) :
  react state' request = none
  := by
  induction requests generalizing state with
  | nil => cases h
  | cons first requests ih =>
      rw [answers] at h
      split at h
      next => exact ih h
      next hnone =>
        cases h
        exact hnone

/-- The end of the input, when it is closed. -/
def inputEnd (closed : Bool) : Source := if closed then [.closed] else []

/-- How the process stands behind the answers to all of its input. -/
def atEnd (closed : Bool) : Standing := if closed then .exited 0 else .reading

/-- `read_frame` on an input without a frame. -/
theorem readFrame_nothing {src : Source} (hsrc : src.Delivers []) (closed : Bool) :
  readFrame.run (src ++ inputEnd closed) = if closed then .raised closedError else .waiting
  := by
  have hwaiting : readFrame.run src = .waiting := (readFrame_follows src [] hsrc).of_waiting
  cases closed with
  | false =>
      rw [inputEnd, if_neg (by decide), List.append_nil, hwaiting]
      rfl
  | true =>
      rw [inputEnd, if_pos rfl, readFrame_throwsAt [] src, hwaiting]
      rfl

theorem readFrame_before {src rest : Source} {frame : Frame}
    (h : readFrame.run src = .done frame rest) (closed : Bool) :
  readFrame.run (src ++ inputEnd closed) = .done frame (rest ++ inputEnd closed)
  := by
  cases closed with
  | false => simpa [inputEnd] using h
  | true =>
      rw [inputEnd, if_pos rfl, readFrame_throwsAt [] src, h]
      rfl

variable {execute : σ → Frame → Sink → Bytes × Executed σ}
  {react : σ → Frame → Option (σ × Frame)}

/-- A worker whose executions have the answers of a function writes their encodings back to back,
under every pattern of partial reads and writes, until the end of its input or the first request
that it does not answer, or a part of them while the descriptor has not taken bytes often enough. -/
theorem mainLoop_reacts
    (hreacts : ∀ state request sink, Progressing sink →
      Reacts sink (execute state request sink) (react state request))
    (requests : List Frame) (wire : Bytes) (hwire : encodeFrames requests = .ok wire)
    (closed : Bool) (state : σ) (src : Source) (hsrc : src.Delivers wire) (sink : Sink)
    (hsink : Progressing sink) (n : Nat) (hn : requests.length < n) :
  ∃ octets, encodeFrames (answers react state requests).1 = .ok octets
    ∧ ((answers react state requests).2 = none
        ∧ mainLoop execute n state (src ++ inputEnd closed) sink = (octets, atEnd closed)
      ∨ (∃ state' request sink', (answers react state requests).2 = some (state', request)
        ∧ mainLoop execute n state (src ++ inputEnd closed) sink
          = (octets ++ (execute state' request sink').1,
            (execute state' request sink').2.standing))
      ∨ ∃ written, mainLoop execute n state (src ++ inputEnd closed) sink = (written, .writing)
        ∧ written <+: octets ∧ acceptances sink < octets.length)
  := by
  induction requests generalizing wire state src sink n with
  | nil =>
      cases hwire
      obtain ⟨n, rfl⟩ := Nat.exists_eq_succ_of_ne_zero (by omega : n ≠ 0)
      refine ⟨[], rfl, Or.inl ⟨rfl, ?_⟩⟩
      rw [mainLoop, readFrame_nothing hsrc]
      cases closed <;> rfl
  | cons request requests ih =>
      obtain ⟨encoded, tail, hencoded, htail, rfl⟩ := encodeFrames_cons_eq_ok hwire
      obtain ⟨n, rfl⟩ := Nat.exists_eq_succ_of_ne_zero (by omega : n ≠ 0)
      obtain ⟨rest, hread, hrest⟩ := readFrame_of_encodeFrame hencoded hsrc
      rw [mainLoop, readFrame_before hread, answers]
      have hreaction := hreacts state request sink hsink
      cases hreact : react state request with
      | none =>
          rw [hreact] at hreaction
          cases hreaction with
          | stops hstops =>
              refine ⟨[], rfl, Or.inr (Or.inl ⟨state, request, sink, rfl, ?_⟩)⟩
              -- As it does not return, the loop ends with what it comes to.
              simp only [List.nil_append]
      | some reaction =>
          obtain ⟨state', frame⟩ := reaction
          rw [hreact] at hreaction
          cases hreaction with
          | @answered _ _ octets sink' hencode hresult hsink' hle =>
              obtain ⟨later, hlater, hloop⟩ := ih tail htail state' rest hrest sink' hsink' n
                (by simpa using hn)
              refine ⟨octets ++ later, by simp only [encodeFrames, hencode, hlater], ?_⟩
              simp only [hresult]
              rcases hloop with ⟨hall, hdone⟩ | ⟨state'', request', sink'', hstuck, hdone⟩
                | ⟨written, hwaits, hprefix, hlt⟩
              · left
                refine ⟨hall, ?_⟩
                simp only [hdone]
              · right
                left
                refine ⟨state'', request', sink'', hstuck, ?_⟩
                simp only [hdone, List.append_assoc]
              · right
                right
                refine ⟨octets ++ written, by simp only [hwaits], ?_, ?_⟩
                · exact (List.prefix_append_right_inj _).mpr hprefix
                · rw [List.length_append]
                  omega
          | @waits _ _ octets written hencode hresult hprefix hlt =>
              -- The answers that are not written any more have encodings, too.
              have hempty : Progressing [] := by
                intro e he
                cases he
              obtain ⟨later, hlater, -⟩ := ih tail htail state' rest hrest [] hempty n
                (by simpa using hn)
              refine ⟨octets ++ later, by simp only [encodeFrames, hencode, hlater], ?_⟩
              right
              right
              refine ⟨written, by simp only [hresult, Executed.standing], ?_, ?_⟩
              · exact hprefix.trans (List.prefix_append _ _)
              · rw [List.length_append]
                omega

/-! ### The program of a worker -/

/-- The answers that a worker can give to a request. -/
def program (react : σ → Frame → Option (σ × Frame)) : WorkerProgram := fun request answer =>
  ∃ state state', react state request = some (state', answer)

/-- A process has answered the first of the requests that it has read. -/
theorem answers_program (state : σ) (requests : List Frame) :
  List.Forall₂ (program react) (requests.take (answers react state requests).1.length)
    (answers react state requests).1
  := by
  induction requests generalizing state with
  | nil => exact .nil
  | cons request requests ih =>
      rw [answers]
      split
      next state' frame hreact => exact .cons ⟨state, state', hreact⟩ (ih state')
      next => exact .nil

end WorkerMain

end Kernel
