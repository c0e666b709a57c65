import MadreKernel.Pool.Invariants
import MadreKernel.Pool.Reading

/-!
# What a worker is sent

The requests of the attempts follow each other in the standard input of a worker, as long as no
attempt is given up in the middle of its request.  The frames that the process reads are then the
first of these requests.
-/

namespace Kernel

open Wire

/-! ### Frames behind each other -/

/-- No frame is complete in a part of an encoded one. -/
theorem parseFrame_take_ne_done
    {frame frame' : Frame} {encoded rest : Bytes} {offset : Nat}
    (hencode : encodeFrame frame = .ok encoded) (hlt : offset < encoded.length) :
  parseFrame.run (encoded.take offset) ≠ .done frame' rest
  := by
  intro hdone
  have hall := parseFrame_streaming.done_append (encoded.drop offset) hdone
  have hwhole := parseFrame_encodeFrame hencode []
  rw [List.append_nil] at hwhole
  rw [List.take_append_drop, hwhole] at hall
  have hlength := congrArg List.length (List.append_eq_nil_iff.mp (Outcome.done.inj hall).2.symm).2
  rw [List.length_drop, List.length_nil] at hlength
  omega

/-- What is read from the front of encoded frames is the first of these frames, when there is no
frame behind them. -/
theorem parseFrames_of_encoded
    {n : Nat} {requests : List Request} {frames gs : List Frame} {b tail rest : Bytes}
    (hencoded : List.Forall₂ (fun (q : Request) frame => encodeFrame frame = .ok q.octets) requests
      frames)
    (htail : ∀ frame rest, parseFrame.run tail ≠ .done frame rest)
    (hlead : b <+: (requests.map (·.octets)).flatten ++ tail)
    (h : (parseFrames n).run b = .done gs rest) :
  n ≤ requests.length ∧ gs = frames.take n
    ∧ b = ((requests.take n).map (·.octets)).flatten ++ rest
  := by
  induction n generalizing requests frames gs b with
  | zero =>
      cases h
      exact ⟨Nat.zero_le _, rfl, rfl⟩
  | succ n ih =>
      obtain ⟨g, gs', rest', hg, hgs, rfl⟩ := parseFrames_succ h
      obtain ⟨suffix, hsuffix⟩ := hlead
      have hall := parseFrame_streaming.done_append suffix hg
      rw [hsuffix] at hall
      cases hencoded with
      | nil => exact absurd hall (htail _ _)
      | @cons q frame requests frames hq hencoded =>
          rw [List.map_cons, List.flatten_cons, List.append_assoc,
            parseFrame_encodeFrame hq] at hall
          obtain ⟨rfl, hrest⟩ := Outcome.done.inj hall
          have hb : b = q.octets ++ rest' := by
            rw [List.map_cons, List.flatten_cons, List.append_assoc, hrest,
              ← List.append_assoc] at hsuffix
            exact List.append_cancel_right hsuffix
          obtain ⟨hle, rfl, hrest'⟩ := ih hencoded ⟨suffix, hrest.symm⟩ hgs
          refine ⟨Nat.succ_le_succ hle, rfl, ?_⟩
          rw [List.take_succ_cons, List.map_cons, List.flatten_cons, List.append_assoc, ← hrest',
            hb]

/-! ### What is written to a worker -/

namespace Worker

/-- The requests that have been written, as they follow each other in the standard input. -/
def requestOctets (w : Worker) : Bytes := (w.requests.map (·.octets)).flatten

end Worker

/-- A request is a frame with its correlation id, and ends where it was written to its end. -/
structure Worker.Framed (w : Worker) : Prop where
  frame : ∀ q ∈ w.requests,
    ∃ frame, encodeFrame frame = .ok q.octets ∧ frame.correlationId = q.correlationId
  ends : ∀ k q, w.requests[k]? = some q →
    q.endsAt = ((w.requests.take (k + 1)).map (·.octets)).flatten.length

theorem Worker.Framed.congr {w w' : Worker} (h : w.Framed) (hsame : w'.requests = w.requests) :
  w'.Framed
  := by
  constructor
  · rw [hsame]
    exact h.frame
  · rw [hsame]
    exact h.ends

/-- Behind the requests there is no frame in the standard input. -/
def Worker.Whole (w : Worker) : Prop :=
  ∃ tail, (∀ frame rest, parseFrame.run tail ≠ .done frame rest)
    ∧ w.stdin = w.requestOctets ++ tail

theorem Worker.whole_of_eq {w : Worker} (h : w.stdin = w.requestOctets) :
  w.Whole
  := by
  use []
  rw [List.append_nil]
  exact ⟨nofun, h⟩

/-- The cancellation callback throws. -/
def Input.throws : Input → Bool
  | .answers false (.error _) _ => true
  | _ => false

namespace Runtime

/-- What has been written to a worker whose call stands at a stage. -/
def WrittenAt (c : Call) (w : Worker) : Execute.Stage → Prop
  | .sending request offset =>
      encodeFrame (c.requestFrame w.engineId) = .ok request ∧ offset < request.length
        ∧ w.stdin = w.requestOctets ++ request.take offset
  | .failed => w.Whole
  | _ => w.stdin = w.requestOctets

theorem WrittenAt.whole {c : Call} {w : Worker} {stage : Execute.Stage} (h : WrittenAt c w stage) :
  w.Whole
  := by
  cases stage with
  | entering => exact Worker.whole_of_eq h
  | sending request offset =>
      obtain ⟨hencode, hlt, hstdin⟩ := h
      use request.take offset
      exact ⟨fun frame rest => parseFrame_take_ne_done hencode hlt, hstdin⟩
  | receiving => exact Worker.whole_of_eq h
  | failed => exact h

/-- A worker on which no call runs. -/
def Written (w : Worker) : Prop := w.Framed ∧ (w.child ≠ none → w.stdin = w.requestOctets)

/-- A worker on which a call runs. -/
def WrittenIn (c : Call) (phase : Phase) (w : Worker) : Prop :=
  w.Framed ∧ (w.child ≠ none → WrittenAt c w (Execute.stage phase))

/-- The cancellation callback does not throw while a part of the request has been written. -/
def throwsBetween (phase : Phase) (input : Input) : Bool :=
  match phase with
  | .sending _ offset => !input.throws || offset = 0
  | _ => true

theorem handled_same {w w' : Worker} (h : w.Handled w') :
  w'.requests = w.requests ∧ w'.stdin = w.stdin ∧ w'.answered = w.answered
  := by
  obtain ⟨busy, lastUsedMs, child, status, -, rfl⟩ := h
  exact ⟨rfl, rfl, rfl⟩

theorem readTurn_same
    {w w' : Worker} {reports : Source} {result : Except WireError (Option Frame)}
    (h : w.readTurn reports = some (result, w')) :
  w'.requests = w.requests ∧ w'.stdin = w.stdin ∧ w'.answered = w.answered
  := by
  obtain ⟨buffer, received, rfl⟩ := Worker.readTurn_eq h
  exact ⟨rfl, rfl, rfl⟩

theorem WrittenAt.congr
    {c : Call} {w w' : Worker} {stage : Execute.Stage} (h : WrittenAt c w stage)
    (hsame : w'.requests = w.requests ∧ w'.stdin = w.stdin) (hengine : w'.engineId = w.engineId) :
  WrittenAt c w' stage
  := by
  cases stage with
  | _ =>
      simp only [WrittenAt, Worker.Whole, Worker.requestOctets, hsame, hengine] at h ⊢
      exact h

theorem written_handled {w w' : Worker} (h : Written w) (hw : w.Handled w') :
  Written w'
  := by
  obtain ⟨hrequests, hstdin, -⟩ := handled_same hw
  refine ⟨h.1.congr hrequests, ?_⟩
  intro hchild
  rw [Worker.requestOctets, hrequests, hstdin]
  exact h.2 fun hnone => hchild (hw.later.gone hnone)

/-- The request loop goes on while octets of the request are left. -/
theorem writtenAt_sendLoop
    {c : Call} {w : Worker} {request : Bytes} {offset : Nat}
    (hencode : encodeFrame (c.requestFrame w.engineId) = .ok request)
    (hlt : offset < request.length) (hstdin : w.stdin = w.requestOctets ++ request.take offset) :
  WrittenAt c w (Execute.stage (Execute.sendLoop request offset))
  := by
  rw [Execute.sendLoop, if_pos hlt]
  exact ⟨hencode, hlt, hstdin⟩

/-- The request that is complete ends where the standard input ends. -/
theorem framed_writeRequest
    {c : Call} {w : Worker} {request : Bytes} {offset count : Nat} (hframed : w.Framed)
    (h : WrittenAt c w (.sending request offset)) (hle : offset + count ≤ request.length) :
  (w.writeRequest c.attempt c.correlationId request offset count).Framed
  := by
  obtain ⟨hencode, -, hstdin⟩ := h
  by_cases hmore : offset + count < request.length
  · apply hframed.congr
    simp only [Worker.writeRequest, if_pos hmore]
  · have hoctets : w.stdin ++ (request.drop offset).take count = w.requestOctets ++ request := by
      rw [hstdin, List.append_assoc, ← List.take_add, List.take_of_length_le (by omega)]
    constructor
    · intro q hq
      simp only [Worker.writeRequest, if_neg hmore] at hq
      rcases List.mem_append.mp hq with hold | hnew
      · exact hframed.frame q hold
      · rw [List.mem_singleton.mp hnew]
        exact ⟨_, hencode, rfl⟩
    · intro k q hq
      simp only [Worker.writeRequest, if_neg hmore] at hq ⊢
      by_cases hk : k < w.requests.length
      · rw [List.getElem?_append_left hk] at hq
        rw [List.take_append_of_le_length (by omega)]
        exact hframed.ends k q hq
      · have hlength := (List.getElem?_eq_some_iff.mp hq).1
        rw [List.length_append, List.length_singleton] at hlength
        obtain rfl : k = w.requests.length := by omega
        rw [List.getElem?_append_right le_rfl, Nat.sub_self, List.getElem?_cons_zero,
          Option.some_inj] at hq
        rw [List.take_of_length_le (by simp), ← hq]
        simp only [hoctets, Worker.requestOctets, List.map_append, List.flatten_append,
          List.map_cons, List.map_nil, List.flatten_cons, List.flatten_nil, List.append_nil]

theorem writtenAt_writeRequest
    {c : Call} {w : Worker} {request : Bytes} {offset count : Nat}
    (h : WrittenAt c w (.sending request offset)) (hle : offset + count ≤ request.length) :
  WrittenAt c (w.writeRequest c.attempt c.correlationId request offset count)
    (Execute.stage (Execute.sendLoop request (offset + count)))
  := by
  obtain ⟨hencode, -, hstdin⟩ := h
  have hoctets : w.stdin ++ (request.drop offset).take count
      = w.requestOctets ++ request.take (offset + count) := by
    rw [hstdin, List.take_add, List.append_assoc]
  rw [Execute.sendLoop]
  split_ifs with hmore
  · refine ⟨hencode, hmore, ?_⟩
    simp only [Worker.writeRequest, Worker.requestOctets, if_pos hmore]
    exact hoctets
  · have hall : request.take (offset + count) = request := by
      apply List.take_of_length_le
      omega
    rw [hall] at hoctets
    simp only [Execute.stage, WrittenAt, Worker.writeRequest, Worker.requestOctets, if_neg hmore,
      hoctets]
    simp

/-- A step of the call keeps what was written: a part of its request, behind complete requests. -/
theorem WrittenIn.goesOn
    {c : Call} {w w' : Worker} {phase phase' : Phase} {input : Input} (h : WrittenIn c phase w)
    (hmoves : Execute.Moves c w phase input w' (.goesOn phase')) :
  WrittenIn c phase' w'
  := by
  obtain ⟨hframed, hbefore⟩ := h
  have hwritten : w'.child ≠ none → WrittenAt c w (Execute.stage phase) :=
    fun hchild => hbefore fun hnone => hchild (hmoves.later.1.gone hnone)
  cases hmoves with
  | entered hrun hencode =>
      refine ⟨hframed, ?_⟩
      intro hchild
      apply writtenAt_sendLoop hencode (encodeFrame_length_pos hencode)
      rw [List.take_zero, List.append_nil]
      exact hwritten hchild
  | kept hstage =>
      rw [WrittenIn, hstage]
      exact ⟨hframed, hwritten⟩
  | failedWrite => exact ⟨hframed, fun hchild => (hwritten hchild).whole⟩
  | resent =>
      refine ⟨hframed, ?_⟩
      intro hchild
      obtain ⟨hencode, hlt, hstdin⟩ := hwritten hchild
      exact writtenAt_sendLoop hencode hlt hstdin
  | wrote hrun hpos hle =>
      have hchild : w.child ≠ none := by
        intro hnone
        rw [Worker.running_of_child_none hnone] at hrun
        cases hrun
      exact ⟨framed_writeRequest hframed (hbefore hchild) hle,
        fun _ => writtenAt_writeRequest (hbefore hchild) hle⟩
  | readNothing hstage hstage' hturn =>
      obtain ⟨hrequests, hstdin, -⟩ := readTurn_same hturn
      rw [hstage] at hwritten
      rw [WrittenIn, hstage']
      exact ⟨hframed.congr hrequests, fun hchild => (hwritten hchild).congr ⟨hrequests, hstdin⟩
        (Worker.readTurn_later hturn).1.engineId⟩
  | failedRead hstage hstage' hturn =>
      obtain ⟨hrequests, hstdin, -⟩ := readTurn_same hturn
      rw [WrittenIn, hstage']
      exact ⟨hframed.congr hrequests, fun hchild => ((hwritten hchild).congr ⟨hrequests, hstdin⟩
        (Worker.readTurn_later hturn).1.engineId).whole⟩

/-- A call that returns has written all of its request, or its process is gone. -/
theorem WrittenIn.returned
    {c : Call} {w w' : Worker} {phase : Phase} {input : Input} {outcome : WorkerOutcome}
    (h : WrittenIn c phase w)
    (hmoves : Execute.Moves c w phase input w' (.returned outcome)) :
  Written w'
  := by
  obtain ⟨hframed, hbefore⟩ := h
  have hwritten : w'.child ≠ none → WrittenAt c w (Execute.stage phase) :=
    fun hchild => hbefore fun hnone => hchild (hmoves.later.1.gone hnone)
  cases hmoves with
  | ended => exact ⟨hframed.congr rfl, fun hchild => absurd rfl hchild⟩
  | answered hstage hturn =>
      obtain ⟨hrequests, hstdin, -⟩ := readTurn_same hturn
      rw [hstage] at hwritten
      refine ⟨hframed.congr hrequests, ?_⟩
      intro hchild
      simp only [Worker.requestOctets, hrequests, hstdin]
      exact hwritten hchild

/-- A call that throws has written all or nothing of its request, when it may throw. -/
theorem WrittenIn.threw
    {c : Call} {w w' : Worker} {phase : Phase} {input : Input} {what : Bytes}
    (h : WrittenIn c phase w) (hallowed : throwsBetween phase input = true)
    (hmoves : Execute.Moves c w phase input w' (.threw what)) :
  Written w'
  := by
  obtain ⟨hframed, hwritten⟩ := h
  cases hmoves with
  | threwSending request offset =>
      have hzero : offset = 0 := by
        simpa [throwsBetween, Input.throws] using hallowed
      refine ⟨hframed, ?_⟩
      intro hchild
      obtain ⟨-, -, hstdin⟩ := hwritten hchild
      rw [hzero, List.take_zero, List.append_nil] at hstdin
      exact hstdin
  | threwChecking => exact ⟨hframed, hwritten⟩

theorem written_rule :
  WorkerRule Written WrittenIn AnyAct fun phase input => throwsBetween phase input = true
  where
  spawned launch engineId pid inputFd outputFd nowMs :=
    ⟨⟨nofun, fun k q hq => by cases hq⟩, fun _ => rfl⟩
  idle_handled := written_handled
  busy_handled {c phase w w'} h hw := by
    obtain ⟨hrequests, hstdin, -⟩ := handled_same hw
    refine ⟨h.1.congr hrequests, ?_⟩
    intro hchild
    have hwritten := h.2 fun hnone => hchild (hw.later.gone hnone)
    exact hwritten.congr ⟨hrequests, hstdin⟩ hw.later.engineId
  idle_act {w w' a} h _ hact := by
    obtain ⟨hrequests, hstdin, -⟩ := Worker.act_requests hact
    refine ⟨h.1.congr hrequests, ?_⟩
    intro hchild
    rw [Worker.requestOctets, hrequests, hstdin]
    exact h.2 fun hnone => hchild ((Worker.act_later hact).1.gone hnone)
  busy_act {c phase w w' a} h _ hact := by
    obtain ⟨hrequests, hstdin, -⟩ := Worker.act_requests hact
    refine ⟨h.1.congr hrequests, ?_⟩
    intro hchild
    have hwritten := h.2 fun hnone => hchild ((Worker.act_later hact).1.gone hnone)
    exact hwritten.congr ⟨hrequests, hstdin⟩ (Worker.act_later hact).1.engineId
  called h _ := h
  goesOn h _ hmoves := h.goesOn hmoves
  returned h _ hmoves := h.returned hmoves
  threw h hallowed hmoves := h.threw hallowed hmoves

/-- What was written to a worker whose child is there. -/
theorem Workers.whole
    {r : Runtime} (h : r.Workers Written WrittenIn) {i : Nat} (hi : i < r.pool.count)
    (hchild : (r.pool.worker i).child ≠ none) :
  (r.pool.worker i).Framed ∧ (r.pool.worker i).Whole
  := by
  by_cases hbusy : ∃ lease c phase, r.leases.get? lease = some (some i)
      ∧ r.calls lease = some (c, phase)
  · obtain ⟨lease, c, phase, hlease, hcall⟩ := hbusy
    obtain ⟨hframed, hwritten⟩ := h.busy lease i c phase hlease hcall
    exact ⟨hframed, (hwritten hchild).whole⟩
  · obtain ⟨hframed, hwritten⟩ := h.idle i hi (by
      intro lease hlease
      cases hcall : r.calls lease with
      | none => rfl
      | some call => exact absurd ⟨lease, call.1, call.2, hlease, hcall⟩ hbusy)
    exact ⟨hframed, Worker.whole_of_eq (hwritten hchild)⟩

/-! ### What a process reads -/

theorem getElem?_of_forall₂ {α β : Type} {R : α → β → Prop} {l : List α} {l' : List β}
    (h : List.Forall₂ R l l') {k : Nat} {b : β} (hb : l'[k]? = some b) :
  ∃ a, l[k]? = some a ∧ R a b
  := by
  induction h generalizing k with
  | nil => cases hb
  | @cons a' b' l l' hab _ ih =>
      cases k with
      | zero =>
          rw [List.getElem?_cons_zero, Option.some_inj] at hb
          exact ⟨a', rfl, hb ▸ hab⟩
      | succ k => exact ih hb

/-- A frame is that of a request. -/
def FrameOf (q : Request) (frame : Frame) : Prop :=
  encodeFrame frame = .ok q.octets ∧ frame.correlationId = q.correlationId

/-- The frames of the requests of a worker. -/
theorem exists_frames {w : Worker} (h : w.Framed) :
  ∃ frames, List.Forall₂ FrameOf w.requests frames
  := by
  have hall : ∀ l : List Request, (∀ q ∈ l, ∃ frame, FrameOf q frame) →
      ∃ frames, List.Forall₂ FrameOf l frames := by
    intro l
    induction l with
    | nil => exact fun _ => ⟨[], .nil⟩
    | cons q l ih =>
        intro hl
        obtain ⟨frame, hframe⟩ := hl q List.mem_cons_self
        obtain ⟨frames, hframes⟩ := ih fun q hq => hl q (List.mem_cons_of_mem _ hq)
        exact ⟨frame :: frames, .cons hframe hframes⟩
  exact hall w.requests h.frame

/-- What a process reads are requests that were written to it. -/
theorem requests_of_read
    {w : Worker} (hframed : w.Framed) (hwhole : w.Whole) {n : Nat} {read : List Frame}
    {rest : Bytes}
    (h : (parseFrames n).run (w.stdin.take w.readCount) = .done read rest) {k : Nat} {frame : Frame}
    (hframe : read[k]? = some frame) :
  ∃ q, w.requests[k]? = some q ∧ FrameOf q frame ∧ q.endsAt ≤ w.readCount
  := by
  obtain ⟨frames, hframes⟩ := exists_frames hframed
  obtain ⟨tail, htail, hstdin⟩ := hwhole
  have hencoded := hframes.imp fun q frame hqf => hqf.1
  have hprefix : w.stdin.take w.readCount <+: (w.requests.map (·.octets)).flatten ++ tail := by
    rw [hstdin]
    apply List.take_prefix
  obtain ⟨hle, rfl, hread⟩ := parseFrames_of_encoded hencoded htail hprefix h
  have hk : k < n := by
    have hlt := (List.getElem?_eq_some_iff.mp hframe).1
    rw [List.length_take] at hlt
    omega
  rw [List.getElem?_take, if_pos hk] at hframe
  obtain ⟨q, hq, hof⟩ := getElem?_of_forall₂ hframes hframe
  refine ⟨q, hq, hof, ?_⟩
  -- The requests up to this one are in front of what has been read.
  have hprefix : w.requests.take (k + 1) <+: w.requests.take n := by
    apply List.take_prefix_take_left
    omega
  obtain ⟨later, hlater⟩ := hprefix
  have hlength := congrArg List.length hread
  rw [← hlater, List.map_append, List.flatten_append, List.length_append, List.length_append,
    ← hframed.ends k q hq, List.length_take] at hlength
  omega

end Runtime

/-! ### What a process may send -/

/-- The complete frames at the front of some octets, a number of them at most. -/
def framesUpTo : Nat → Bytes → List Frame
  | 0, _ => []
  | n + 1, b =>
      match parseFrame.run b with
      | .done frame rest => frame :: framesUpTo n rest
      | _ => []

namespace Worker

/-- The frames that the process has read. -/
def framesRead (w : Worker) : List Frame := framesUpTo w.readCount (w.stdin.take w.readCount)

/-- What a process may send: a frame with the correlation id of a request that it has read, or
octets that the framing rejects. -/
def permitted (w : Worker) (octets : Bytes) : Bool :=
  match parseFrame.run octets with
  | .done frame rest =>
      rest = [] && w.framesRead.any fun request => request.correlationId = frame.correlationId
  | .raised _ => true
  | .waiting => false

end Worker

theorem parseFrames_framesUpTo (n : Nat) (b : Bytes) :
  ∃ rest, (parseFrames (framesUpTo n b).length).run b = .done (framesUpTo n b) rest
  := by
  induction n generalizing b with
  | zero => exact ⟨b, rfl⟩
  | succ n ih =>
      rw [framesUpTo]
      split
      next frame rest hframe =>
        obtain ⟨rest', hrest⟩ := ih rest
        use rest'
        rw [List.length_cons, parseFrames, Consumer.run_bind, hframe]
        simp only [Consumer.run_bind, hrest]
        rfl
      next => exact ⟨b, rfl⟩

/-- A frame takes octets. -/
theorem length_lt_of_parseFrame {b rest : Bytes} {frame : Frame}
    (h : parseFrame.run b = .done frame rest) :
  rest.length < b.length
  := by
  obtain ⟨octets, rfl, hrun⟩ := parseFrame_streaming.consumed h
  cases octets with
  | nil => cases hrun
  | cons octet octets =>
      rw [List.length_append, List.length_cons]
      omega

/-- No frame is left out, when there are as many as there are octets. -/
theorem prefix_framesUpTo {m n : Nat} {b rest : Bytes} {frames : List Frame} (hle : b.length ≤ n)
    (h : (parseFrames m).run b = .done frames rest) :
  frames <+: framesUpTo n b
  := by
  induction n generalizing m b frames with
  | zero =>
      cases m with
      | zero =>
          cases h
          apply List.prefix_refl
      | succ m =>
          obtain ⟨frame, frames', rest', hframe, -, -⟩ := parseFrames_succ h
          have hlt := length_lt_of_parseFrame hframe
          omega
  | succ n ih =>
      cases m with
      | zero =>
          cases h
          apply List.nil_prefix
      | succ m =>
          obtain ⟨frame, frames', rest', hframe, hframes, rfl⟩ := parseFrames_succ h
          have hlt := length_lt_of_parseFrame hframe
          rw [framesUpTo, hframe]
          exact List.prefix_cons_inj frame |>.mpr (ih (by omega) hframes)

end Kernel
