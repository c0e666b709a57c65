import MadreKernel.Pool.Worker

/-!
# Reading the responses of a worker

A worker is `Aligned` when what its reader holds and what is still to come from its pipe are
together its output behind the frames that were taken from it.  A turn that returns no frame
keeps the worker aligned; the frame that a turn returns is the next one in the output.
-/

namespace Kernel

open Wire

/-! ### Reading frames one after the other -/

/-- `read_frame`, as often as it is called. -/
def parseFrames : Nat → Consumer Bytes WireError (List Frame)
  | 0 => pure []
  | n + 1 => do
      let frame ← parseFrame
      let frames ← parseFrames n
      return frame :: frames

theorem parseFrames_streaming (n : Nat) :
  (parseFrames n).Streaming
  := by
  induction n with
  | zero => apply Consumer.Streaming.pure
  | succ n ih =>
      apply parseFrame_streaming.bind
      intro frame
      apply ih.bind
      intro frames
      apply Consumer.Streaming.pure

theorem parseFrames_succ {n : Nat} {b rest : Bytes} {frames : List Frame}
    (h : (parseFrames (n + 1)).run b = .done frames rest) :
  ∃ frame frames' rest', parseFrame.run b = .done frame rest'
    ∧ (parseFrames n).run rest' = .done frames' rest ∧ frames = frame :: frames'
  := by
  rw [parseFrames, Consumer.run_bind] at h
  cases hframe : parseFrame.run b with
  | done frame rest' =>
      simp only [hframe, Consumer.run_bind] at h
      cases hframes : (parseFrames n).run rest' with
      | done frames' rest'' =>
          simp only [hframes] at h
          cases h
          exact ⟨frame, frames', rest', rfl, hframes, rfl⟩
      | waiting =>
          simp only [hframes] at h
          cases h
      | raised e =>
          simp only [hframes] at h
          cases h
  | waiting =>
      simp only [hframe] at h
      cases h
  | raised e =>
      simp only [hframe] at h
      cases h

/-- The frames before the last one. -/
theorem parseFrames_take {n : Nat} {b rest : Bytes} {frames : List Frame}
    (h : (parseFrames (n + 1)).run b = .done frames rest) :
  ∃ rest', (parseFrames n).run b = .done (frames.take n) rest'
  := by
  induction n generalizing b frames with
  | zero => exact ⟨b, rfl⟩
  | succ n ih =>
      obtain ⟨frame, frames', rest', hframe, hframes, rfl⟩ := parseFrames_succ h
      obtain ⟨rest'', htake⟩ := ih hframes
      use rest''
      rw [parseFrames, Consumer.run_bind, hframe, List.take_succ_cons]
      simp only [Consumer.run_bind, htake]
      rfl

theorem length_parseFrames {n : Nat} {b rest : Bytes} {frames : List Frame}
    (h : (parseFrames n).run b = .done frames rest) :
  frames.length = n
  := by
  induction n generalizing b frames with
  | zero =>
      cases h
      rfl
  | succ n ih =>
      obtain ⟨frame, frames', rest', -, hframes, rfl⟩ := parseFrames_succ h
      rw [List.length_cons, ih hframes]

/-- The frame behind those that have been read. -/
theorem parseFrames_concat {n : Nat} {b rest rest' : Bytes} {frames : List Frame} {frame : Frame}
    (h : (parseFrames n).run b = .done frames rest) (hframe : parseFrame.run rest = .done frame rest') :
  (parseFrames (n + 1)).run b = .done (frames ++ [frame]) rest'
  := by
  induction n generalizing b frames with
  | zero =>
      cases h
      rw [parseFrames, Consumer.run_bind, hframe]
      rfl
  | succ n ih =>
      obtain ⟨first, frames', rest'', hfirst, hframes, rfl⟩ := parseFrames_succ h
      rw [parseFrames, Consumer.run_bind, hfirst]
      simp only [Consumer.run_bind, ih hframes]
      rfl

namespace Worker

/-- A turn that does not throw moves octets from the pipe to the reader, and then takes a frame
from the reader. -/
theorem readTurn_moves
    {w w' : Worker} {reports : Source} {response : Option Frame}
    (h : w.readTurn reports = some (.ok response, w')) :
  ∃ moved left, w.available = moved ++ left
    ∧ takeFrame (w.responseReader ++ moved) = (.ok response, w'.responseReader)
    ∧ w' = { w with
        responseReader := w'.responseReader, received := w.received + moved.length }
  := by
  rw [readTurn] at h
  split_ifs at h with hchild hreports
  · rw [readAvailable, fill, if_pos (by decide)] at h
    cases h
  · simp only [readAvailable] at h
    split at h
    · cases h
    · rename_i buffer src hfill
      obtain ⟨moved, hbuffer, hcontent⟩ := fill_moves hfill
      have havailable : w.available = moved ++ src.content := by
        have hlast : Source.content [w.lastReport] = [] := by
          rw [lastReport]
          split_ifs <;> rfl
        rw [← hreports.2, hcontent, Source.content_append, hlast, List.append_nil]
      have hlength : w.available.length - src.content.length = moved.length := by
        rw [havailable, List.length_append]
        omega
      use moved, src.content, havailable
      simp only [hlength, Option.some_inj, Prod.mk.injEq] at h
      obtain ⟨hresult, rfl⟩ := h
      rw [← hbuffer, ← hresult]
      exact ⟨rfl, rfl⟩

/-- A turn that does not throw is one on a child. -/
theorem child_of_readTurn
    {w w' : Worker} {reports : Source} {response : Option Frame}
    (h : w.readTurn reports = some (.ok response, w')) :
  w.child ≠ none
  := by
  intro hchild
  rw [readTurn, if_pos hchild, readAvailable, fill, if_pos (by decide)] at h
  cases h

/-- The frames that were taken are the first in the output, and the octets behind them are in the
reader and still to come. -/
structure Aligned (w : Worker) (taken : List Frame) : Prop where
  received_le : w.received ≤ w.flushed
  flushed_le : w.flushed ≤ w.output.length
  parsed : (parseFrames taken.length).run w.output
    = .done taken (w.responseReader ++ w.output.drop w.received)

/-! ### Turns -/

/-- What is still to come from the pipe, after a part of what is in it was read. -/
theorem output_drop
    {w : Worker} {moved left : Bytes} (h : w.available = moved ++ left) :
  w.output.drop w.received = moved ++ w.output.drop (w.received + moved.length)
  := by
  have hprefix : moved <+: w.output.drop w.received := by
    apply List.IsPrefix.trans (List.prefix_append moved left)
    rw [← h, available, List.drop_take]
    apply List.take_prefix
  obtain ⟨rest, hrest⟩ := hprefix
  rw [← List.drop_drop, ← hrest, List.drop_left]

/-- The frame that a turn returns is the next one in the output, and the turn leaves the worker
aligned behind it. -/
theorem Aligned.turn_some
    {w w' : Worker} {taken : List Frame} {reports : Source} {frame : Frame} (h : w.Aligned taken)
    (hturn : w.readTurn reports = some (.ok (some frame), w')) :
  w'.Aligned (taken ++ [frame])
  := by
  obtain ⟨moved, left, havailable, htake, hw'⟩ := readTurn_moves hturn
  have hdrop := output_drop havailable
  have hrun := parseFrame_of_takeFrame htake
  have hall := parseFrame_streaming.done_append (w.output.drop (w.received + moved.length)) hrun
  rw [List.append_assoc, ← hdrop] at hall
  have hparsed := parseFrames_concat h.parsed hall
  have hlength := congrArg List.length havailable
  rw [available, List.length_drop, List.length_take, List.length_append] at hlength
  have hreceived := h.received_le
  have hflushed := h.flushed_le
  rw [hw']
  constructor
  · simp only
    omega
  · exact h.flushed_le
  · rw [List.length_append, List.length_singleton]
    exact hparsed

/-- A turn that returns no frame leaves the worker aligned. -/
theorem Aligned.turn_none
    {w w' : Worker} {taken : List Frame} {reports : Source} (h : w.Aligned taken)
    (hturn : w.readTurn reports = some (.ok none, w')) :
  w'.Aligned taken
  := by
  obtain ⟨moved, left, havailable, htake, hw'⟩ := readTurn_moves hturn
  have hdrop := output_drop havailable
  obtain ⟨-, hbuffer⟩ := waiting_of_takeFrame htake
  have hlength := congrArg List.length havailable
  rw [available, List.length_drop, List.length_take, List.length_append] at hlength
  have hreceived := h.received_le
  have hflushed := h.flushed_le
  have hparsed := h.parsed
  rw [hdrop, ← List.append_assoc, ← hbuffer] at hparsed
  rw [hw']
  exact ⟨by simp only; omega, h.flushed_le, hparsed⟩

/-- A turn on a process that runs, when all that is in the pipe can be read at once. -/
theorem readTurn_all
    {w : Worker} {reports : Source} (hrun : w.running = true) (hopen : reports.Open)
    (hcontent : reports.content = w.available)
    (hsize : w.responseReader.length + w.available.length ≤ kMaxBufferedFrame)
    (hless : w.available.length < kReadBudget) :
  w.readTurn reports = some ((takeFrame (w.responseReader ++ w.available)).1,
    { w with
      responseReader := (takeFrame (w.responseReader ++ w.available)).2
      received := w.received + w.available.length })
  := by
  have hchild : w.child ≠ none := by
    intro hnone
    rw [running_of_child_none hnone] at hrun
    cases hrun
  have hlast : w.lastReport = .wouldBlock := by
    rw [lastReport, if_pos hrun]
  rw [← hcontent] at hsize hless
  rw [readTurn, if_neg hchild, if_pos ⟨hopen, hcontent⟩, hlast, readAvailable_all hopen hsize hless,
    hcontent]
  rfl

/-- A turn that comes to the end of the output throws. -/
theorem readTurn_closed
    {w : Worker} {reports : Source} (hchild : w.child ≠ none) (hrun : w.running = false)
    (hopen : reports.Open) (hcontent : reports.content = w.available)
    (hsize : w.responseReader.length + w.available.length ≤ kMaxBufferedFrame)
    (hless : w.available.length < kReadBudget) :
  ∃ e buffer received, w.readTurn reports
    = some (.error e, { w with responseReader := buffer, received := received })
  := by
  have hlast : w.lastReport = .closed := by
    rw [lastReport, hrun, if_neg Bool.false_ne_true]
  rw [← hcontent] at hsize hless
  obtain ⟨e, he⟩ := readAvailable_closed hopen hsize hless
  rw [readTurn, if_neg hchild, if_pos ⟨hopen, hcontent⟩, hlast]
  simp only [he]
  exact ⟨e, _, _, rfl⟩

/-! ### What keeps a worker aligned -/

theorem aligned_spawn
    (launch : WorkerLaunchSpec) (engineId : Bytes) (pid inputFd outputFd : Nat) (nowMs : Int64) :
  (spawn launch engineId pid inputFd outputFd nowMs).Aligned []
  := ⟨le_rfl, le_rfl, rfl⟩

/-- The acts of the process leave the worker aligned. -/
theorem Aligned.act
    {w w' : Worker} {a : Act} {taken : List Frame} (h : w.Aligned taken)
    (hact : w.act a = some w') :
  w'.Aligned taken
  := by
  rw [act.eq_def, if_pos (act_running hact)] at hact
  have hflushed := h.flushed_le
  have hreceived := h.received_le
  cases a with
  | exit status =>
      cases hact
      exact ⟨hreceived, hflushed, h.parsed⟩
  | vanish =>
      cases hact
      exact ⟨hreceived, hflushed, h.parsed⟩
  | read count =>
      simp only at hact
      split_ifs at hact
      cases hact
      exact ⟨hreceived, hflushed, h.parsed⟩
  | send octets =>
      cases hact
      have houtput : output { w with emitted := w.emitted ++ [⟨octets, w.readCount⟩] }
          = w.output ++ octets := by
        simp [output]
      constructor
      · exact hreceived
      · rw [houtput, List.length_append]
        simp only
        omega
      · have hmore := (parseFrames_streaming _).done_append octets h.parsed
        rw [houtput, List.drop_append_of_le_length (by simp only; omega), ← List.append_assoc]
        exact hmore
  | flush count =>
      simp only at hact
      split_ifs at hact with hle
      cases hact
      exact ⟨by simp only; omega, hle, h.parsed⟩

theorem Aligned.handled
    {w w' : Worker} {taken : List Frame} (h : w.Aligned taken) (hw : w.Handled w') :
  w'.Aligned taken
  := by
  obtain ⟨busy, lastUsedMs, child, status, -, rfl⟩ := hw
  exact ⟨h.received_le, h.flushed_le, h.parsed⟩

/-! ### Processes that send whole frames -/

/-- The process sends a frame, or octets that the framing rejects. -/
def framed (octets : Bytes) : Bool :=
  match parseFrame.run octets with
  | .done _ rest => rest = []
  | .raised _ => true
  | .waiting => false

/-- The process has sent frames, or octets that the framing rejects. -/
def SendsFrames (w : Worker) : Prop := ∀ e ∈ w.emitted, framed e.octets = true

theorem framed_done
    {octets rest : Bytes} {frame : Frame} (h : framed octets = true)
    (hdone : parseFrame.run octets = .done frame rest) :
  rest = []
  := by
  simpa [framed, hdone] using h

/-- The first frame in the output is the first emission. -/
theorem parseFrame_emissions
    {es : List Emission} {frame : Frame} {rest : Bytes} (hframed : ∀ e ∈ es, framed e.octets = true)
    (h : parseFrame.run (es.map (·.octets)).flatten = .done frame rest) :
  ∃ e later, es = e :: later ∧ parseFrame.run e.octets = .done frame []
    ∧ rest = (later.map (·.octets)).flatten
  := by
  cases es with
  | nil => cases h
  | cons e later =>
      use e, later, rfl
      rw [List.map_cons, List.flatten_cons] at h
      have he := hframed e List.mem_cons_self
      cases hrun : parseFrame.run e.octets with
      | done frame' rest' =>
          obtain rfl := framed_done he hrun
          rw [parseFrame_streaming.done_append _ hrun] at h
          cases h
          exact ⟨rfl, rfl⟩
      | raised error =>
          rw [parseFrame_streaming.raised_append _ hrun] at h
          cases h
      | waiting =>
          rw [framed, hrun] at he
          cases he

/-- Each frame in the output is the emission at its place. -/
theorem parseFrames_emissions
    {n : Nat} {es : List Emission} {frames : List Frame} {rest : Bytes}
    (hframed : ∀ e ∈ es, framed e.octets = true)
    (h : (parseFrames n).run (es.map (·.octets)).flatten = .done frames rest) {k : Nat}
    {frame : Frame} (hk : frames[k]? = some frame) :
  ∃ e, es[k]? = some e ∧ parseFrame.run e.octets = .done frame []
  := by
  induction n generalizing es frames k with
  | zero =>
      cases h
      cases hk
  | succ n ih =>
      obtain ⟨first, frames', rest', hfirst, hframes, rfl⟩ := parseFrames_succ h
      obtain ⟨e, later, rfl, he, rfl⟩ := parseFrame_emissions hframed hfirst
      cases k with
      | zero =>
          rw [List.getElem?_cons_zero, Option.some_inj] at hk
          exact ⟨e, rfl, hk ▸ he⟩
      | succ k => exact ih (fun e he => hframed e (List.mem_cons_of_mem _ he)) hframes hk

/-- A frame that was taken is an emission. -/
theorem Aligned.emission
    {w : Worker} {taken : List Frame} (h : w.Aligned taken) (hsends : w.SendsFrames) {k : Nat}
    {frame : Frame} (hk : taken[k]? = some frame) :
  ∃ e, w.emitted[k]? = some e ∧ parseFrame.run e.octets = .done frame []
  := parseFrames_emissions hsends h.parsed hk

/-- The frame that a turn returns is the emission behind the frames that were taken. -/
theorem Aligned.response
    {w w' : Worker} {taken : List Frame} {reports : Source} {frame : Frame} (h : w.Aligned taken)
    (hsends : w.SendsFrames) (hturn : w.readTurn reports = some (.ok (some frame), w')) :
  ∃ e, w.emitted[taken.length]? = some e ∧ parseFrame.run e.octets = .done frame []
  := by
  have hnext := h.turn_some hturn
  obtain ⟨buffer, received, rfl⟩ := readTurn_eq hturn
  have hlast : (taken ++ [frame])[taken.length]? = some frame := by simp
  exact hnext.emission hsends hlast

end Worker

end Kernel
