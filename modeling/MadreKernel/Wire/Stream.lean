import MadreKernel.Wire.Frame

/-!
# Streams of frames

Frames written back to back are read back in order, under every pattern of partial writes
and partial reads, and each read consumes exactly the bytes of its frame.  `writeExactTo`
is `write_exact`, with the bytes the descriptor took beside its outcome.
-/

namespace Wire

/-- `write_exact` on a descriptor that reports `sink`: the bytes it took, and the outcome. -/
def writeExactTo : Sink → Bytes → Bytes × Outcome Sink WireError Unit
  | sink, [] => ([], .done () sink)
  | [], _ :: _ => ([], .waiting)
  | .accepted count :: sink, b :: bs =>
      let rest := writeExactTo sink ((b :: bs).drop (count + 1))
      ((b :: bs).take (count + 1) ++ rest.1, rest.2)
  | .interrupted :: sink, b :: bs => writeExactTo sink (b :: bs)
  | .stalled :: _, _ :: _ =>
      ([], .raised (.runtime (Bytes.ofString "IPC write made no progress")))
  | .failed reason :: _, _ :: _ =>
      ([], .raised (.runtime (Bytes.ofString "IPC write failed: " ++ reason)))

def writeFrame (sink : Sink) (frame : Frame) : Bytes × Outcome Sink WireError Unit :=
  match encodeFrame frame with
  | .error e => ([], .raised e)
  | .ok encoded => writeExactTo sink encoded

/-- `write_frame`, called for each frame of a list. -/
def writeFrames : Sink → List Frame → Bytes × Outcome Sink WireError Unit
  | sink, [] => ([], .done () sink)
  | sink, frame :: frames =>
      match writeFrame sink frame with
      | (written, .done () rest) =>
          let after := writeFrames rest frames
          (written ++ after.1, after.2)
      | (written, outcome) => (written, outcome)

/-- The encodings of a list of frames, back to back. -/
def encodeFrames : List Frame → Except WireError Bytes
  | [] => .ok []
  | frame :: frames =>
      match encodeFrame frame, encodeFrames frames with
      | .ok encoded, .ok rest => .ok (encoded ++ rest)
      | .error e, _ => .error e
      | _, .error e => .error e

/-- A sink that takes bytes or is interrupted. -/
def Progressing (sink : Sink) : Prop :=
  ∀ e ∈ sink, (∃ count, e = .accepted count) ∨ e = .interrupted

/-- How many times a sink takes bytes. -/
def acceptances (sink : Sink) : Nat :=
  (sink.filter (fun e => e matches .accepted _)).length

theorem encodeFrames_cons_eq_ok {frame : Frame} {frames : List Frame} {wire : Bytes}
    (h : encodeFrames (frame :: frames) = .ok wire) :
  ∃ encoded rest, encodeFrame frame = .ok encoded ∧ encodeFrames frames = .ok rest
    ∧ wire = encoded ++ rest
  := by
  rw [encodeFrames] at h
  split at h
  · rename_i encoded rest hencoded hrest
    cases h
    exact ⟨encoded, rest, hencoded, hrest, rfl⟩
  · cases h
  · cases h

/-- A sink that makes progress takes all the bytes and goes on as such a sink, or takes some
of them and waits because it has not taken bytes often enough. -/
theorem writeExactTo_progressing {sink : Sink} (h : Progressing sink) (data : Bytes) :
  (∃ rest, writeExactTo sink data = (data, .done () rest) ∧ Progressing rest
      ∧ acceptances sink ≤ acceptances rest + data.length)
    ∨ ∃ written, writeExactTo sink data = (written, .waiting) ∧ written <+: data
      ∧ acceptances sink < data.length
  := by
  induction sink generalizing data with
  | nil =>
      cases data with
      | nil =>
          left
          use [], rfl, h
          simp
      | cons b bs =>
          right
          use [], rfl, List.nil_prefix
          simp [acceptances]
  | cons e sink ih =>
      have htail : Progressing sink := fun d hd => h d (List.mem_cons_of_mem _ hd)
      cases data with
      | nil =>
          left
          use e :: sink, rfl, h
          simp
      | cons b bs =>
          rcases h e List.mem_cons_self with ⟨count, rfl⟩ | rfl
          · have hcount : acceptances (.accepted count :: sink) = acceptances sink + 1 := rfl
            have hsplit := List.take_append_drop (count + 1) (b :: bs)
            have hlength := congrArg List.length hsplit
            rw [List.length_append] at hlength
            have htake : 1 ≤ ((b :: bs).take (count + 1)).length := by simp
            rw [writeExactTo, hcount]
            rcases ih htail ((b :: bs).drop (count + 1)) with
              ⟨rest, hrest, hprogress, hle⟩ | ⟨written, hwritten, hinitial, hlt⟩
            · left
              rw [hrest]
              use rest, by rw [hsplit], hprogress
              omega
            · right
              rw [hwritten]
              use (b :: bs).take (count + 1) ++ written, rfl
              constructor
              · conv_rhs => rw [← hsplit]
                exact (List.prefix_append_right_inj _).mpr hinitial
              · omega
          · have hcount : acceptances (.interrupted :: sink) = acceptances sink := rfl
            rw [writeExactTo, hcount]
            apply ih htail

/-- Under every pattern of partial writes the encodings are written back to back, or a part of
them is written while the sink has not taken bytes often enough. -/
theorem writeFrames_progressing
    {frames : List Frame} {wire : Bytes} (hwire : encodeFrames frames = .ok wire)
    {sink : Sink} (h : Progressing sink) :
  (∃ rest, writeFrames sink frames = (wire, .done () rest))
    ∨ ∃ written, writeFrames sink frames = (written, .waiting) ∧ written <+: wire
      ∧ acceptances sink < wire.length
  := by
  induction frames generalizing wire sink with
  | nil =>
      cases hwire
      left
      use sink
      rfl
  | cons frame frames ih =>
      obtain ⟨encoded, tail, hencoded, htail, rfl⟩ := encodeFrames_cons_eq_ok hwire
      rw [writeFrames, writeFrame, hencoded, List.length_append]
      rcases writeExactTo_progressing h encoded with
        ⟨rest, hrest, hprogress, hle⟩ | ⟨written, hwritten, hinitial, hlt⟩
      · simp only [hrest]
        rcases ih htail hprogress with ⟨rest', hrest'⟩ | ⟨written, hwritten, hinitial, hlt⟩
        · left
          use rest'
          rw [hrest']
        · right
          use encoded ++ written
          rw [hwritten]
          use rfl, (List.prefix_append_right_inj _).mpr hinitial
          omega
      · right
        simp only [hwritten]
        use written, rfl, hinitial.trans (List.prefix_append _ _)
        omega

/-- `read_frame` takes the first of the frames that a source delivers. -/
theorem readFrame_of_encodeFrame {frame : Frame} {encoded tail : Bytes} {src : Source}
    (h : encodeFrame frame = .ok encoded) (hsrc : src.Delivers (encoded ++ tail)) :
  ∃ src', readFrame.run src = .done frame src' ∧ src'.Delivers tail
  := by
  have hfollows := readFrame_follows src _ hsrc
  rw [parseFrame_encodeFrame h tail] at hfollows
  exact hfollows.of_done

/-- Frames that `encode_frame` accepts, written back to back under every pattern of partial
writes, are read back in order under every pattern of partial reads; after `k` calls of
`read_frame` exactly the encodings of the first `k` frames are consumed. -/
theorem readFrames_writeFrames
    (frames : List Frame) (wire : Bytes) (h : encodeFrames frames = .ok wire) :
  (∀ sink, Progressing sink →
    (∃ rest, writeFrames sink frames = (wire, .done () rest))
      ∨ ∃ written, writeFrames sink frames = (written, .waiting) ∧ written <+: wire
        ∧ acceptances sink < wire.length)
  ∧ ∀ (src : Source) (tail : Bytes), src.Delivers (wire ++ tail) → ∀ k ≤ frames.length,
      ∃ src' remaining, (readFrames k).run src = .done (frames.take k) src'
        ∧ encodeFrames (frames.drop k) = .ok remaining ∧ src'.Delivers (remaining ++ tail)
  := by
  constructor
  · intro sink hsink
    apply writeFrames_progressing h hsink
  · intro src tail hsrc k hk
    induction k generalizing frames wire src with
    | zero => exact ⟨src, wire, rfl, h, hsrc⟩
    | succ k ih =>
        obtain ⟨frame, frames, rfl⟩ := List.exists_cons_of_length_pos (by omega : 0 < frames.length)
        obtain ⟨encoded, rest, hencoded, hrest, rfl⟩ := encodeFrames_cons_eq_ok h
        rw [List.append_assoc] at hsrc
        obtain ⟨src₁, hread, hsrc₁⟩ := readFrame_of_encodeFrame hencoded hsrc
        obtain ⟨src', remaining, hframes, hremaining, hsrc'⟩ :=
          ih frames rest hrest src₁ hsrc₁ (by simpa using hk)
        use src', remaining
        refine ⟨?_, hremaining, hsrc'⟩
        simp only [readFrames, Consumer.run_bind, hread, hframes]
        rfl

/-- A frame with a NUL and an `=` in a value, then an empty frame, read from two pieces with an
interruption between them. -/
theorem readFrames_writeFrames_two :
  ∃ (wire : Bytes) (src' : Source) (remaining : Bytes),
    encodeFrames [⟨201, 7, SortedMap.ofEntries [([107], [0, 61])], [1, 2]⟩, ⟨0, 0, ∅, []⟩]
      = .ok wire
    ∧ (readFrames 2).run
        (Source.pushBack (wire.take 30) (.interrupted :: Source.ofBytes (wire.drop 30)))
      = .done [⟨201, 7, SortedMap.ofEntries [([107], [0, 61])], [1, 2]⟩, ⟨0, 0, ∅, []⟩] src'
    ∧ encodeFrames [] = .ok remaining ∧ src'.Delivers (remaining ++ [])
  := by
  obtain ⟨wire, hwire⟩ : ∃ wire, encodeFrames
      [⟨201, 7, SortedMap.ofEntries [([107], [0, 61])], [1, 2]⟩, ⟨0, 0, ∅, []⟩] = .ok wire :=
    ⟨_, rfl⟩
  have hsrc : (Source.pushBack (wire.take 30)
      (.interrupted :: Source.ofBytes (wire.drop 30))).Delivers (wire ++ []) := by
    constructor
    · apply Source.Open.pushBack
      intro e he
      rcases List.mem_cons.mp he with rfl | he
      · right
        rfl
      · exact Source.open_ofBytes _ e he
    · simp [Source.content]
  obtain ⟨src', remaining, hread, hremaining, hdelivers⟩ :=
    (readFrames_writeFrames _ wire hwire).2 _ [] hsrc 2 (by simp)
  exact ⟨wire, src', remaining, hwire, hread, hremaining, hdelivers⟩

end Wire
