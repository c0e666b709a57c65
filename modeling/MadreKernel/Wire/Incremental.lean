import MadreKernel.Wire.Frame

/-!
# The incremental frame reader

`readAvailable` is one call of `IncrementalFrameReader::read_available`: it reads what a
non-blocking descriptor reports, in chunks of at most 8 KiB and for at most 64 KiB, into a
bounded buffer, and then takes a frame from the front of the buffer when one is complete.

However the descriptor delivers a byte string, over however many calls, the reader agrees
with `read_frame` on that byte string.
-/

namespace Wire

def kReadBudget : Nat := 64 * 1024

/-- The size of the array `read_available` reads into. -/
def chunkSize : Nat := 8192

def kMaxBufferedFrame : Nat :=
  kHeaderSize + kMaxMetadata + kMaxC1TextGenerationOpaquePayloadBytes

/-- What one call of `read_available` returns or throws, the buffer it leaves, and what the
descriptor reports after it. -/
structure Turn where
  result : Except WireError (Option Frame)
  buffer : Bytes
  rest : Source

/-- The reading loop of `read_available`. -/
def fill (buffer : Bytes) (src : Source) (readThisTurn : Nat) :
    Except WireError Unit × Bytes × Source :=
  if readThisTurn < kReadBudget then
    match src with
    | [] => (.ok (), buffer, [])
    | .bytes b bs :: src =>
        let requested := min chunkSize (kReadBudget - readThisTurn)
        let received := (b :: bs).take requested
        let rest := Source.pushBack ((b :: bs).drop requested) src
        if received.length > kMaxBufferedFrame - min buffer.length kMaxBufferedFrame then
          (.error (.framing (Bytes.ofString "worker frame exceeds bounded incremental buffer")),
            buffer, rest)
        else
          fill (buffer ++ received) rest (readThisTurn + received.length)
    | .interrupted :: src => fill buffer src readThisTurn
    | .wouldBlock :: src => (.ok (), buffer, src)
    | .closed :: src =>
        (.error (if buffer = [] then .runtime (Bytes.ofString "peer closed framed IPC")
          else .framing (Bytes.ofString "peer closed during partial framed IPC")),
          buffer, .closed :: src)
    | .failed reason :: src =>
        (.error (.runtime (Bytes.ofString "IPC read failed: " ++ reason)), buffer, src)
  else (.ok (), buffer, src)
termination_by (kReadBudget - readThisTurn, src.length)
decreasing_by
  · apply Prod.Lex.left
    simp only [chunkSize, List.length_take, List.length_cons] at *
    omega
  · apply Prod.Lex.right
    simp

/-- The end of `read_available`: the frame at the front of the buffer, when it is complete. -/
def takeFrame (buffer : Bytes) : Except WireError (Option Frame) × Bytes :=
  if buffer.length < kHeaderSize then (.ok none, buffer)
  else
    match parseHeader buffer with
    | .error e => (.error e, buffer)
    | .ok h =>
        let totalSize := kHeaderSize + h.metadataLength.toNat + h.payloadLength.toNat
        if buffer.length < totalSize then (.ok none, buffer)
        else
          let metadata := (buffer.drop kHeaderSize).take h.metadataLength.toNat
          let payload := (buffer.drop (kHeaderSize + h.metadataLength.toNat)).take
            h.payloadLength.toNat
          -- The frame leaves the buffer before its metadata are decoded.
          match decodeMetadata metadata with
          | .error e => (.error e, buffer.drop totalSize)
          | .ok decoded =>
              (.ok (some ⟨h.type, h.correlation, decoded, payload⟩), buffer.drop totalSize)

def readAvailable (buffer : Bytes) (src : Source) : Turn :=
  match fill buffer src 0 with
  | (.error e, buffer', src') => ⟨.error e, buffer', src'⟩
  | (.ok (), buffer', src') => ⟨(takeFrame buffer').1, (takeFrame buffer').2, src'⟩

/-- `n` calls of `read_available` that all return no frame. -/
def silentTurns : Nat → Bytes × Source → Option (Bytes × Source)
  | 0, state => some state
  | n + 1, (buffer, src) =>
      match readAvailable buffer src with
      | ⟨.ok none, buffer', src'⟩ => silentTurns n (buffer', src')
      | _ => none

/-- The call of `read_available` that comes after `n` calls without a frame, on a new reader. -/
def turnAfter (n : Nat) (src : Source) : Option Turn :=
  (silentTurns n ([], src)).map fun (buffer, src') => readAvailable buffer src'

/-! ### Reading -/

/-- A measure of what a descriptor still has to report. -/
def pending (src : Source) : Nat := src.content.length + src.length

/-- The reading loop on a descriptor that stays open, when all it delivers fits the buffer:
it moves bytes from the descriptor to the buffer. -/
theorem fill_polled
    (buffer : Bytes) (src : Source) (readThisTurn : Nat) (hpolled : src.Polled)
    (hsize : buffer.length + src.content.length ≤ kMaxBufferedFrame) :
  ∃ buffer' src', fill buffer src readThisTurn = (.ok (), buffer', src') ∧ src'.Polled
    ∧ buffer' ++ src'.content = buffer ++ src.content ∧ pending src' ≤ pending src
    ∧ (readThisTurn < kReadBudget → src ≠ [] → pending src' < pending src)
  := by
  induction buffer, src, readThisTurn using fill.induct with
  | case1 buffer n hn =>
      rw [fill, if_pos hn]
      exact ⟨buffer, [], rfl, hpolled, rfl, le_rfl, fun _ h => absurd rfl h⟩
  | case2 buffer n hn b bs src requested received hlarge =>
      exfalso
      have hreceived : received.length ≤ (b :: bs).length := by
        simp only [received, List.length_take]
        omega
      simp only [Source.content, List.length_append] at hsize
      omega
  | case3 buffer n hn b bs src requested received rest hfits ih =>
      have hcontent : received ++ rest.content = (b :: bs) ++ Source.content src := by
        simp only [received, rest, Source.content_pushBack]
        rw [← List.append_assoc, List.take_append_drop]
      have hlength := congrArg List.length hcontent
      simp only [List.length_append] at hlength
      have hrest : rest.length ≤ src.length + 1 := by
        simp only [rest]
        cases (b :: bs).drop requested <;> simp [Source.pushBack]
      have hreceived : 1 ≤ received.length := by
        simp only [received, requested, chunkSize, List.length_take, List.length_cons]
        omega
      simp only [Source.content, List.length_append] at hsize
      obtain ⟨buffer', src', hfill, hpolled', hsame, hle, -⟩ :=
        ih (hpolled.tail.pushBack _) (by simp only [List.length_append]; omega)
      have hpending : pending rest < pending (.bytes b bs :: src) := by
        simp only [pending, Source.content, List.length_append, List.length_cons] at hlength ⊢
        omega
      rw [fill, if_pos hn]
      simp only
      rw [if_neg hfits]
      use buffer', src', hfill, hpolled'
      refine ⟨?_, by omega, fun _ _ => by omega⟩
      rw [hsame, List.append_assoc, hcontent, Source.content]
  | case4 buffer n hn src ih =>
      obtain ⟨buffer', src', hfill, hpolled', hsame, hle, -⟩ := ih hpolled.tail hsize
      have hpending : pending (.interrupted :: src) = pending src + 1 := by
        simp only [pending, Source.content, List.length_cons]
        omega
      rw [fill, if_pos hn]
      use buffer', src', hfill, hpolled', hsame
      omega
  | case5 buffer n hn src =>
      have hpending : pending (.wouldBlock :: src) = pending src + 1 := by
        simp only [pending, Source.content, List.length_cons]
        omega
      rw [fill, if_pos hn]
      use buffer, src, rfl, hpolled.tail, rfl
      omega
  | case6 buffer n hn src => exact absurd (hpolled _ List.mem_cons_self) (by simp)
  | case7 buffer n hn reason src => exact absurd (hpolled _ List.mem_cons_self) (by simp)
  | case8 buffer src n hn =>
      rw [fill.eq_def, if_neg hn]
      exact ⟨buffer, src, rfl, hpolled, rfl, le_rfl, fun h => absurd h hn⟩

/-- A reading loop that does not throw moves bytes from the descriptor to the buffer. -/
theorem fill_moves
    {buffer buffer' : Bytes} {src src' : Source} {readThisTurn : Nat}
    (h : fill buffer src readThisTurn = (.ok (), buffer', src')) :
  ∃ moved, buffer' = buffer ++ moved ∧ moved ++ src'.content = src.content
  := by
  induction buffer, src, readThisTurn using fill.induct with
  | case1 buffer n hn =>
      rw [fill, if_pos hn] at h
      cases h
      use []
      simp
  | case2 buffer n hn b bs src requested received hlarge =>
      rw [fill, if_pos hn] at h
      simp only at h
      rw [if_pos hlarge] at h
      cases h
  | case3 buffer n hn b bs src requested received rest hfits ih =>
      rw [fill, if_pos hn] at h
      simp only at h
      rw [if_neg hfits] at h
      obtain ⟨moved, hbuffer, hcontent⟩ := ih h
      use received ++ moved
      rw [hbuffer, List.append_assoc, List.append_assoc, hcontent]
      refine ⟨rfl, ?_⟩
      simp only [received, rest, Source.content_pushBack, Source.content]
      rw [← List.append_assoc, List.take_append_drop]
  | case4 buffer n hn src ih =>
      rw [fill, if_pos hn] at h
      exact ih h
  | case5 buffer n hn src =>
      rw [fill, if_pos hn] at h
      cases h
      use []
      simp [Source.content]
  | case6 buffer n hn src =>
      rw [fill, if_pos hn] at h
      cases h
  | case7 buffer n hn reason src =>
      rw [fill, if_pos hn] at h
      cases h
  | case8 buffer src n hn =>
      rw [fill.eq_def, if_neg hn] at h
      cases h
      use []
      simp

/-- The reading loop on reports of bytes, with `tail` after them, when all they deliver fits the
buffer: it moves all of it and goes on with `tail`, or as much as the budget allows. -/
theorem fill_open
    (buffer : Bytes) (reports tail : Source) (readThisTurn : Nat) (hopen : reports.Open)
    (hsize : buffer.length + reports.content.length ≤ kMaxBufferedFrame)
    (hbudget : readThisTurn ≤ kReadBudget) :
  (readThisTurn + reports.content.length < kReadBudget →
    fill buffer (reports ++ tail) readThisTurn
      = fill (buffer ++ reports.content) tail (readThisTurn + reports.content.length))
  ∧ (kReadBudget ≤ readThisTurn + reports.content.length →
    ∃ rest, fill buffer (reports ++ tail) readThisTurn
        = (.ok (), buffer ++ reports.content.take (kReadBudget - readThisTurn), rest)
      ∧ rest.content = reports.content.drop (kReadBudget - readThisTurn) ++ tail.content)
  := by
  induction buffer, reports, readThisTurn using fill.induct with
  | case1 buffer n hn =>
      constructor
      · simp [Source.content]
      · intro hfull
        simp only [Source.content, List.length_nil] at hfull
        omega
  | case2 buffer n hn b bs src requested received hlarge =>
      exfalso
      have hreceived : received.length ≤ (b :: bs).length := by
        simp only [received, List.length_take]
        omega
      simp only [Source.content, List.length_append] at hsize
      omega
  | case3 buffer n hn b bs src requested received rest hfits ih =>
      have hcontent : Source.content (.bytes b bs :: src) = received ++ rest.content := by
        simp only [Source.content, received, rest, Source.content_pushBack]
        rw [← List.append_assoc, List.take_append_drop]
      have hlength : received.length ≤ kReadBudget - n := by
        simp only [received, requested, List.length_take]
        omega
      have hloop : fill buffer (.bytes b bs :: src ++ tail) n
          = fill (buffer ++ received) (rest ++ tail) (n + received.length) := by
        rw [List.cons_append, fill, if_pos hn]
        simp only
        rw [if_neg hfits, Source.pushBack_append]
      rw [hcontent] at hsize ⊢
      rw [List.length_append] at hsize
      have ih := ih (hopen.tail.pushBack _) (by rw [List.length_append]; omega) (by omega)
      have hle : (kReadBudget - n) - received.length = kReadBudget - (n + received.length) := by
        omega
      simp only [hloop, List.take_append, List.drop_append, List.take_of_length_le hlength,
        List.drop_of_length_le hlength, hle, List.nil_append, ← List.append_assoc,
        List.length_append, ← Nat.add_assoc]
      exact ih
  | case4 buffer n hn src ih =>
      have hloop : fill buffer (.interrupted :: src ++ tail) n = fill buffer (src ++ tail) n := by
        rw [List.cons_append, fill, if_pos hn]
      simp only [Source.content] at hsize ⊢
      rw [hloop]
      exact ih hopen.tail hsize hbudget
  | case5 buffer n hn src =>
      have hreport := hopen _ List.mem_cons_self
      simp at hreport
  | case6 buffer n hn src =>
      have hreport := hopen _ List.mem_cons_self
      simp at hreport
  | case7 buffer n hn reason src =>
      have hreport := hopen _ List.mem_cons_self
      simp at hreport
  | case8 buffer src n hn =>
      have hzero : kReadBudget - n = 0 := by omega
      refine ⟨fun hless => by omega, fun _ => ?_⟩
      rw [hzero, List.take_zero, List.append_nil, List.drop_zero]
      use src ++ tail
      rw [fill.eq_def, if_neg hn, Source.content_append]
      exact ⟨rfl, rfl⟩

/-! ### Taking a frame from the buffer -/

theorem parseFrame_streaming :
  Consumer.Streaming parseFrame
  := by
  have hsection : ∀ n, Consumer.Streaming
      (readSection Consumer.take n : Consumer Bytes WireError Bytes) := by
    intro n
    rw [readSection]
    split_ifs
    · apply Consumer.Streaming.take
    · apply Consumer.Streaming.pure
  apply Consumer.Streaming.bind (Consumer.Streaming.take _)
  intro header
  apply Consumer.Streaming.bind (Consumer.Streaming.lift _)
  intro h
  apply Consumer.Streaming.bind (hsection _)
  intro metadata
  apply Consumer.Streaming.bind (hsection _)
  intro payload
  apply Consumer.Streaming.bind (Consumer.Streaming.lift _)
  intro decoded
  apply Consumer.Streaming.pure

/-- The header checks look at the first 28 octets only. -/
theorem parseHeader_append {header : Bytes} (h : header.length = kHeaderSize) (rest : Bytes) :
  parseHeader (header ++ rest) = parseHeader header
  := by
  have hoctet : ∀ i j, i + j < kHeaderSize →
      octet ((header ++ rest).drop i) j = octet (header.drop i) j := by
    intro i j hij
    simp only [octet, List.getD_eq_getElem?_getD, List.getElem?_drop]
    rw [List.getElem?_append_left (by omega)]
  simp only [kHeaderSize] at h hoctet
  have hmagic : (header ++ rest).take 4 = header.take 4 :=
    List.take_append_of_le_length (by omega)
  have hu16 : ∀ i, i + 1 < 28 → getU16 ((header ++ rest).drop i) = getU16 (header.drop i) := by
    intro i hi
    rw [getU16, getU16, hoctet i 0 (by omega), hoctet i 1 (by omega)]
  have hu64 : ∀ i, i + 7 < 28 → getU64 ((header ++ rest).drop i) = getU64 (header.drop i) := by
    intro i hi
    apply UInt64.toNat_inj.mp
    rw [toNat_getU64, toNat_getU64]
    congr 1
    apply List.map_congr_left
    intro j hj
    apply hoctet
    have := List.mem_range.mp hj
    omega
  have hu32 : getU32 ((header ++ rest).drop 16) = getU32 (header.drop 16) := by
    rw [getU32, getU32, hoctet 16 0 (by omega), hoctet 16 1 (by omega), hoctet 16 2 (by omega),
      hoctet 16 3 (by omega)]
  rw [parseHeader, parseHeader, hmagic, hu16 4 (by omega), hu16 6 (by omega), hu64 8 (by omega),
    hu32, hu64 20 (by omega)]

theorem run_readSection (n : Nat) (b : Bytes) :
  (readSection Consumer.take n : Consumer Bytes WireError Bytes).run b
    = if n ≤ b.length then .done (b.take n) (b.drop n) else .waiting
  := by
  cases n with
  | zero => rfl
  | succ n => rfl

/-- `parseFrame` behind a header that passed the checks. -/
theorem run_parseFrame_of_header
    {header : Bytes} {h : Header} (rest : Bytes) (hlength : header.length = kHeaderSize)
    (hheader : parseHeader header = .ok h) :
  parseFrame.run (header ++ rest)
    = if rest.length < h.metadataLength.toNat + h.payloadLength.toNat then .waiting
      else match decodeMetadata (rest.take h.metadataLength.toNat) with
        | .ok decoded =>
            .done ⟨h.type, h.correlation, decoded,
                (rest.drop h.metadataLength.toNat).take h.payloadLength.toNat⟩
              (rest.drop (h.metadataLength.toNat + h.payloadLength.toNat))
        | .error e => .raised e
  := by
  split_ifs with hshort
  · simp only [parseFrame, frameFrom, Consumer.run_bind, Consumer.run_take_append _ hlength,
      hheader, Consumer.run_lift_ok, run_readSection]
    by_cases hm : h.metadataLength.toNat ≤ rest.length
    · have hp : ¬h.payloadLength.toNat ≤ (rest.drop h.metadataLength.toNat).length := by
        rw [List.length_drop]
        omega
      simp only [if_pos hm, if_neg hp]
    · simp only [if_neg hm]
  · have hsplit : header ++ rest = header ++ rest.take h.metadataLength.toNat
        ++ (rest.drop h.metadataLength.toNat).take h.payloadLength.toNat
        ++ rest.drop (h.metadataLength.toNat + h.payloadLength.toNat) := by
      rw [List.append_assoc, List.append_assoc, ← List.drop_drop, List.take_append_drop,
        List.take_append_drop]
    have hmetadata : (rest.take h.metadataLength.toNat).length = h.metadataLength.toNat := by
      rw [List.length_take]
      omega
    have hpayload : ((rest.drop h.metadataLength.toNat).take h.payloadLength.toNat).length
        = h.payloadLength.toNat := by
      rw [List.length_take, List.length_drop]
      omega
    rw [hsplit]
    apply (parseFrame_sections _ hlength hheader hmetadata hpayload).trans
    cases decodeMetadata (rest.take h.metadataLength.toNat) <;> rfl

/-- Taking a frame from the buffer is `parseFrame` on the buffer. -/
theorem takeFrame_eq (buffer : Bytes) :
  match parseFrame.run buffer with
  | .done frame rest => takeFrame buffer = (.ok (some frame), rest)
  | .waiting => takeFrame buffer = (.ok none, buffer)
  | .raised e => (takeFrame buffer).1 = .error e
  := by
  by_cases hshort : buffer.length < kHeaderSize
  · have hwaiting : parseFrame.run buffer = .waiting := by
      simp only [parseFrame, frameFrom, Consumer.run_bind, Consumer.run_take]
      rw [if_neg (by omega)]
    rw [hwaiting]
    simp only [takeFrame, if_pos hshort]
  · obtain ⟨header, rest, rfl, hlength⟩ : ∃ header rest, buffer = header ++ rest
        ∧ header.length = kHeaderSize :=
      ⟨buffer.take kHeaderSize, buffer.drop kHeaderSize, (List.take_append_drop _ _).symm,
        by rw [List.length_take]; omega⟩
    rw [takeFrame, if_neg hshort, parseHeader_append hlength]
    cases hheader : parseHeader header with
    | error e =>
        have hraised : parseFrame.run (header ++ rest) = .raised e := by
          simp only [parseFrame, frameFrom, Consumer.run_bind, Consumer.run_take_append _ hlength,
            hheader, Consumer.run_lift_error]
        rw [hraised]
    | ok h =>
        have hdrop : ∀ k, (header ++ rest).drop (kHeaderSize + k) = rest.drop k := by
          intro k
          rw [← hlength, List.drop_append, List.drop_of_length_le (by omega), List.nil_append]
          congr 1
          omega
        have hheaderDrop : (header ++ rest).drop kHeaderSize = rest := hdrop 0
        have htotal : (header ++ rest).length
              < kHeaderSize + (h.metadataLength.toNat + h.payloadLength.toNat)
            ↔ rest.length < h.metadataLength.toNat + h.payloadLength.toNat := by
          rw [List.length_append]
          omega
        rw [run_parseFrame_of_header rest hlength hheader]
        simp only [add_assoc, htotal, hheaderDrop, hdrop]
        by_cases hincomplete : rest.length < h.metadataLength.toNat + h.payloadLength.toNat
        · simp only [if_pos hincomplete]
        · simp only [if_neg hincomplete]
          generalize decodeMetadata (rest.take h.metadataLength.toNat) = decoded
          cases decoded with
          | error e => rfl
          | ok decoded => rfl

theorem parseFrame_of_takeFrame
    {buffer rest : Bytes} {frame : Frame} (h : takeFrame buffer = (.ok (some frame), rest)) :
  parseFrame.run buffer = .done frame rest
  := by
  have hspec := takeFrame_eq buffer
  cases hparse : parseFrame.run buffer with
  | done frame' rest' =>
      simp only [hparse, h, Prod.mk.injEq, Except.ok.injEq, Option.some_inj] at hspec
      rw [hspec.1, hspec.2]
  | raised e => simp [hparse, h] at hspec
  | waiting => simp [hparse, h] at hspec

/-- While a frame is not complete, it stays in the buffer. -/
theorem waiting_of_takeFrame {buffer rest : Bytes} (h : takeFrame buffer = (.ok none, rest)) :
  parseFrame.run buffer = .waiting ∧ rest = buffer
  := by
  have hspec := takeFrame_eq buffer
  cases hparse : parseFrame.run buffer with
  | done frame' rest' => simp [hparse, h] at hspec
  | raised e => simp [hparse, h] at hspec
  | waiting =>
      simp only [hparse, h, Prod.mk.injEq, true_and] at hspec
      exact ⟨rfl, hspec⟩

/-! ### Calls of the reader -/

theorem encodeFrame_length_pos
    {frame : Frame} {octets : Bytes} (h : encodeFrame frame = .ok octets) :
  0 < octets.length
  := by
  obtain ⟨metadata, -, -, -, rfl⟩ := (encodeFrame_eq_ok_iff frame octets).mp h
  simp only [List.length_append, encodeHeader_length, kHeaderSize]
  omega

/-- An encoded frame fits the buffer. -/
theorem encodeFrame_length_le
    {frame : Frame} {octets : Bytes} (h : encodeFrame frame = .ok octets) :
  octets.length ≤ kMaxBufferedFrame
  := by
  obtain ⟨metadata, -, hm, hp, rfl⟩ := (encodeFrame_eq_ok_iff frame octets).mp h
  simp only [List.length_append, encodeHeader_length, kMaxBufferedFrame]
  omega

/-- A call that reads all that has arrived: it goes on to the last report, which says that
there is nothing more for now. -/
theorem readAvailable_all
    {buffer : Bytes} {reports : Source} (hopen : reports.Open)
    (hsize : buffer.length + reports.content.length ≤ kMaxBufferedFrame)
    (hless : reports.content.length < kReadBudget) :
  readAvailable buffer (reports ++ [.wouldBlock])
    = ⟨(takeFrame (buffer ++ reports.content)).1, (takeFrame (buffer ++ reports.content)).2, []⟩
  := by
  have hfill := (fill_open buffer reports [.wouldBlock] 0 hopen hsize (Nat.zero_le _)).1
    (by omega)
  rw [readAvailable, hfill, fill, if_pos (by omega)]

/-- A call that comes to the end of the stream throws, whatever has arrived before it. -/
theorem readAvailable_closed
    {buffer : Bytes} {reports : Source} (hopen : reports.Open)
    (hsize : buffer.length + reports.content.length ≤ kMaxBufferedFrame)
    (hless : reports.content.length < kReadBudget) :
  ∃ e, (readAvailable buffer (reports ++ [.closed])).result = .error e
  := by
  have hfill := (fill_open buffer reports [.closed] 0 hopen hsize (Nat.zero_le _)).1 (by omega)
  rw [readAvailable, hfill, fill, if_pos (by omega)]
  exact ⟨_, rfl⟩

/-- A call that reads as much as the budget allows, and no more reports than that. -/
theorem readAvailable_part
    {buffer : Bytes} {reports : Source} (last : ReadEvent) (hopen : reports.Open)
    (hsize : buffer.length + reports.content.length ≤ kMaxBufferedFrame)
    (hmore : kReadBudget ≤ reports.content.length) :
  ∃ rest, readAvailable buffer (reports ++ [last])
      = ⟨(takeFrame (buffer ++ reports.content.take kReadBudget)).1,
        (takeFrame (buffer ++ reports.content.take kReadBudget)).2, rest⟩
    ∧ rest.content = reports.content.drop kReadBudget ++ Source.content [last]
  := by
  obtain ⟨rest, hfill, hrest⟩ :=
    (fill_open buffer reports [last] 0 hopen hsize (Nat.zero_le _)).2 (by omega)
  use rest
  rw [readAvailable, hfill]
  exact ⟨rfl, hrest⟩

/-- One call on a descriptor that stays open, when all it delivers fits the buffer: it moves
bytes to the buffer, and then takes a frame from it. -/
theorem readAvailable_polled
    {buffer : Bytes} {src : Source} (hpolled : src.Polled)
    (hsize : buffer.length + src.content.length ≤ kMaxBufferedFrame) :
  ∃ arrived src', readAvailable buffer src = ⟨(takeFrame arrived).1, (takeFrame arrived).2, src'⟩
    ∧ src'.Polled ∧ arrived ++ src'.content = buffer ++ src.content
    ∧ (src ≠ [] → pending src' < pending src) ∧ (src = [] → src' = [])
  := by
  obtain ⟨arrived, src', hfill, hpolled', hsame, -, hless⟩ := fill_polled buffer src 0 hpolled hsize
  use arrived, src'
  rw [readAvailable, hfill]
  refine ⟨rfl, hpolled', hsame, hless (by decide), ?_⟩
  rintro rfl
  rw [fill, if_pos (by decide)] at hfill
  cases hfill
  rfl

/-- The state of a reader and its descriptor while the bytes of `b` arrive. -/
structure Arriving (b : Bytes) (buffer : Bytes) (src : Source) : Prop where
  polled : src.Polled
  content : buffer ++ src.content = b
  size : b.length ≤ kMaxBufferedFrame

/-- A call while the bytes of `b` arrive: what it returns is `parseFrame` on the bytes that
have arrived at its end. -/
theorem Arriving.turn {b buffer : Bytes} {src : Source} (h : Arriving b buffer src) :
  ∃ arrived src', readAvailable buffer src = ⟨(takeFrame arrived).1, (takeFrame arrived).2, src'⟩
    ∧ arrived ++ src'.content = b ∧ Arriving b arrived src'
    ∧ (src ≠ [] → pending src' < pending src) ∧ (src = [] → arrived = b)
  := by
  have hlength := congrArg List.length h.content
  have hsize := h.size
  rw [List.length_append] at hlength
  have hfits : buffer.length + src.content.length ≤ kMaxBufferedFrame := by omega
  obtain ⟨arrived, src', hturn, hpolled', hsame, hless, hnil⟩ :=
    readAvailable_polled h.polled hfits
  have hb : arrived ++ src'.content = b := hsame.trans h.content
  use arrived, src', hturn, hb, ⟨hpolled', hb, h.size⟩, hless
  intro hsrc
  rw [hnil hsrc] at hb
  simpa [Source.content] using hb

/-- Calls that return no frame keep the bytes that have arrived in the buffer. -/
theorem Arriving.silentTurns
    {b : Bytes} (n : Nat) {buffer buffer' : Bytes} {src src' : Source}
    (h : Arriving b buffer src) (hn : Wire.silentTurns n (buffer, src) = some (buffer', src')) :
  Arriving b buffer' src'
  := by
  induction n generalizing buffer src with
  | zero =>
      cases hn
      exact h
  | succ n ih =>
      obtain ⟨arrived, src₁, hturn, -, harriving, -⟩ := h.turn
      have htake := takeFrame_eq arrived
      rw [Wire.silentTurns, hturn] at hn
      cases hparse : parseFrame.run arrived with
      | waiting =>
          simp only [hparse] at htake
          rw [htake] at hn
          exact ih harriving hn
      | done frame rest =>
          simp only [hparse] at htake
          rw [htake] at hn
          cases hn
      | raised e =>
          simp only [hparse] at htake
          simp only [htake] at hn
          cases hn

/-- When `parseFrame` does not wait on all of `b`, some call returns a frame or throws. -/
theorem Arriving.exists_turn
    {b : Bytes} {buffer : Bytes} {src : Source} (h : Arriving b buffer src)
    (hends : parseFrame.run b ≠ .waiting) :
  ∃ n buffer' src', Wire.silentTurns n (buffer, src) = some (buffer', src')
    ∧ (readAvailable buffer' src').result ≠ .ok none
  := by
  -- The measure of what the descriptor still has to report decreases until nothing is left.
  induction hm : pending src using Nat.strong_induction_on generalizing buffer src with
  | _ m ih =>
      obtain ⟨arrived, src₁, hturn, hb, harriving, hless, hall⟩ := h.turn
      have htake := takeFrame_eq arrived
      by_cases hsilent : (takeFrame arrived).1 = .ok none
      · have hwaiting : parseFrame.run arrived = .waiting := by
          cases hparse : parseFrame.run arrived with
          | waiting => rfl
          | done frame rest =>
              simp only [hparse] at htake
              rw [htake] at hsilent
              cases hsilent
          | raised e =>
              simp only [hparse] at htake
              rw [htake] at hsilent
              cases hsilent
        rw [hwaiting] at htake
        have hsrc : src ≠ [] := by
          intro hsrc
          rw [hall hsrc] at hwaiting
          exact hends hwaiting
        obtain ⟨n, buffer', src', hn, hresult⟩ := ih _ (hm ▸ hless hsrc) harriving rfl
        use n + 1, buffer', src'
        refine ⟨?_, hresult⟩
        rw [Wire.silentTurns, hturn, htake]
        exact hn
      · use 0, buffer, src, rfl
        rw [hturn]
        exact hsilent

/-- A call after `n` calls without a frame: it returns `parseFrame` on the delivered bytes. -/
theorem Arriving.turnAfter
    {b : Bytes} {src : Source} (h : Arriving b [] src) {n : Nat} {turn : Turn}
    (hn : Wire.turnAfter n src = some turn) :
  ∃ delivered, delivered ++ turn.rest.content = b
    ∧ turn.result = (takeFrame delivered).1 ∧ turn.buffer = (takeFrame delivered).2
  := by
  rw [Wire.turnAfter, Option.map_eq_some_iff] at hn
  obtain ⟨⟨buffer, src'⟩, hsilent, rfl⟩ := hn
  obtain ⟨delivered, rest, hturn, hb, -⟩ := (h.silentTurns n hsilent).turn
  use delivered
  simp only [hturn]
  exact ⟨hb, trivial, trivial⟩

/-- A call that is not silent comes, when `parseFrame` does not wait on all of `b`. -/
theorem Arriving.exists_turnAfter
    {b : Bytes} {src : Source} (h : Arriving b [] src) (hends : parseFrame.run b ≠ .waiting) :
  ∃ n turn, Wire.turnAfter n src = some turn ∧ turn.result ≠ .ok none
  := by
  obtain ⟨n, buffer', src', hn, hresult⟩ := h.exists_turn hends
  use n, readAvailable buffer' src'
  rw [Wire.turnAfter, hn]
  exact ⟨rfl, hresult⟩

/-- While `parseFrame` waits on all of `b`, every call is silent. -/
theorem Arriving.all_silent
    {b : Bytes} (n : Nat) {buffer : Bytes} {src : Source} (h : Arriving b buffer src)
    (hwaits : parseFrame.run b = .waiting) :
  ∃ state, Wire.silentTurns n (buffer, src) = some state
  := by
  induction n generalizing buffer src with
  | zero => exact ⟨_, rfl⟩
  | succ n ih =>
      obtain ⟨arrived, src', hturn, hb, harriving, -⟩ := h.turn
      have htake := takeFrame_eq arrived
      rw [parseFrame_streaming.waiting_of_append (hb.symm ▸ hwaits)] at htake
      rw [Wire.silentTurns, hturn, htake]
      exact ih harriving

/-- However an open pipe delivers `b`, the incremental reader agrees with `read_frame` on `b`:
it returns no frame until the frame is complete and then that frame, with the delivered bytes
after it in the buffer; it throws what `read_frame` throws; it waits when `read_frame` waits. -/
theorem readAvailable_agrees
    (b : Bytes) (src : Source) (hpolled : src.Polled) (hcontent : src.content = b)
    (hsize : b.length ≤ 28 + 2 * 2 ^ 20) :
  match readFrame.run (Source.ofBytes b) with
  | .done frame rest =>
      (∀ n turn, turnAfter n src = some turn →
        ∃ delivered, delivered ++ turn.rest.content = b
          ∧ if delivered.length < b.length - rest.content.length then
              turn.result = .ok none ∧ turn.buffer = delivered
            else
              turn.result = .ok (some frame)
                ∧ turn.buffer = delivered.drop (b.length - rest.content.length))
      ∧ ∃ n turn, turnAfter n src = some turn ∧ turn.result = .ok (some frame)
  | .raised e =>
      (∀ n turn, turnAfter n src = some turn → turn.result = .ok none ∨ turn.result = .error e)
      ∧ ∃ n turn, turnAfter n src = some turn ∧ turn.result = .error e
  | .waiting => ∀ n, ∃ turn, turnAfter n src = some turn ∧ turn.result = .ok none
  := by
  have h : Arriving b [] src := by
    use hpolled, hcontent
    apply le_trans hsize
    decide
  have hfollows := readFrame_follows (Source.ofBytes b) b
    ⟨Source.open_ofBytes b, Source.content_ofBytes b⟩
  revert hfollows
  generalize readFrame.run (Source.ofBytes b) = outcome
  cases hparse : parseFrame.run b with
  | done frame rest =>
      rintro (⟨-, hrest⟩)
      have hturn : ∀ delivered later, delivered ++ later = b →
          if delivered.length < b.length - rest.length then
            takeFrame delivered = (.ok none, delivered)
          else
            takeFrame delivered
              = (.ok (some frame), delivered.drop (b.length - rest.length)) := by
        intro delivered later hb
        have htake := takeFrame_eq delivered
        rcases parseFrame_streaming.run_of_append hparse hb.symm with ⟨hrun, hlt⟩ | ⟨hrun, hle⟩
        · rw [if_pos hlt]
          simpa only [hrun] using htake
        · rw [if_neg (by omega)]
          simpa only [hrun] using htake
      simp only [hrest]
      constructor
      · intro n turn hn
        obtain ⟨delivered, hb, hresult, hbuffer⟩ := h.turnAfter hn
        use delivered, hb
        have htake := hturn delivered _ hb
        rw [hresult, hbuffer]
        split_ifs at htake ⊢ with hlt
        · simp [htake]
        · simp [htake]
      · obtain ⟨n, turn, hn, hspeaks⟩ := h.exists_turnAfter (by simp [hparse])
        use n, turn, hn
        obtain ⟨delivered, hb, hresult, -⟩ := h.turnAfter hn
        have htake := hturn delivered _ hb
        rw [hresult] at hspeaks ⊢
        split_ifs at htake with hlt
        · simp [htake] at hspeaks
        · simp [htake]
  | raised e =>
      rintro ⟨⟩
      have hturn : ∀ n turn, turnAfter n src = some turn →
          turn.result = .ok none ∨ turn.result = .error e := by
        intro n turn hn
        obtain ⟨delivered, hb, hresult, -⟩ := h.turnAfter hn
        have htake := takeFrame_eq delivered
        rw [hresult]
        rw [← hb] at hparse
        rcases parseFrame_streaming.raised_of_append hparse with hrun | hrun
        · left
          simp only [hrun] at htake
          rw [htake]
        · right
          simpa only [hrun] using htake
      use hturn
      obtain ⟨n, turn, hn, hspeaks⟩ := h.exists_turnAfter (by simp [hparse])
      use n, turn, hn
      exact (hturn n turn hn).resolve_left hspeaks
  | waiting =>
      rintro ⟨⟩
      intro n
      obtain ⟨⟨buffer, src'⟩, hsilent⟩ := h.all_silent n hparse
      have hn : turnAfter n src = some (readAvailable buffer src') := by
        rw [turnAfter, hsilent]
        rfl
      use readAvailable buffer src', hn
      obtain ⟨delivered, hb, hresult, -⟩ := h.turnAfter hn
      have htake := takeFrame_eq delivered
      rw [← hb] at hparse
      rw [parseFrame_streaming.waiting_of_append hparse] at htake
      rw [hresult, htake]

/-- A header of a frame with no metadata and no payload, and one octet more. -/
def emptyFrameBytes : Bytes := encodeHeader 7 9 0 0 ++ [5]

/-- A pipe that delivers these octets, cut inside the magic. -/
theorem readAvailable_agrees_cut :
  ∃ n turn, turnAfter n
      (.bytes 77 [65, 68] :: .wouldBlock :: .interrupted
        :: Source.pushBack (emptyFrameBytes.drop 3) []) = some turn
    ∧ turn.result = .ok (some ⟨7, 9, ∅, []⟩)
  := by
  have hread : readFrame.run (Source.ofBytes emptyFrameBytes)
      = .done ⟨7, 9, ∅, []⟩ [.bytes 5 []] := by
    decide +kernel
  have hpolled : Source.Polled (.bytes 77 [65, 68] :: .wouldBlock :: .interrupted
      :: Source.pushBack (emptyFrameBytes.drop 3) []) := by
    decide
  have hagrees := readAvailable_agrees emptyFrameBytes _ hpolled (by decide) (by decide)
  rw [hread] at hagrees
  exact hagrees.2

end Wire
