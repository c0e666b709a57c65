import MadreKernel.Lib.Bytes

/-!
# Reading and writing byte channels

A `Consumer σ ε α` reads a stream of type `σ`: it ends with a value and the rest of the
stream, waits for more of the stream, or raises an exception.  `Consumer.Follows R p q`
says that on streams related by `R` the consumers `p` and `q` have the same outcome, with
related rests; it is preserved by sequencing.

A `Source` is what successive `read` calls on a descriptor report: some bytes, an
interruption, that nothing is there yet, the end of the stream, or a failure.  The bytes of
a report that a call did not ask for stay in front of the source.  `Source.content` is the
bytes the source delivers, whichever way they are cut.  A `Sink` is what successive `write`
calls report.
-/

/-- The outcome of reading a stream. -/
inductive Outcome (σ ε α : Type) where
  | done (value : α) (rest : σ)
  | waiting
  | raised (error : ε)
  deriving DecidableEq

/-- A program that reads a stream. -/
structure Consumer (σ ε α : Type) where
  run : σ → Outcome σ ε α

namespace Consumer

variable {σ τ ε α β : Type}

/-- Sequencing: the second program reads what the first one leaves. -/
def bind (p : Consumer σ ε α) (f : α → Consumer σ ε β) : Consumer σ ε β where
  run s :=
    match p.run s with
    | .done a rest => (f a).run rest
    | .waiting => .waiting
    | .raised e => .raised e

instance : Monad (Consumer σ ε) where
  pure a := ⟨fun s => .done a s⟩
  bind := bind

/-- End with an exception. -/
def raise (e : ε) : Consumer σ ε α := ⟨fun _ => .raised e⟩

/-- Raise the exception of a failed computation. -/
def lift (x : Except ε α) : Consumer σ ε α :=
  match x with
  | .ok a => pure a
  | .error e => raise e

theorem run_bind (p : Consumer σ ε α) (f : α → Consumer σ ε β) (s : σ) :
  (p >>= f).run s = match p.run s with
    | .done a rest => (f a).run rest
    | .waiting => .waiting
    | .raised e => .raised e
  := rfl

theorem run_lift_ok (a : α) (s : σ) :
  (lift (.ok a) : Consumer σ ε α).run s = .done a s
  := rfl

theorem run_lift_error (e : ε) (s : σ) :
  (lift (.error e) : Consumer σ ε α).run s = .raised e
  := rfl

/-- The program with other exceptions. -/
def mapError {ε' : Type} (f : ε → ε') (p : Consumer σ ε α) : Consumer σ ε' α where
  run s :=
    match p.run s with
    | .done a rest => .done a rest
    | .waiting => .waiting
    | .raised e => .raised (f e)

theorem run_mapError {ε' : Type} (f : ε → ε') (p : Consumer σ ε α) (s : σ) :
  (p.mapError f).run s = match p.run s with
    | .done a rest => .done a rest
    | .waiting => .waiting
    | .raised e => .raised (f e)
  := rfl

/-- Outcomes that agree in everything but the rest of the stream, which is related. -/
inductive OutcomeRel (R : σ → τ → Prop) : Outcome σ ε α → Outcome τ ε α → Prop where
  | done {a : α} {s : σ} {t : τ} (h : R s t) : OutcomeRel R (.done a s) (.done a t)
  | waiting : OutcomeRel R .waiting .waiting
  | raised {e : ε} : OutcomeRel R (.raised e) (.raised e)

theorem OutcomeRel.of_done
    {R : σ → τ → Prop} {x : Outcome σ ε α} {a : α} {t : τ} (h : OutcomeRel R x (.done a t)) :
  ∃ s, x = .done a s ∧ R s t
  := by
  cases h with
  | done h => exact ⟨_, rfl, h⟩

theorem OutcomeRel.done_left
    {R : σ → τ → Prop} {a : α} {s : σ} {y : Outcome τ ε α} (h : OutcomeRel R (.done a s) y) :
  ∃ t, y = .done a t ∧ R s t
  := by
  cases h with
  | done h => exact ⟨_, rfl, h⟩

theorem OutcomeRel.of_waiting
    {R : σ → τ → Prop} {x : Outcome σ ε α} (h : OutcomeRel R x (.waiting : Outcome τ ε α)) :
  x = .waiting
  := by
  cases h with
  | waiting => rfl

theorem OutcomeRel.of_raised
    {R : σ → τ → Prop} {x : Outcome σ ε α} {e : ε}
    (h : OutcomeRel R x (.raised e : Outcome τ ε α)) :
  x = .raised e
  := by
  cases h with
  | raised => rfl

/-- On related streams, `p` and `q` have related outcomes. -/
def Follows (R : σ → τ → Prop) (p : Consumer σ ε α) (q : Consumer τ ε α) : Prop :=
  ∀ s t, R s t → OutcomeRel R (p.run s) (q.run t)

theorem Follows.pure (R : σ → τ → Prop) (a : α) :
  Follows R (Pure.pure a : Consumer σ ε α) (Pure.pure a)
  := by
  intro s t h
  apply OutcomeRel.done h

theorem Follows.raise (R : σ → τ → Prop) (e : ε) :
  Follows R (Consumer.raise e : Consumer σ ε α) (Consumer.raise e)
  := by
  intro s t _
  apply OutcomeRel.raised

theorem Follows.lift (R : σ → τ → Prop) (x : Except ε α) :
  Follows R (Consumer.lift x) (Consumer.lift x)
  := by
  cases x with
  | ok a => apply Follows.pure
  | error e => apply Follows.raise

theorem Follows.bind
    {R : σ → τ → Prop} {p : Consumer σ ε α} {q : Consumer τ ε α}
    {f : α → Consumer σ ε β} {g : α → Consumer τ ε β}
    (h : Follows R p q) (hfg : ∀ a, Follows R (f a) (g a)) :
  Follows R (p >>= f) (q >>= g)
  := by
  intro s t hst
  have hrel := h s t hst
  rw [run_bind, run_bind]
  revert hrel
  generalize p.run s = x
  generalize q.run t = y
  rintro (hrest | _ | _)
  · apply hfg _ _ _ hrest
  · apply OutcomeRel.waiting
  · apply OutcomeRel.raised

theorem Follows.mapError
    {R : σ → τ → Prop} {p : Consumer σ ε α} {q : Consumer τ ε α} {ε' : Type} (f : ε → ε')
    (h : Follows R p q) :
  Follows R (p.mapError f) (q.mapError f)
  := by
  intro s t hst
  have hrel := h s t hst
  rw [run_mapError, run_mapError]
  revert hrel
  generalize p.run s = x
  generalize q.run t = y
  rintro (hrest | _ | _)
  · apply OutcomeRel.done hrest
  · apply OutcomeRel.waiting
  · apply OutcomeRel.raised

/-- The first `n` bytes of a byte string, once they are there. -/
def take (n : Nat) : Consumer Bytes ε Bytes where
  run b := if n ≤ b.length then .done (b.take n) (b.drop n) else .waiting

theorem run_take (n : Nat) (b : Bytes) :
  (take n : Consumer Bytes ε Bytes).run b
    = if n ≤ b.length then .done (b.take n) (b.drop n) else .waiting
  := rfl

theorem run_take_append {n : Nat} {a : Bytes} (b : Bytes) (h : a.length = n) :
  (take n : Consumer Bytes ε Bytes).run (a ++ b) = .done a b
  := by
  subst h
  simp [take]

theorem run_take_bind_of_le {n : Nat} {b : Bytes} (h : n ≤ b.length)
    (f : Bytes → Consumer Bytes ε α) :
  (take n >>= f).run b = (f (b.take n)).run (b.drop n)
  := by
  rw [run_bind, run_take, if_pos h]

theorem run_take_bind_of_lt {n : Nat} {b : Bytes} (h : b.length < n)
    (f : Bytes → Consumer Bytes ε α) :
  (take n >>= f).run b = .waiting
  := by
  rw [run_bind, run_take, if_neg (by omega)]

/-- Two pieces of a byte string that is too short for both. -/
theorem run_take_bind_take_of_lt {m n : Nat} {b : Bytes} (h : b.length < m + n)
    (f : Bytes → Bytes → Consumer Bytes ε α) :
  (take m >>= fun x => take n >>= f x).run b = .waiting
  := by
  by_cases hm : m ≤ b.length
  · rw [run_take_bind_of_le hm]
    apply run_take_bind_of_lt
    rw [List.length_drop]
    omega
  · apply run_take_bind_of_lt
    omega

/-! ### Programs that read a byte string as it arrives -/

/-- A program whose outcome, once there, does not depend on the bytes that arrive later, and
whose value depends only on the bytes it consumed. -/
structure Streaming (p : Consumer Bytes ε α) : Prop where
  done_append : ∀ {b rest : Bytes} {a : α} (x : Bytes),
    p.run b = .done a rest → p.run (b ++ x) = .done a (rest ++ x)
  raised_append : ∀ {b : Bytes} {e : ε} (x : Bytes),
    p.run b = .raised e → p.run (b ++ x) = .raised e
  consumed : ∀ {b rest : Bytes} {a : α},
    p.run b = .done a rest → ∃ c, b = c ++ rest ∧ p.run c = .done a []

theorem Streaming.pure (a : α) :
  Streaming (Pure.pure a : Consumer Bytes ε α)
  := by
  constructor
  · rintro b rest _ x ⟨⟩
    rfl
  · rintro b e x ⟨⟩
  · rintro b rest _ ⟨⟩
    exact ⟨[], rfl, rfl⟩

theorem Streaming.lift (x : Except ε α) :
  Streaming (Consumer.lift x : Consumer Bytes ε α)
  := by
  cases x with
  | ok a => apply Streaming.pure
  | error e =>
      constructor
      · rintro b rest _ x ⟨⟩
      · rintro b _ x ⟨⟩
        rfl
      · rintro b rest _ ⟨⟩

theorem Streaming.take (n : Nat) :
  Streaming (Consumer.take n : Consumer Bytes ε Bytes)
  := by
  constructor
  · intro b rest a x h
    rw [run_take] at h ⊢
    split_ifs at h with hn
    cases h
    rw [if_pos (by simp only [List.length_append]; omega), List.take_append_of_le_length hn,
      List.drop_append_of_le_length hn]
  · intro b e x h
    rw [run_take] at h
    split_ifs at h
  · intro b rest a h
    rw [run_take] at h
    split_ifs at h with hn
    cases h
    use b.take n, (List.take_append_drop n b).symm
    have hlength : (b.take n).length = n := by
      rw [List.length_take]
      omega
    simpa using @run_take_append ε n (b.take n) [] hlength

theorem Streaming.bind
    {p : Consumer Bytes ε α} {f : α → Consumer Bytes ε β}
    (hp : Streaming p) (hf : ∀ a, Streaming (f a)) :
  Streaming (p >>= f)
  := by
  constructor
  · intro b rest a x h
    rw [run_bind] at h ⊢
    cases hb : p.run b with
    | done a' rest' =>
        simp only [hb] at h
        simp only [hp.done_append x hb]
        apply (hf a').done_append x h
    | waiting => simp [hb] at h
    | raised e => simp [hb] at h
  · intro b e x h
    rw [run_bind] at h ⊢
    cases hb : p.run b with
    | done a' rest' =>
        simp only [hb] at h
        simp only [hp.done_append x hb]
        apply (hf a').raised_append x h
    | waiting => simp [hb] at h
    | raised e' =>
        simp only [hb] at h
        simp only [hp.raised_append x hb, h]
  · intro b rest a h
    rw [run_bind] at h
    cases hb : p.run b with
    | done a' rest' =>
        simp only [hb] at h
        obtain ⟨c, rfl, hc⟩ := hp.consumed hb
        obtain ⟨c', rfl, hc'⟩ := (hf a').consumed h
        use c ++ c', (List.append_assoc _ _ _).symm
        rw [run_bind, hp.done_append c' hc]
        exact hc'
    | waiting => simp [hb] at h
    | raised e => simp [hb] at h

/-- A streaming program that waits on all of the bytes waited on those that arrived first. -/
theorem Streaming.waiting_of_append
    {p : Consumer Bytes ε α} (hp : Streaming p) {arrived later : Bytes}
    (h : p.run (arrived ++ later) = .waiting) :
  p.run arrived = .waiting
  := by
  cases harrived : p.run arrived with
  | waiting => rfl
  | done a rest =>
      rw [hp.done_append later harrived] at h
      cases h
  | raised e =>
      rw [hp.raised_append later harrived] at h
      cases h

/-- A streaming program that raises on all of the bytes has waited or raised on those that
arrived first. -/
theorem Streaming.raised_of_append
    {p : Consumer Bytes ε α} (hp : Streaming p) {arrived later : Bytes} {e : ε}
    (h : p.run (arrived ++ later) = .raised e) :
  p.run arrived = .waiting ∨ p.run arrived = .raised e
  := by
  cases harrived : p.run arrived with
  | waiting =>
      left
      rfl
  | done a rest =>
      rw [hp.done_append later harrived] at h
      cases h
  | raised e' =>
      right
      rw [hp.raised_append later harrived] at h
      exact h

/-- What a streaming program has done on the bytes that have arrived so far, when it ends on
all of them: it waits while the consumed part is not complete, and then ends. -/
theorem Streaming.run_of_append
    {p : Consumer Bytes ε α} (hp : Streaming p) {b rest arrived later : Bytes} {a : α}
    (h : p.run b = .done a rest) (hb : b = arrived ++ later) :
  ((p.run arrived = .waiting ∧ arrived.length < b.length - rest.length)
    ∨ (p.run arrived = .done a (arrived.drop (b.length - rest.length))
      ∧ b.length - rest.length ≤ arrived.length))
  := by
  obtain ⟨c, hc, hrun⟩ := hp.consumed h
  have hlength : b.length - rest.length = c.length := by
    rw [hc, List.length_append]
    omega
  rw [hlength]
  by_cases hle : c.length ≤ arrived.length
  · right
    have hinitial : c <+: arrived := by
      apply List.prefix_of_prefix_length_le _ _ hle
      · exact b
      · rw [hc]
        apply List.prefix_append
      · rw [hb]
        apply List.prefix_append
    obtain ⟨y, rfl⟩ := hinitial
    refine ⟨?_, hle⟩
    have hdone := hp.done_append y hrun
    simpa using hdone
  · left
    refine ⟨?_, by omega⟩
    cases harrived : p.run arrived with
    | waiting => rfl
    | done a' rest' =>
        -- Ending on fewer bytes than the consumed part would leave more of `b` over.
        exfalso
        obtain ⟨c', hc', -⟩ := hp.consumed harrived
        have hlong := hp.done_append later harrived
        rw [← hb, h] at hlong
        cases hlong
        have hsize := congrArg List.length (hb.symm.trans hc)
        have hsize' := congrArg List.length hc'
        simp only [List.length_append] at hsize hsize'
        omega
    | raised e =>
        exfalso
        have hlong := hp.raised_append later harrived
        rw [← hb, h] at hlong
        cases hlong

end Consumer

/-! ### What reads report -/

/-- What one `read` on a descriptor reports. -/
inductive ReadEvent where
  | bytes (head : UInt8) (tail : Bytes)
  | interrupted
  | wouldBlock
  | closed
  | failed (reason : Bytes)
  deriving DecidableEq

/-- The reason of a failure. -/
def ReadEvent.reason? : ReadEvent → Option Bytes
  | .failed reason => some reason
  | _ => none

/-- What successive `read` calls on a descriptor report. -/
abbrev Source := List ReadEvent

namespace Source

/-- The bytes a source delivers. -/
def content : Source → Bytes
  | [] => []
  | .bytes b bs :: src => (b :: bs) ++ content src
  | _ :: src => content src

/-- Bytes that have arrived and were not asked for, in front of a source. -/
def pushBack : Bytes → Source → Source
  | [], src => src
  | b :: bs, src => .bytes b bs :: src

/-- The source that delivers a byte string at once. -/
def ofBytes (b : Bytes) : Source := pushBack b []

@[simp]
theorem content_pushBack (b : Bytes) (src : Source) :
  content (pushBack b src) = b ++ content src
  := by
  cases b <;> rfl

@[simp]
theorem content_ofBytes (b : Bytes) :
  content (ofBytes b) = b
  := by
  simp [ofBytes, content]

theorem pushBack_append (b : Bytes) (src tail : Source) :
  pushBack b (src ++ tail) = pushBack b src ++ tail
  := by
  cases b <;> rfl

theorem content_append (src tail : Source) :
  content (src ++ tail) = content src ++ content tail
  := by
  induction src with
  | nil => rfl
  | cons e src ih =>
      cases e <;> simp [content, ih]

theorem mem_pushBack {b : Bytes} {src : Source} {e : ReadEvent} (h : e ∈ pushBack b src) :
  (∃ b' bs', e = .bytes b' bs') ∨ e ∈ src
  := by
  cases b with
  | nil => exact Or.inr h
  | cons b bs =>
      rcases List.mem_cons.mp h with rfl | h
      · left
        use b, bs
      · exact Or.inr h

/-- A source of a blocking descriptor that stays open: bytes and interruptions. -/
def Open (src : Source) : Prop :=
  ∀ e ∈ src, (∃ b bs, e = .bytes b bs) ∨ e = .interrupted

instance Open.decidable : DecidablePred Open := fun src =>
  decidable_of_iff (∀ e ∈ src, e ≠ .closed ∧ e ≠ .wouldBlock ∧ e.reason? = none) (by
    apply forall₂_congr
    intro e _
    cases e <;> simp [ReadEvent.reason?])

/-- A source of a non-blocking descriptor that stays open: bytes, interruptions and
reports that nothing is there yet. -/
def Polled (src : Source) : Prop :=
  ∀ e ∈ src, (∃ b bs, e = .bytes b bs) ∨ e = .interrupted ∨ e = .wouldBlock

instance : DecidablePred Polled := fun src =>
  decidable_of_iff (∀ e ∈ src, e ≠ .closed ∧ e.reason? = none) (by
    apply forall₂_congr
    intro e _
    cases e <;> simp [ReadEvent.reason?])

theorem Open.tail {e : ReadEvent} {src : Source} (h : Open (e :: src)) :
  Open src
  := fun d hd => h d (List.mem_cons_of_mem _ hd)

theorem Open.pushBack {src : Source} (h : Open src) (b : Bytes) :
  Open (Source.pushBack b src)
  := by
  intro e he
  rcases mem_pushBack he with hbytes | he
  · exact Or.inl hbytes
  · exact h e he

theorem open_ofBytes (b : Bytes) :
  Open (ofBytes b)
  := by
  apply Open.pushBack
  intro e he
  cases he

theorem Polled.tail {e : ReadEvent} {src : Source} (h : Polled (e :: src)) :
  Polled src
  := fun d hd => h d (List.mem_cons_of_mem _ hd)

theorem Polled.pushBack {src : Source} (h : Polled src) (b : Bytes) :
  Polled (Source.pushBack b src)
  := by
  intro e he
  rcases mem_pushBack he with hbytes | he
  · exact Or.inl hbytes
  · exact h e he

theorem polled_ofBytes (b : Bytes) :
  Polled (ofBytes b)
  := by
  apply Polled.pushBack
  intro e he
  cases he

/-- A source that stays open delivers the byte string. -/
def Delivers (src : Source) (b : Bytes) : Prop := src.Open ∧ src.content = b

/-- A source of a descriptor that may have nothing there yet delivers the byte string. -/
def PolledDelivers (src : Source) (b : Bytes) : Prop := src.Polled ∧ src.content = b

/-- The loop that calls `read` until `size` bytes are there.  `verdict` says what happens at a
report without bytes: an exception, or another call. -/
def readLoop {ε : Type} (verdict : ReadEvent → Option ε) : Source → Nat → Outcome Source ε Bytes
  | src, 0 => .done [] src
  | [], _ + 1 => .waiting
  | .bytes b bs :: src, size + 1 =>
      if size + 1 < (b :: bs).length then
        .done ((b :: bs).take (size + 1)) (pushBack ((b :: bs).drop (size + 1)) src)
      else
        match readLoop verdict src (size + 1 - (b :: bs).length) with
        | .done out rest => .done ((b :: bs) ++ out) rest
        | .waiting => .waiting
        | .raised e => .raised e
  | e :: src, size + 1 =>
      match verdict e with
      | none => readLoop verdict src (size + 1)
      | some error => .raised error

/-- Taking bytes from a chunk and what follows it, when the chunk is not enough. -/
theorem take_chunk_append {ε : Type} {size : Nat} {chunk : Bytes} (content : Bytes)
    (h : chunk.length ≤ size) :
  (Consumer.take size : Consumer Bytes ε Bytes).run (chunk ++ content)
    = match (Consumer.take (size - chunk.length) : Consumer Bytes ε Bytes).run content with
      | .done out rest => .done (chunk ++ out) rest
      | .waiting => .waiting
      | .raised e => .raised e
  := by
  simp only [Consumer.run_take, List.length_append]
  by_cases hsize : size ≤ chunk.length + content.length
  · rw [if_pos hsize, if_pos (by omega), List.take_append, List.drop_append,
      List.take_of_length_le h, List.drop_of_length_le h, List.nil_append]
  · rw [if_neg hsize, if_neg (by omega)]

/-- On a source whose reports are bytes or lead to another call, the loop takes the first
bytes that the source delivers. -/
theorem readLoop_follows
    {ε : Type} {verdict : ReadEvent → Option ε} {Q : ReadEvent → Prop}
    (hbytes : ∀ b bs, Q (.bytes b bs))
    (hquiet : ∀ e, Q e → (∃ b bs, e = .bytes b bs) ∨ verdict e = none) (size : Nat) :
  Consumer.Follows (fun (src : Source) b => (∀ e ∈ src, Q e) ∧ src.content = b)
    ⟨fun src => readLoop verdict src size⟩ (Consumer.take size)
  := by
  rintro src _ ⟨hQ, rfl⟩
  simp only
  induction src generalizing size with
  | nil =>
      cases size with
      | zero =>
          apply Consumer.OutcomeRel.done
          exact ⟨hQ, rfl⟩
      | succ size => apply Consumer.OutcomeRel.waiting
  | cons e src ih =>
      have htail : ∀ d ∈ src, Q d := fun d hd => hQ d (List.mem_cons_of_mem _ hd)
      cases size with
      | zero =>
          apply Consumer.OutcomeRel.done
          exact ⟨hQ, rfl⟩
      | succ size =>
          by_cases hchunk : ∃ b bs, e = .bytes b bs
          · obtain ⟨b, bs, rfl⟩ := hchunk
            rw [readLoop, content]
            split_ifs with hlong
            · have hle : size + 1 ≤ (b :: bs).length := by omega
              rw [Consumer.run_take, if_pos (by simp only [List.length_append]; omega),
                List.take_append_of_le_length hle, List.drop_append_of_le_length hle]
              apply Consumer.OutcomeRel.done
              refine ⟨?_, content_pushBack _ _⟩
              intro d hd
              rcases mem_pushBack hd with ⟨b', bs', rfl⟩ | hd
              · apply hbytes
              · exact htail d hd
            · rw [take_chunk_append _ (by omega)]
              have hrest := ih (size + 1 - (b :: bs).length) htail
              revert hrest
              generalize readLoop verdict src (size + 1 - (b :: bs).length) = x
              generalize (Consumer.take (size + 1 - (b :: bs).length) :
                Consumer Bytes ε Bytes).run (content src) = y
              rintro (h | _ | _)
              · apply Consumer.OutcomeRel.done
                exact h
              · apply Consumer.OutcomeRel.waiting
              · apply Consumer.OutcomeRel.raised
          · have hnone : verdict e = none := (hquiet e (hQ e List.mem_cons_self)).resolve_left hchunk
            have hstep : readLoop verdict (e :: src) (size + 1) = readLoop verdict src (size + 1) := by
              cases e with
              | bytes b bs => exact absurd ⟨b, bs, rfl⟩ hchunk
              | _ => rw [readLoop, hnone]; simp
            have hcontent : content (e :: src) = content src := by
              cases e with
              | bytes b bs => exact absurd ⟨b, bs, rfl⟩ hchunk
              | _ => rfl
            rw [hstep, hcontent]
            exact ih (size + 1) htail

end Source

/-! ### The end of a stream -/

namespace Consumer

variable {ε α β : Type} {tail : Source} {e : ε}

/-- The outcome when a stream goes on with the reports in `tail`, at which a read throws `e`. -/
def outcomeBefore (tail : Source) (e : ε) : Outcome Source ε α → Outcome Source ε α
  | .done a rest => .done a (rest ++ tail)
  | .waiting => .raised e
  | .raised e' => .raised e'

/-- Where the program would wait, it throws when the stream goes on with the reports in `tail`. -/
def ThrowsAt (tail : Source) (e : ε) (p : Consumer Source ε α) : Prop :=
  ∀ src, p.run (src ++ tail) = outcomeBefore tail e (p.run src)

theorem ThrowsAt.lift (x : Except ε α) :
  ThrowsAt tail e (Consumer.lift x)
  := by
  intro src
  cases x <;> rfl

theorem ThrowsAt.bind
    {p : Consumer Source ε α} {f : α → Consumer Source ε β} (hp : ThrowsAt tail e p)
    (hf : ∀ a, ThrowsAt tail e (f a)) :
  ThrowsAt tail e (p >>= f)
  := by
  intro src
  rw [Consumer.run_bind, Consumer.run_bind, hp src]
  cases p.run src with
  | done a rest => exact hf a rest
  | _ => rfl

/-- A loop of reads throws at a report at which it does not read on. -/
theorem ThrowsAt.readLoop
    {verdict : ReadEvent → Option ε} {last : ReadEvent} {more : Source}
    (hlast : ∀ b bs, last ≠ .bytes b bs) (hverdict : verdict last = some e) (size : Nat) :
  ThrowsAt (last :: more) e ⟨fun src => Source.readLoop verdict src size⟩
  := by
  intro src
  simp only
  induction src generalizing size with
  | nil =>
      cases size with
      | zero => simp [Source.readLoop, outcomeBefore]
      | succ size =>
          cases last with
          | bytes b bs => exact absurd rfl (hlast b bs)
          | _ => simp [Source.readLoop, outcomeBefore, hverdict]
  | cons report src ih =>
      cases size with
      | zero => simp [Source.readLoop, outcomeBefore]
      | succ size =>
          cases report with
          | bytes b bs =>
              rw [List.cons_append, Source.readLoop, Source.readLoop]
              split_ifs
              · rw [Source.pushBack_append]
                rfl
              · rw [ih]
                cases Source.readLoop verdict src (size + 1 - (b :: bs).length) <;> rfl
          | _ =>
              simp only [List.cons_append, Source.readLoop]
              split
              · exact ih (size + 1)
              · rfl

end Consumer

/-! ### What writes report -/

/-- What one `write` on a descriptor reports: that it took `count + 1` bytes or all it was
given, an interruption, that it took none, or a failure. -/
inductive WriteEvent where
  | accepted (count : Nat)
  | interrupted
  | stalled
  | failed (reason : Bytes)
  deriving DecidableEq

/-- What successive `write` calls on a descriptor report. -/
abbrev Sink := List WriteEvent
