import MadreKernel.Workers.LlamaWorker

/-!
# What the llama.cpp worker writes

The process of the llama.cpp worker with a library whose calls return, and with what its descriptors
report.  It answers the requests on its input in their order, until the end of the input or the first
request that does not name an engine.
-/

namespace Kernel

open Wire WorkerMain

namespace LlamaWorker

open Llama

/-! ### The descriptors -/

/-- What the descriptor has yet to report when `write_exact` throws. -/
def sinkBehind : Sink → Bytes → Sink
  | sink, [] => sink
  | [], _ :: _ => []
  | .accepted count :: sink, b :: bs => sinkBehind sink ((b :: bs).drop (count + 1))
  | .interrupted :: sink, b :: bs => sinkBehind sink (b :: bs)
  | .stalled :: sink, _ :: _ => sink
  | .failed _ :: sink, _ :: _ => sink

/-- What the descriptors of the process have yet to report, and what it has written. -/
structure Descriptors where
  source : Source
  sink : Sink
  written : Bytes

def Descriptors.reply (d : Descriptors) : (c : Io) → Option c.Reply × Descriptors
  | .readFrame =>
      match Wire.readFrame.run d.source with
      | .done frame rest => (some (.ok frame), { d with source := rest })
      | .raised e => (some (.error e), d)
      | .waiting => (none, d)
  | .writeFrame frame =>
      match Wire.writeFrame d.sink frame with
      | (octets, .done () rest) => (some (.ok ()), ⟨d.source, rest, d.written ++ octets⟩)
      | (octets, .waiting) => (none, ⟨d.source, [], d.written ++ octets⟩)
      | (octets, .raised e) =>
          let rest := match encodeFrame frame with
            | .ok encoded => sinkBehind d.sink encoded
            | .error _ => d.sink
          (some (.error e), ⟨d.source, rest, d.written ++ octets⟩)

section

variable {E : Type} (lib : E → (c : Api) → c.Reply × E)

/-- The process with a library and its descriptors: how it ends, unless it waits in a read or a
write. -/
def evalProcess {ε α : Type} (p : Process ε α) : E × Descriptors → Option (Except ε α) × (E × Descriptors) :=
  p.eval (Calling.beside (Calling.returning lib) Descriptors.reply)

/-- An execution, as the loop of a worker sees it. -/
def executed (p : Process Bytes Unit) (e : E) (sink : Sink) : Bytes × WorkerMain.Executed E :=
  match evalProcess lib p (e, ⟨[], sink, []⟩) with
  | (some (.ok ()), e', d) => (d.written, .returned e' d.sink)
  | (some (.error what), _, d) => (d.written, .threw what)
  | (none, _, d) => (d.written, .writing)

/-- The answer to a request, with the state of the library behind it. -/
def react (options : Options) (model vocab : Handle) (e : E) (request : Frame) : Option (E × Frame) :=
  if request.type ≠ workerExecute then
    some (e, failure request (Bytes.ofString "unsupported worker request"))
  else
    match metadataValue request "engine_id" with
    | .error _ => none
    | .ok engine =>
        if engine ≠ options.engineId then
          some (e, failure request (Bytes.ofString "engine identity mismatch"))
        else
          match (generate options model vocab request.payload).run lib e with
          | (.ok result, e') => some (e', ⟨workerResult, request.correlationId, ∅, result⟩)
          | (.error what, e') => some (e', failure request what)

/-! ### Writing -/

variable {lib} {ε ε' α β : Type}

theorem evalProcess_bind (p : Process ε α) (f : α → Process ε β) (t : E × Descriptors) :
  evalProcess lib (p >>= f) t = match evalProcess lib p t with
    | (some (.ok a), t') => evalProcess lib (f a) t'
    | (some (.error e), t') => (some (.error e), t')
    | (none, t') => (none, t')
  := by
  simp only [evalProcess]
  rw [Calling.eval_bind]
  rcases Calling.eval _ p t with ⟨_ | _ | _, t'⟩ <;> rfl

theorem evalProcess_handle (p : Process ε α) (f : ε → Process ε' α) (t : E × Descriptors) :
  evalProcess lib (p.handle f) t = match evalProcess lib p t with
    | (some (.ok a), t') => (some (.ok a), t')
    | (some (.error e), t') => evalProcess lib (f e) t'
    | (none, t') => (none, t')
  := by
  simp only [evalProcess]
  rw [Calling.eval_handle]
  rcases Calling.eval _ p t with ⟨_ | _ | _, t'⟩ <;> rfl

theorem evalProcess_inl (p : Calling Api Api.Reply ε α) (e : E) (d : Descriptors) :
  evalProcess lib (p.inl : Process ε α) (e, d) = (some (p.run lib e).1, ((p.run lib e).2, d))
  := by
  rw [evalProcess, Calling.eval_inl, Calling.eval_returning]

theorem evalProcess_library (c : Api) (e : E) (d : Descriptors) :
  evalProcess lib (library c) (e, d) = (some (.ok (lib e c).1), ((lib e c).2, d))
  := rfl

theorem evalProcess_readFrame (e : E) (d : Descriptors) :
  evalProcess lib readFrame (e, d) = match Wire.readFrame.run d.source with
    | .done frame rest => (some (.ok (.ok frame)), (e, { d with source := rest }))
    | .raised error => (some (.ok (.error error)), (e, d))
    | .waiting => (none, (e, d))
  := by
  have hcall : evalProcess lib readFrame (e, d)
      = Calling.eval (Calling.beside (Calling.returning lib) Descriptors.reply)
        (.call (.inr .readFrame) .pure) (e, d) := rfl
  rw [hcall, Calling.eval, Calling.beside, Descriptors.reply]
  cases Wire.readFrame.run d.source <;> rfl

theorem evalProcess_send (frame : Frame) (e : E) (d : Descriptors) :
  evalProcess lib (send frame) (e, d) = match d.reply (.writeFrame frame) with
    | (some (.ok ()), d') => (some (.ok ()), (e, d'))
    | (some (.error error), d') => (some (.error error.what), (e, d'))
    | (none, d') => (none, (e, d'))
  := by
  have hwrite : evalProcess lib (writeFrame frame) (e, d) = match d.reply (.writeFrame frame) with
      | (some r, d') => (some (.ok r), (e, d'))
      | (none, d') => (none, (e, d')) := by
    have hcall : evalProcess lib (writeFrame frame) (e, d)
        = Calling.eval (Calling.beside (Calling.returning lib) Descriptors.reply)
          (.call (.inr (.writeFrame frame)) .pure) (e, d) := rfl
    rw [hcall, Calling.eval, Calling.beside]
    rcases d.reply (.writeFrame frame) with ⟨_ | r, d'⟩ <;> rfl
  rw [send, evalProcess_bind, hwrite]
  rcases d.reply (.writeFrame frame) with ⟨_ | error | _, d'⟩
  · rfl
  · rfl
  · rfl

/-- The descriptors with another input, behind what has been written before. -/
def Descriptors.behind (d : Descriptors) (source : Source) (written : Bytes) : Descriptors :=
  ⟨source, d.sink, written ++ d.written⟩

theorem Descriptors.reply_behind (d : Descriptors) (frame : Frame) (source : Source) (written : Bytes) :
  (d.behind source written).reply (.writeFrame frame)
    = ((d.reply (.writeFrame frame)).1, (d.reply (.writeFrame frame)).2.behind source written)
  := by
  simp only [reply, behind]
  split
  all_goals simp only [List.append_assoc]

variable (lib) in
/-- A program that does not read: its input and what has been written before do not matter. -/
def WritesOnly (p : Process ε α) : Prop :=
  ∀ e d source written, evalProcess lib p (e, Descriptors.behind d source written)
    = match evalProcess lib p (e, d) with
      | (x, e', d') => (x, e', d'.behind source written)

theorem WritesOnly.raise (e : ε) :
  WritesOnly lib (Calling.raise e : Process ε α)
  := by
  intro e d source written
  rfl

theorem WritesOnly.bind
    {p : Process ε α} {f : α → Process ε β} (hp : WritesOnly lib p) (hf : ∀ a, WritesOnly lib (f a)) :
  WritesOnly lib (p >>= f)
  := by
  intro e d source written
  rw [evalProcess_bind, evalProcess_bind, hp e d source written]
  rcases evalProcess lib p (e, d) with ⟨_ | _ | a, e', d'⟩
  · rfl
  · rfl
  · exact hf a e' d' source written

theorem WritesOnly.handle
    {p : Process ε α} {f : ε → Process ε' α} (hp : WritesOnly lib p) (hf : ∀ a, WritesOnly lib (f a)) :
  WritesOnly lib (p.handle f)
  := by
  intro e d source written
  rw [evalProcess_handle, evalProcess_handle, hp e d source written]
  rcases evalProcess lib p (e, d) with ⟨_ | what | a, e', d'⟩
  · rfl
  · exact hf what e' d' source written
  · rfl

theorem WritesOnly.inl (p : Calling Api Api.Reply ε α) :
  WritesOnly lib (p.inl : Process ε α)
  := by
  intro e d source written
  rw [evalProcess_inl, evalProcess_inl]

theorem WritesOnly.send (frame : Frame) :
  WritesOnly lib (LlamaWorker.send frame)
  := by
  intro e d source written
  rw [evalProcess_send, evalProcess_send, Descriptors.reply_behind]
  rcases d.reply (.writeFrame frame) with ⟨_ | error | _, d'⟩
  · rfl
  · rfl
  · rfl

theorem execute_writesOnly (options : Options) (model vocab : Handle) (request : Frame) :
  WritesOnly lib (execute options model vocab request)
  := by
  rw [execute]
  split_ifs
  · apply WritesOnly.send
  · split
    · apply WritesOnly.raise
    · split_ifs
      · apply WritesOnly.send
      · apply WritesOnly.handle
        · apply (WritesOnly.inl _).bind
          intro result
          apply WritesOnly.send
        · intro what
          apply WritesOnly.send

/-- A program that does not read, as the loop of a worker sees it. -/
theorem WritesOnly.evalProcess_eq
    {p : Process Bytes Unit} (hp : WritesOnly lib p) (e : E) (source : Source) (sink : Sink)
    (written : Bytes) :
  match executed lib p e sink with
    | (octets, .returned e' rest) => evalProcess lib p (e, ⟨source, sink, written⟩)
        = (some (.ok ()), (e', ⟨source, rest, written ++ octets⟩))
    | (octets, .threw what) => ∃ e' rest, evalProcess lib p (e, ⟨source, sink, written⟩)
        = (some (.error what), (e', ⟨source, rest, written ++ octets⟩))
    | (octets, .writing) => ∃ e' rest, evalProcess lib p (e, ⟨source, sink, written⟩)
        = (none, (e', ⟨source, rest, written ++ octets⟩))
    | _ => False
  := by
  have hrun := hp e ⟨[], sink, []⟩ source written
  simp only [Descriptors.behind, List.append_nil] at hrun
  rw [hrun, executed]
  rcases evalProcess lib p (e, ⟨[], sink, []⟩) with ⟨_ | what | _, e', d'⟩
  · exact ⟨e', d'.sink, rfl⟩
  · exact ⟨e', d'.sink, rfl⟩
  · rfl

/-! ### The answers -/

/-- An answer whose text is plain and short, or whose result is within the limit. -/
inductive Sent (request : Frame) : Frame → Prop where
  | failed {message : Bytes} (hplain : plainText message = true) (hlength : message.length ≤ 64) :
      Sent request (failure request message)
  | succeeded {result : Bytes} (hresult : Bounded result) :
      Sent request ⟨workerResult, request.correlationId, ∅, result⟩

theorem Sent.of_text
    {request : Frame} {text : String}
    (h : text ∈ "unsupported worker request" :: "engine identity mismatch" :: exceptionTexts) :
  Sent request (failure request (Bytes.ofString text))
  := by
  simp only [exceptionTexts, List.mem_cons, List.not_mem_nil, or_false] at h
  rcases h with rfl | rfl | rfl | rfl | rfl | rfl | rfl | rfl | rfl | rfl | rfl
  all_goals exact .failed (by decide +kernel) (by decide +kernel)

theorem Sent.encodable {request frame : Frame} (h : Sent request frame) :
  encodable frame = true ∧ frame.correlationId = request.correlationId
  := by
  cases h with
  | @failed message hplain hlength =>
      refine ⟨?_, rfl⟩
      have hprefix : plainText (Bytes.ofString "LLAMACPP_WORKER_FAILURE: ") = true
          ∧ (Bytes.ofString "LLAMACPP_WORKER_FAILURE: ").length = 25 := by
        decide +kernel
      apply encodable_failure
      · have hplain' := hprefix.1
        rw [plainText, Bool.not_eq_true'] at hplain hplain' ⊢
        rw [List.any_append, hplain', hplain]
        rfl
      · rw [List.length_append, hprefix.2]
        omega
  | succeeded hresult => exact ⟨encodable_result _ hresult, rfl⟩

variable {options : Options} {model vocab : Handle} {e : E} {request : Frame}

/-- Whatever the library replies, the generation ends with a result within the limit or with one of
the texts. -/
theorem generate_sound (hvalid : options.Valid) (model vocab : Handle) (payload : Bytes) (e : E) :
  Sound Bounded ((generate options model vocab payload).run lib e).1
  := by
  have hspec := generate_spec (h := { model := some model, vocab := some vocab }) hvalid rfl rfl
    ⟨rfl, rfl, rfl⟩ payload
  have heval := Calling.eval_returning lib (generate options model vocab payload) e
  -- The discipline leaves the replies open, so that the run of the library is one of its runs.
  obtain ⟨held, hends, -⟩ := Calling.ends_of_eval (w := discipline) (K := fun _ _ => True)
    (fun _ _ => ⟨_, rfl, trivial⟩) trivial heval
  exact ((Calling.wp_iff.mp hspec).2 _ _ hends).2

theorem sent_of_react
    (hvalid : options.Valid) {e' : E} {frame : Frame}
    (h : react lib options model vocab e request = some (e', frame)) :
  Sent request frame
  := by
  rw [react] at h
  split_ifs at h
  · cases h
    exact .of_text (by simp)
  · split at h
    · cases h
    · split_ifs at h
      · cases h
        exact .of_text (by simp)
      · have hsound : Sound Bounded ((generate options model vocab request.payload).run lib e).1 :=
          generate_sound hvalid model vocab request.payload e
        split at h
        next result e'' hrun =>
          cases h
          rw [hrun] at hsound
          exact .succeeded hsound
        next what e'' hrun =>
          cases h
          rw [hrun] at hsound
          obtain ⟨text, htext, rfl⟩ := hsound
          exact .of_text (List.mem_cons_of_mem _ (List.mem_cons_of_mem _ htext))

/-- A frame is written, or the descriptor has not taken bytes often enough. -/
theorem evalProcess_send_progressing
    {frame : Frame} {octets : Bytes} {sink : Sink} (hsink : Progressing sink)
    (hencode : encodeFrame frame = .ok octets) (e : E) (source : Source) (before : Bytes) :
  (∃ rest, evalProcess lib (send frame) (e, ⟨source, sink, before⟩)
      = (some (.ok ()), (e, ⟨source, rest, before ++ octets⟩)) ∧ Progressing rest
      ∧ acceptances sink ≤ acceptances rest + octets.length)
    ∨ ∃ written, evalProcess lib (send frame) (e, ⟨source, sink, before⟩)
      = (none, (e, ⟨source, [], before ++ written⟩)) ∧ written <+: octets
      ∧ acceptances sink < octets.length
  := by
  rw [evalProcess_send]
  simp only [Descriptors.reply, Wire.writeFrame, hencode]
  rcases writeExactTo_progressing hsink octets with
    ⟨rest, hwrites, hrest, hle⟩ | ⟨written, hwrites, hprefix, hlt⟩
  · left
    refine ⟨rest, ?_, hrest, hle⟩
    simp only [hwrites]
  · right
    refine ⟨written, ?_, hprefix, hlt⟩
    simp only [hwrites]

/-- A program that comes to a write of an answer answers with it. -/
theorem reacts_of_send
    {p : Process Bytes Unit} {frame : Frame} {octets : Bytes} {sink : Sink} {e' : E}
    (hsink : Progressing sink) (hencode : encodeFrame frame = .ok octets)
    (hp : ∀ x t, evalProcess lib (send frame) (e', ⟨[], sink, []⟩) = (x, t) →
      (∀ what, x ≠ some (.error what)) → evalProcess lib p (e, ⟨[], sink, []⟩) = (x, t)) :
  Reacts sink (executed lib p e sink) (some (e', frame))
  := by
  rw [executed]
  rcases evalProcess_send_progressing hsink hencode e' [] [] with
    ⟨rest, hsent, hrest, hle⟩ | ⟨written, hwaits, hprefix, hlt⟩
  · rw [hp _ _ hsent nofun]
    exact .answered hencode rfl hrest hle
  · rw [hp _ _ hwaits nofun]
    exact .waits hencode rfl hprefix hlt

theorem execute_reacts
    (hvalid : options.Valid) (model vocab : Handle) (e : E) (request : Frame) {sink : Sink}
    (hsink : Progressing sink) :
  Reacts sink (executed lib (execute options model vocab request) e sink)
    (react lib options model vocab e request)
  := by
  cases hreact : react lib options model vocab e request with
  | none =>
      -- Only a request without an engine is not answered.
      apply Reacts.stops
      have hexecute : ∃ what, execute options model vocab request = Calling.raise what := by
        rw [react] at hreact
        rw [execute]
        split_ifs at hreact ⊢ with htype
        cases hengine : metadataValue request "engine_id" with
        | error what => exact ⟨what, rfl⟩
        | ok engine =>
            rw [hengine] at hreact
            simp only at hreact
            split_ifs at hreact
            split at hreact <;> cases hreact
      obtain ⟨what, hexecute⟩ := hexecute
      rw [hexecute]
      rintro state rest ⟨⟩
  | some reaction =>
      obtain ⟨e', frame⟩ := reaction
      obtain ⟨octets, hencode⟩ :=
        (encodable_iff frame).mp (sent_of_react hvalid hreact).encodable.1
      apply reacts_of_send hsink hencode
      rintro x t hsend hx
      rw [react] at hreact
      rw [execute]
      split_ifs at hreact ⊢ with htype
      · cases hreact
        exact hsend
      · cases hengine : metadataValue request "engine_id" with
        | error what =>
            rw [hengine] at hreact
            cases hreact
        | ok engine =>
            rw [hengine] at hreact
            simp only at hreact ⊢
            split_ifs at hreact ⊢ with hname
            · cases hreact
              exact hsend
            · rw [evalProcess_handle, respond, evalProcess_bind, evalProcess_inl]
              rcases hrun : (generate options model vocab request.payload).run lib e with
                ⟨what | result, e''⟩
              · rw [hrun] at hreact
                cases hreact
                exact hsend
              · rw [hrun] at hreact
                cases hreact
                simp only [hsend]
                rcases x with _ | what | _
                · rfl
                · exact absurd rfl (hx what)
                · rfl

/-! ### The process -/

/-- How the `try` block of `main` stands when the loop of a worker stands in a way. -/
inductive Agrees : Option (Except Bytes (Option Nat)) → Standing → Prop where
  | reads : Agrees (some (.ok none)) .reading
  | waits : Agrees none .reading
  | writes : Agrees none .writing
  | ends : Agrees (some (.ok (some 0))) (.exited 0)
  | fails (what : Bytes) : Agrees (some (.error what)) (.exited 1)

/-- The loop of `main` is the loop of a worker. -/
theorem serve_mainLoop
    (options : Options) (model vocab : Handle) (n : Nat) (e : E) (source : Source) (sink : Sink)
    (before : Bytes) :
  ∃ x t, evalProcess lib (serve options model vocab n) (e, ⟨source, sink, before⟩) = (x, t)
    ∧ t.2.written = before ++ (mainLoop (fun e request sink =>
        executed lib (execute options model vocab request) e sink) n e source sink).1
    ∧ Agrees x (mainLoop (fun e request sink =>
        executed lib (execute options model vocab request) e sink) n e source sink).2
  := by
  induction n generalizing e source sink before with
  | zero => exact ⟨_, _, rfl, by simp [mainLoop], .reads⟩
  | succ n ih =>
      rw [serve, evalProcess_bind, evalProcess_readFrame, mainLoop]
      cases Wire.readFrame.run source with
      | waiting => exact ⟨_, _, rfl, by simp, .waits⟩
      | raised error =>
          simp only
          rw [evalProcess_bind, evalProcess_library]
          simp only [statusOf]
          split_ifs
          · exact ⟨_, _, rfl, by simp, .ends⟩
          · exact ⟨_, _, rfl, by simp, .fails _⟩
      | done request rest =>
          simp only
          rw [evalProcess_bind]
          have hwrites : WritesOnly lib (execute options model vocab request) :=
            execute_writesOnly options model vocab request
          have hexecute := hwrites.evalProcess_eq e rest sink before
          split at hexecute
          next octets e' sink' hexecuted =>
            obtain ⟨x, t, hserve, hwritten, hagrees⟩ := ih e' rest sink' (before ++ octets)
            refine ⟨x, t, ?_, ?_, ?_⟩
            · rw [hexecute]
              exact hserve
            · rw [hexecuted, hwritten, List.append_assoc]
            · rw [hexecuted]
              exact hagrees
          next octets what hexecuted =>
            obtain ⟨e', sink', hexecute⟩ := hexecute
            refine ⟨_, _, by rw [hexecute], ?_, ?_⟩
            · rw [hexecuted]
            · rw [hexecuted]
              exact .fails what
          next octets hexecuted =>
            obtain ⟨e', sink', hexecute⟩ := hexecute
            refine ⟨_, _, by rw [hexecute], ?_, ?_⟩
            · rw [hexecuted]
            · rw [hexecuted]
              exact .writes
          next => cases hexecute

variable (lib) in
/-- The library loads the model of the options with its vocabulary. -/
structure Loads (options : Options) (e : E) (model vocab : Handle) (loaded : E) : Prop where
  loads : (lib (lib e .backendLoadAll).2
    (.modelLoadFromFile options.modelPath options.gpuLayers)).1 = some model
  vocabulary : lib (lib (lib e .backendLoadAll).2
    (.modelLoadFromFile options.modelPath options.gpuLayers)).2 (.modelGetVocab model)
      = (some vocab, loaded)

/-- The status and the text that the process has exited with. -/
def exited? : Option (Except Empty (Option (Nat × Bytes))) → Option (Nat × Bytes)
  | some (.ok outcome) => outcome
  | none => none

theorem executed_of_react_none
    (h : react lib options model vocab e request = none) (sink : Sink) :
  ∃ what, metadataValue request "engine_id" = .error what
    ∧ executed lib (execute options model vocab request) e sink = ([], .threw what)
  := by
  rw [react] at h
  rw [execute]
  split_ifs at h ⊢ with htype
  cases hengine : metadataValue request "engine_id" with
  | error what => exact ⟨what, rfl, rfl⟩
  | ok engine =>
      rw [hengine] at h
      simp only at h
      split_ifs at h
      split at h <;> cases h

theorem program_sent (hvalid : options.Valid) {answer : Frame}
    (h : program (react lib options model vocab) request answer) :
  Sent request answer
  := by
  obtain ⟨_, _, hreact⟩ := h
  exact sent_of_react hvalid hreact

theorem program_correlates (hvalid : options.Valid) (model vocab : Handle) :
  (program (react lib options model vocab)).Correlates
  := fun _ _ h => (program_sent hvalid h).encodable.2

/-- A result of the worker is within the limit and generated from the payload of its request. -/
theorem program_result
    (hvalid : options.Valid) {answer : Frame}
    (h : program (react lib options model vocab) request answer) (htype : answer.type = workerResult) :
  Bounded answer.payload
    ∧ ∃ e e', (generate options model vocab request.payload).run lib e = (.ok answer.payload, e')
  := by
  constructor
  · cases program_sent hvalid h with
    | failed => exact absurd htype (show workerFailure ≠ workerResult by decide)
    | succeeded hresult => exact hresult
  · obtain ⟨e, e', hreact⟩ := h
    rw [react] at hreact
    split_ifs at hreact
    · cases hreact
      exact absurd htype (show workerFailure ≠ workerResult by decide)
    · split at hreact
      · cases hreact
      · split_ifs at hreact
        · cases hreact
          exact absurd htype (show workerFailure ≠ workerResult by decide)
        · split at hreact
          next result e'' hrun =>
            cases hreact
            exact ⟨e, _, hrun⟩
          next =>
            cases hreact
            exact absurd htype (show workerFailure ≠ workerResult by decide)

theorem evalProcess_main
    {arguments : List Bytes} (hparse : parseOptions arguments = .ok options) {e loaded : E}
    (hloads : Loads lib options e model vocab loaded) (n : Nat) (d : Descriptors) {t : E × Descriptors}
    {x : Option (Except Bytes (Option Nat))}
    (hserve : evalProcess lib (serve options model vocab n) (loaded, d) = (x, t)) :
  evalProcess lib (main arguments n) (e, d) = (x.map fun
    | .ok outcome => .ok (outcome.map fun status => (status, []))
    | .error what => .ok (some (1, Bytes.ofString "madre-llamacpp-worker: " ++ what ++ [10])), t)
  := by
  have hmodel : evalProcess lib (serveModel arguments n) (e, d) = (x, t) := by
    rw [serveModel, hparse]
    simp only
    rw [evalProcess_bind, evalProcess_library]
    simp only
    rw [evalProcess_bind, evalProcess_library]
    simp only [hloads.loads]
    rw [evalProcess_bind, evalProcess_library]
    simp only [hloads.vocabulary]
    exact hserve
  rw [main, evalProcess_handle, evalProcess_bind, hmodel]
  rcases x with _ | what | outcome
  · rfl
  · rfl
  · rfl

/-- A llama.cpp worker that has loaded its model answers the requests on its input in order and under
every pattern of partial reads and writes, up to the first one that does not name an engine, and each
with a failure or with a result within the limit.  It leaves with status 0 when its input is closed,
and with status 1 at a request that it does not answer. -/
theorem main_answers
    {arguments : List Bytes} (hparse : parseOptions arguments = .ok options) {e loaded : E}
    (hloads : Loads lib options e model vocab loaded) (requests : List Frame) {wire : Bytes}
    (hwire : encodeFrames requests = .ok wire) (closed : Bool) {source : Source}
    (hsource : source.Delivers wire) {sink : Sink} (hsink : Progressing sink) {n : Nat}
    (hn : requests.length < n) :
  ∃ octets x t, evalProcess lib (main arguments n) (e, ⟨source ++ inputEnd closed, sink, []⟩) = (x, t)
    ∧ encodeFrames (answers (react lib options model vocab) loaded requests).1 = .ok octets
    ∧ List.Forall₂ Sent
        (requests.take (answers (react lib options model vocab) loaded requests).1.length)
        (answers (react lib options model vocab) loaded requests).1
    ∧ ((answers (react lib options model vocab) loaded requests).2 = none
        ∧ t.2.written = octets ∧ exited? x = (if closed then some (0, []) else none)
      ∨ (∃ e' request what, (answers (react lib options model vocab) loaded requests).2
            = some (e', request)
          ∧ metadataValue request "engine_id" = .error what ∧ t.2.written = octets
          ∧ ∃ text, exited? x = some (1, text))
      ∨ t.2.written <+: octets ∧ acceptances sink < octets.length ∧ exited? x = none)
  := by
  have hvalid := valid_of_parseOptions hparse
  have hreacts : ∀ e request sink, Progressing sink → Reacts sink
      (executed lib (execute options model vocab request) e sink)
      (react lib options model vocab e request) :=
    fun e request _ => execute_reacts hvalid model vocab e request
  obtain ⟨octets, hoctets, hloop⟩ := mainLoop_reacts hreacts requests wire hwire closed loaded source
    hsource sink hsink n hn
  obtain ⟨x, t, hserve, hwritten, hagrees⟩ : ∃ x t, evalProcess lib (serve options model vocab n)
      (loaded, ⟨source ++ inputEnd closed, sink, []⟩) = (x, t) ∧ _ ∧ _ :=
    serve_mainLoop options model vocab n loaded (source ++ inputEnd closed) sink []
  refine ⟨octets, _, t, evalProcess_main hparse hloads n _ hserve, hoctets, ?_, ?_⟩
  · exact (answers_program loaded requests).imp fun _ _ h => program_sent hvalid h
  rw [List.nil_append] at hwritten
  rcases hloop with ⟨hall, hdone⟩ | ⟨e', request, sink', hstuck, hdone⟩
    | ⟨written, hwaits, hprefix, hlt⟩
  · left
    rw [hdone] at hwritten hagrees
    refine ⟨hall, hwritten, ?_⟩
    cases closed with
    | false => cases hagrees <;> rfl
    | true =>
        cases hagrees
        rfl
  · right
    left
    obtain ⟨what, hengine, hexecuted⟩ := executed_of_react_none (answers_stops hstuck) sink'
    rw [hdone, hexecuted] at hwritten hagrees
    refine ⟨e', request, what, hstuck, hengine, by rw [hwritten, List.append_nil], ?_⟩
    cases hagrees
    exact ⟨_, rfl⟩
  · right
    right
    rw [hwaits] at hwritten hagrees
    refine ⟨hwritten ▸ hprefix, hlt, ?_⟩
    cases hagrees
    rfl

end

namespace Sample

/-- A library whose tokens are the bytes, and whose samples are the letters from `a` to `c` before the
end of a generation.  Its state counts the samples. -/
def lib (sampled : Nat) : (c : Api) → c.Reply × Nat
  | .backendLoadAll => ((), sampled)
  | .modelLoadFromFile _ _ => (some 1, sampled)
  | .modelGetVocab _ => (some 2, sampled)
  | .modelFree _ => ((), sampled)
  | .tokenize _ text capacity =>
      if h : text.length ≤ capacity then
        (.written (text.map fun b => Int32.ofNat b.toNat) (by simpa using h), sampled)
      else if h : -Int32.ofNat text.length < 0 then (.missing _ h, sampled)
      else (.written [] (Nat.zero_le _), sampled)
  | .initFromModel _ _ => (some 3, 0)
  | .free _ => ((), sampled)
  | .samplerChainInit => (some 4, sampled)
  | .samplerInitGreedy => (some 5, sampled)
  | .samplerChainAdd _ _ => ((), sampled)
  | .samplerFree _ => ((), sampled)
  | .decode _ _ => (0, sampled)
  | .samplerSample _ _ => (if sampled < 3 then Int32.ofNat (97 + sampled) else 0, sampled + 1)
  | .vocabIsEog _ token => (token = 0, sampled)
  | .tokenToPiece _ token capacity =>
      if h : 1 ≤ capacity then
        (.written [UInt8.ofNat token.toNatClampNeg] (by simpa using h), sampled)
      else (.missing (-1) (by decide), sampled)

def arguments : List Bytes :=
  [Bytes.ofString "--engine-id", Bytes.ofString "e", Bytes.ofString "--model", Bytes.ofString "m"]

def options : Options where
  engineId := Bytes.ofString "e"
  modelPath := Bytes.ofString "m"

def request : Frame :=
  (⟨0, Bytes.ofString "in", 1, 0, none, false⟩ : Call).requestFrame (Bytes.ofString "e")

end Sample

/-- One request, of which each octet of the answer is taken alone. -/
theorem main_answers_one :
  ∃ wire octets x t, encodeFrames [Sample.request] = .ok wire
    ∧ encodeFrames [⟨workerResult, 1, ∅, Bytes.ofString "abc"⟩] = .ok octets
    ∧ evalProcess Sample.lib (main Sample.arguments 2)
      (0, ⟨Source.ofBytes wire ++ inputEnd true, List.replicate 64 (.accepted 0), []⟩) = (x, t)
    ∧ t.2.written = octets ∧ exited? x = some (0, [])
  := by
  have hparse : parseOptions Sample.arguments = .ok Sample.options := by
    decide +kernel
  have hloads : Loads Sample.lib Sample.options 0 1 2 0 := ⟨rfl, rfl⟩
  have hwire : (encodeFrames [Sample.request]).isOk = true := by
    decide +kernel
  cases hencode : encodeFrames [Sample.request] with
  | error e =>
      rw [hencode] at hwire
      cases hwire
  | ok wire =>
      have hsink : Progressing (List.replicate 64 (.accepted 0)) := by
        intro e he
        exact Or.inl ⟨0, (List.mem_replicate.mp he).2⟩
      obtain ⟨octets, x, t, hrun, hoctets, -, hcases⟩ := main_answers hparse hloads [Sample.request]
        hencode true ⟨Source.open_ofBytes wire, Source.content_ofBytes wire⟩ hsink (n := 2) (by decide)
      have hreact : (answers (react Sample.lib Sample.options 1 2) 0 [Sample.request])
          = ([⟨workerResult, 1, ∅, Bytes.ofString "abc"⟩], none) := by
        decide +kernel
      have hlength : (encodeFrames [⟨workerResult, 1, ∅, Bytes.ofString "abc"⟩]).toOption.all
          (fun octets => octets.length ≤ 64) = true := by
        decide +kernel
      rw [hreact] at hoctets hcases
      refine ⟨wire, octets, x, t, rfl, hoctets, hrun, ?_⟩
      rcases hcases with ⟨-, hdone⟩ | ⟨e', request, what, hnone, -⟩ | ⟨-, hlt, -⟩
      · exact hdone
      · cases hnone
      · have hacceptances : acceptances (List.replicate 64 (.accepted 0)) = 64 := by
          decide
        rw [hoctets] at hlength
        simp [Except.toOption] at hlength
        omega

end LlamaWorker

end Kernel
