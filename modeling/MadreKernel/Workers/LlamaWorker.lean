import MadreKernel.Workers.Llama

/-!
# The llama.cpp worker

The process of the llama.cpp worker: it loads a model, answers the requests on its standard input
one after the other, and frees the model when its input ends.

Whatever the library and the descriptors report, it keeps the discipline of the library, answers each
request before it reads the next one, and exits with nothing left of the library but for the model
when it has failed to answer.
-/

namespace Kernel

open Wire

namespace LlamaWorker

open Llama WorkerMain

/-! ### The process -/

/-- What the process does with its standard input and output. -/
inductive Io where
  | readFrame
  | writeFrame (frame : Frame)

abbrev Io.Reply : Io → Type
  | .readFrame => Except WireError Frame
  | .writeFrame _ => Except WireError Unit

/-- A program over the library and the descriptors. -/
abbrev Process := Calling (Api ⊕ Io) (Sum.elim Api.Reply Io.Reply)

abbrev library (c : Api) : Process Bytes c.Reply := Calling.ask (C := Api ⊕ Io) (.inl c)

def readFrame : Process Bytes (Except WireError Frame) :=
  Calling.ask (C := Api ⊕ Io) (.inr .readFrame)

def writeFrame (frame : Frame) : Process Bytes (Except WireError Unit) :=
  Calling.ask (C := Api ⊕ Io) (.inr (.writeFrame frame))

/-- `write_frame`, which throws. -/
def send (frame : Frame) : Process Bytes Unit := do
  match ← writeFrame frame with
  | .ok () => pure ()
  | .error e => Calling.raise e.what

def failure (request : Frame) (message : Bytes) : Frame :=
  ⟨workerFailure, request.correlationId,
    SortedMap.ofEntries [(Bytes.ofString "technical_failure",
      Bytes.ofString "LLAMACPP_WORKER_FAILURE: " ++ message)], []⟩

def sendFailure (request : Frame) (message : Bytes) : Process Bytes Unit :=
  send (failure request message)

/-- The `try` block of `execute`. -/
def respond (options : Options) (model vocab : Handle) (request : Frame) : Process Bytes Unit := do
  let result ← (generate options model vocab request.payload).inl
  send ⟨workerResult, request.correlationId, ∅, result⟩

def execute (options : Options) (model vocab : Handle) (request : Frame) : Process Bytes Unit :=
  if request.type ≠ workerExecute then
    sendFailure request (Bytes.ofString "unsupported worker request")
  else
    match metadataValue request "engine_id" with
    | .error what => Calling.raise what
    | .ok engine =>
        if engine ≠ options.engineId then
          sendFailure request (Bytes.ofString "engine identity mismatch")
        else
          (respond options model vocab request).handle (sendFailure request)

/-- The loop of `main`, for at most `n` requests: the status that it returns. -/
def serve (options : Options) (model vocab : Handle) : Nat → Process Bytes (Option Nat)
  | 0 => pure none
  | n + 1 => do
      match ← readFrame with
      | .error e =>
          library (.modelFree model)
          if e.what = Bytes.ofString "peer closed framed IPC" then pure (some 0)
          else Calling.raise e.what
      | .ok request =>
          execute options model vocab request
          serve options model vocab n

/-- The `try` block of `main`. -/
def serveModel (arguments : List Bytes) (n : Nat) : Process Bytes (Option Nat) :=
  match parseOptions arguments with
  | .error what => Calling.raise what
  | .ok options => do
      library .backendLoadAll
      let loaded : Option Handle ← library (.modelLoadFromFile options.modelPath options.gpuLayers)
      match loaded with
      | none => Calling.raise (Bytes.ofString "failed to load configured GGUF model")
      | some model =>
          let vocabulary : Option Handle ← library (.modelGetVocab model)
          match vocabulary with
          | none =>
              library (.modelFree model)
              Calling.raise (Bytes.ofString "loaded model has no vocabulary")
          | some vocab => serve options model vocab n

/-- `main`, for at most `n` requests: the status and the text on the standard error that it ends
with. -/
def main (arguments : List Bytes) (n : Nat) : Process Empty (Option (Nat × Bytes)) :=
  Calling.handle (do return (← serveModel arguments n).map fun status => (status, []))
    fun what => pure (some (1, Bytes.ofString "madre-llamacpp-worker: " ++ what ++ [10]))

/-! ### The discipline of the process -/

/-- What the process holds, and the request that it has not answered. -/
structure Owned where
  held : Held := {}
  pending : Option Frame := none

/-- A failure, or a result within the limit, with the correlation id of the request. -/
inductive Answer (request : Frame) : Frame → Prop where
  | failed (message : Bytes) : Answer request (failure request message)
  | succeeded {result : Bytes} (h : Bounded result) :
      Answer request ⟨workerResult, request.correlationId, ∅, result⟩

/-- While the process reads or writes it holds the model at most.  It reads when every request is
answered, and it writes an answer to the last one. -/
def Owned.Allows (s : Owned) : Api ⊕ Io → Prop
  | .inl c => s.held.Allows c
  | .inr .readFrame => s.held.Idle ∧ s.pending = none
  | .inr (.writeFrame frame) => s.held.Idle ∧ ∃ request, s.pending = some request
      ∧ Answer request frame

def Owned.after (s : Owned) : (c : Api ⊕ Io) → Sum.elim Api.Reply Io.Reply c → Owned
  | .inl c, r => { s with held := s.held.after c r }
  | .inr .readFrame, .ok request => { s with pending := some request }
  | .inr (.writeFrame _), .ok () => { s with pending := none }
  | .inr .readFrame, .error _ => s
  | .inr (.writeFrame _), .error _ => s

/-- The library and the descriptors: their replies are arbitrary. -/
def processDiscipline : Calling.World Owned (Api ⊕ Io) (Sum.elim Api.Reply Io.Reply) :=
  .ofReplies Owned.Allows Owned.after

section

variable {α : Type} {Q : Except Bytes α → Owned → Prop} {s : Owned}

theorem wp_library_bind (c : Api) (f : c.Reply → Process Bytes α) :
  (library c >>= f).wp processDiscipline Q s
    ↔ s.held.Allows c ∧ ∀ r, (f r).wp processDiscipline Q { s with held := s.held.after c r }
  := Calling.wp_ask_bind (R := Sum.elim Api.Reply Io.Reply) (.inl c) f Q s

theorem wp_readFrame_bind (f : Except WireError Frame → Process Bytes α) :
  (readFrame >>= f).wp processDiscipline Q s
    ↔ s.Allows (.inr .readFrame)
      ∧ ∀ r, (f r).wp processDiscipline Q (s.after (.inr .readFrame) r)
  := Calling.wp_ask_bind (R := Sum.elim Api.Reply Io.Reply) (.inr .readFrame) f Q s

theorem wp_writeFrame_bind (frame : Frame) (f : Except WireError Unit → Process Bytes α) :
  (writeFrame frame >>= f).wp processDiscipline Q s
    ↔ s.Allows (.inr (.writeFrame frame))
      ∧ ∀ r, (f r).wp processDiscipline Q (s.after (.inr (.writeFrame frame)) r)
  := Calling.wp_ask_bind (R := Sum.elim Api.Reply Io.Reply) (.inr (.writeFrame frame)) f Q s

/-- What a program over the library promises, it promises in the process. -/
theorem wp_program
    {p : Program α} {Q : Except Bytes α → Held → Prop} (h : p.wp discipline Q s.held) :
  (p.inl : Process Bytes α).wp processDiscipline
    (fun x t => Q x t.held ∧ t.pending = s.pending) s
  := by
  have hlifted := Calling.wp_inl (v := processDiscipline)
    (K := fun t held => t.held = held ∧ t.pending = s.pending) ?_ ?_ ⟨rfl, rfl⟩ h
  · apply Calling.wp_mono hlifted
    rintro x t ⟨_, ⟨rfl, hpending⟩, hq⟩
    exact ⟨hq, hpending⟩
  · rintro t _ c ⟨rfl, -⟩ hallows
    exact hallows
  · rintro t _ c r _ ⟨rfl, hpending⟩ rfl
    exact ⟨_, rfl, rfl, hpending⟩

end

/-- The end of an execution: the request is answered unless there is an exception, and what is held
is as before. -/
def Executed (s : Owned) (x : Except Bytes Unit) (t : Owned) : Prop :=
  t.held = s.held ∧ t.pending = match x with
    | .ok () => none
    | .error _ => s.pending

theorem send_spec
    {s : Owned} {request frame : Frame} (hidle : s.held.Idle) (hpending : s.pending = some request)
    (hanswer : Answer request frame) :
  (send frame).wp processDiscipline (Executed s) s
  := by
  rw [send, wp_writeFrame_bind]
  refine ⟨⟨hidle, request, hpending, hanswer⟩, ?_⟩
  intro written
  cases written with
  | ok => exact ⟨rfl, rfl⟩
  | error e => exact ⟨rfl, rfl⟩

theorem respond_spec
    {options : Options} (hvalid : options.Valid) {s : Owned} {model vocab : Handle} {request : Frame}
    (hidle : s.held.Idle) (hmodel : s.held.model = some model) (hvocab : s.held.vocab = some vocab)
    (hpending : s.pending = some request) :
  (respond options model vocab request).wp processDiscipline (Executed s) s
  := by
  rw [respond, Calling.wp_bind]
  apply Calling.wp_mono (wp_program (generate_spec hvalid hmodel hvocab hidle request.payload))
  rintro x t ⟨⟨hheld, hresult⟩, hsame⟩
  cases x with
  | error what => exact ⟨hheld, hsame⟩
  | ok result =>
      have hsent := send_spec (hheld ▸ hidle) (hsame.trans hpending) (.succeeded hresult)
      apply Calling.wp_mono hsent
      rintro y u ⟨hheld', hsame'⟩
      refine ⟨hheld'.trans hheld, ?_⟩
      cases y with
      | ok => exact hsame'
      | error e => exact hsame'.trans hsame

theorem execute_spec
    {options : Options} (hvalid : options.Valid) {s : Owned} {model vocab : Handle} {request : Frame}
    (hidle : s.held.Idle) (hmodel : s.held.model = some model) (hvocab : s.held.vocab = some vocab)
    (hpending : s.pending = some request) :
  (execute options model vocab request).wp processDiscipline (Executed s) s
  := by
  rw [execute]
  split_ifs
  · exact send_spec hidle hpending (.failed _)
  · split
    next what => exact ⟨rfl, rfl⟩
    next engine =>
      split_ifs
      · exact send_spec hidle hpending (.failed _)
      · rw [Calling.wp_handle]
        apply Calling.wp_mono (respond_spec hvalid hidle hmodel hvocab hpending)
        rintro x t ⟨hheld, hsame⟩
        cases x with
        | ok => exact ⟨hheld, hsame⟩
        | error what =>
            rw [Calling.handled_error]
            apply Calling.wp_mono (send_spec (hheld ▸ hidle) (hsame.trans hpending) (.failed what))
            rintro y u ⟨hheld', hsame'⟩
            refine ⟨hheld'.trans hheld, ?_⟩
            cases y with
            | ok => exact hsame'
            | error e => exact hsame'.trans hsame

/-- How the process stands behind its `try` block: it reads on with the model, or it has ended its
input and freed it, or it has an exception and the model exactly when a request is not answered. -/
def Served : Except Bytes (Option Nat) → Owned → Prop
  | .ok none, t => t.held.Idle ∧ t.held.model.isSome ∧ t.pending = none
  | .ok (some status), t => status = 0 ∧ t = {}
  | .error _, t => t.held.Idle ∧ t.held.model.isSome = t.pending.isSome

theorem serve_spec
    {options : Options} (hvalid : options.Valid) {model vocab : Handle} {s : Owned} (n : Nat)
    (hidle : s.held.Idle) (hmodel : s.held.model = some model) (hvocab : s.held.vocab = some vocab)
    (hpending : s.pending = none) :
  (serve options model vocab n).wp processDiscipline Served s
  := by
  induction n generalizing s with
  | zero => exact ⟨hidle, by rw [hmodel]; rfl, hpending⟩
  | succ n ih =>
      rw [serve, wp_readFrame_bind]
      refine ⟨⟨hidle, hpending⟩, ?_⟩
      intro read
      cases read with
      | error e =>
          simp only
          rw [wp_library_bind]
          refine ⟨⟨hmodel, hidle⟩, ?_⟩
          rintro ⟨⟩
          have hfreed : (⟨s.held.after (.modelFree model) (), s.pending⟩ : Owned) = {} := by
            obtain ⟨hcontext, hchain, hgreedy⟩ := hidle
            rcases s with ⟨⟨_, _, _, _, _⟩, _⟩
            simp_all [Held.after]
          change Calling.wp _ _ Served ⟨s.held.after (.modelFree model) (), s.pending⟩
          rw [hfreed]
          split_ifs
          · exact ⟨rfl, rfl⟩
          · exact ⟨⟨rfl, rfl, rfl⟩, rfl⟩
      | ok request =>
          have hexecuted := execute_spec (s := { s with pending := some request }) hvalid
            hidle hmodel hvocab rfl
          simp only
          rw [Calling.wp_bind]
          apply Calling.wp_mono hexecuted
          rintro x t ⟨hheld, hsame⟩
          cases x with
          | error what =>
              refine ⟨hheld ▸ hidle, ?_⟩
              rw [hheld, hsame]
              simp only [hmodel, Option.isSome_some]
          | ok =>
              rw [Calling.followed_ok]
              apply ih
              · rw [hheld]
                exact hidle
              · rw [hheld]
                exact hmodel
              · rw [hheld]
                exact hvocab
              · exact hsame

theorem serveModel_spec (arguments : List Bytes) (n : Nat) :
  (serveModel arguments n).wp processDiscipline Served {}
  := by
  rw [serveModel]
  split
  next what => exact ⟨⟨rfl, rfl, rfl⟩, rfl⟩
  next options hparse =>
    rw [wp_library_bind]
    refine ⟨rfl, ?_⟩
    rintro ⟨⟩
    rw [wp_library_bind]
    refine ⟨rfl, ?_⟩
    intro loaded
    cases loaded with
    | none => exact ⟨⟨rfl, rfl, rfl⟩, rfl⟩
    | some model =>
        simp only
        rw [wp_library_bind]
        refine ⟨⟨rfl, rfl, rfl, rfl⟩, ?_⟩
        intro vocabulary
        cases vocabulary with
        | none =>
            simp only
            rw [wp_library_bind]
            refine ⟨⟨rfl, rfl, rfl, rfl⟩, ?_⟩
            rintro ⟨⟩
            exact ⟨⟨rfl, rfl, rfl⟩, rfl⟩
        | some vocab =>
            exact serve_spec (valid_of_parseOptions hparse) n ⟨rfl, rfl, rfl⟩ rfl rfl rfl

/-- Whatever the arguments of the worker are and whatever the library and the descriptors report, it
keeps the discipline of the library, it answers each request before it reads the next one, and it
holds no context and no sampler between two requests.  It ends with status 0 only when it has
answered all requests and freed the model, and else with status 1; the model is not freed exactly
when there is a request that it has failed to answer. -/
theorem main_disciplined (arguments : List Bytes) (n : Nat) :
  (main arguments n).Safe processDiscipline {}
    ∧ ∀ outcome t, (main arguments n).Ends processDiscipline {} (.ok outcome) t →
      t.held.Idle ∧ match outcome with
        | none => t.held.model.isSome ∧ t.pending = none
        | some (status, text) => (status = 0 ∧ text = [] ∧ t = {})
          ∨ (status = 1 ∧ t.held.model.isSome = t.pending.isSome)
  := by
  have hwp : (main arguments n).wp processDiscipline (fun x t => ∀ outcome, x = .ok outcome →
      t.held.Idle ∧ match outcome with
        | none => t.held.model.isSome ∧ t.pending = none
        | some (status, text) => (status = 0 ∧ text = [] ∧ t = {})
          ∨ (status = 1 ∧ t.held.model.isSome = t.pending.isSome)) {} := by
    rw [main, Calling.wp_handle, Calling.wp_bind]
    apply Calling.wp_mono (serveModel_spec arguments n)
    rintro (what | _ | status) t hserved
    · rintro _ ⟨⟩
      exact ⟨hserved.1, Or.inr ⟨rfl, hserved.2⟩⟩
    · rintro _ ⟨⟩
      exact hserved
    · rintro _ ⟨⟩
      obtain ⟨rfl, rfl⟩ := hserved
      exact ⟨⟨rfl, rfl, rfl⟩, Or.inl ⟨rfl, rfl, rfl⟩⟩
  obtain ⟨hsafe, hends⟩ := Calling.wp_iff.mp hwp
  exact ⟨hsafe, fun outcome t h => hends _ t h outcome rfl⟩

end LlamaWorker

end Kernel
