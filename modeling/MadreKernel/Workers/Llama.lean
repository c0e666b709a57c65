import MadreKernel.Kernel.Numbers
import MadreKernel.Lib.Calls
import MadreKernel.Workers.Loop

/-!
# Text generation with llama.cpp

`generate` of the llama.cpp worker, over the functions of the library that it calls.  The replies of
the library are arbitrary, but for what it documents about sizes: it writes no more tokens or bytes
than there is room for, and a size that it misses is negative.  The objects of the library have
handles, and an allocation that fails has none.

`Held` is what the worker holds of the library, and `discipline` says when its functions may be
called: with handles that are live, with batches that fit the context, and with a sample only behind
an evaluation.
-/

namespace Kernel

open Wire

namespace Llama

/-! ### The library -/

abbrev Handle := Nat

/-- What `llama_tokenize` reports: the tokens that it has written, or a negative number. -/
inductive Tokens (capacity : Nat) where
  | written (tokens : List Int32) (h : tokens.length ≤ capacity)
  | missing (count : Int32) (h : count < 0)

/-- The number that `llama_tokenize` returns. -/
def Tokens.count {capacity : Nat} : Tokens capacity → Int32
  | .written tokens _ => Int32.ofNat tokens.length
  | .missing count _ => count

/-- What `llama_token_to_piece` reports: the bytes that it has written, or a negative number. -/
inductive Piece (capacity : Nat) where
  | written (bytes : Bytes) (h : bytes.length ≤ capacity)
  | missing (size : Int32) (h : size < 0)

/-- The parameters of a context that the worker sets; `no_perf` is set in each. -/
structure ContextParams where
  nCtx : UInt32
  nBatch : UInt32
  deriving DecidableEq

/-- The functions of the library that the worker calls. -/
inductive Api where
  | backendLoadAll
  | modelLoadFromFile (path : Bytes) (gpuLayers : Int32)
  | modelGetVocab (model : Handle)
  | modelFree (model : Handle)
  | tokenize (vocab : Handle) (text : Bytes) (capacity : Nat)
  | initFromModel (model : Handle) (params : ContextParams)
  | free (context : Handle)
  | samplerChainInit
  | samplerInitGreedy
  | samplerChainAdd (chain : Handle) (sampler : Option Handle)
  | samplerFree (sampler : Handle)
  | decode (context : Handle) (batch : List Int32)
  | samplerSample (sampler context : Handle)
  | vocabIsEog (vocab : Handle) (token : Int32)
  | tokenToPiece (vocab : Handle) (token : Int32) (capacity : Nat)

abbrev Api.Reply : Api → Type
  | .backendLoadAll => Unit
  | .modelLoadFromFile _ _ => Option Handle
  | .modelGetVocab _ => Option Handle
  | .modelFree _ => Unit
  | .tokenize _ _ capacity => Tokens capacity
  | .initFromModel _ _ => Option Handle
  | .free _ => Unit
  | .samplerChainInit => Option Handle
  | .samplerInitGreedy => Option Handle
  | .samplerChainAdd _ _ => Unit
  | .samplerFree _ => Unit
  | .decode _ _ => Int32
  | .samplerSample _ _ => Int32
  | .vocabIsEog _ _ => Bool
  | .tokenToPiece _ _ capacity => Piece capacity

/-- A program over the library, whose exceptions have a text. -/
abbrev Program := Calling Api Api.Reply Bytes

abbrev ask (c : Api) : Program c.Reply := Calling.ask c

end Llama

namespace LlamaWorker

open Llama
open Calling (raise)

/-! ### Options -/

structure Options where
  engineId : Bytes := []
  modelPath : Bytes := []
  nPredict : Int32 := 64
  contextSize : UInt32 := 512
  gpuLayers : Int32 := 0
  deriving DecidableEq

def usage : Bytes :=
  Bytes.ofString "usage: madre-llamacpp-worker --engine-id <id> --model <gguf> "
    ++ Bytes.ofString "[--n-predict N] [--ctx-size N] [--gpu-layers N]"

/-- `std::stoul`, which negates a number behind a minus sign. -/
def stoul (text : Bytes) : Except Bytes UInt64 :=
  match leadingNumber text with
  | none => .error (Bytes.ofString "stoul")
  | some (negative, n) =>
      if n < 2 ^ 64 then .ok (if negative then -UInt64.ofNat n else UInt64.ofNat n)
      else .error (Bytes.ofString "stoul")

/-- The loop of `parse_options`. -/
def parseArguments (options : Options) : List Bytes → Except Bytes Options
  | [] => .ok options
  | [_] => .error usage
  | argument :: value :: rest =>
      if argument = Bytes.ofString "--engine-id" then
        parseArguments { options with engineId := value } rest
      else if argument = Bytes.ofString "--model" then
        parseArguments { options with modelPath := value } rest
      else if argument = Bytes.ofString "--n-predict" then
        match stoi value with
        | .ok nPredict => parseArguments { options with nPredict } rest
        | .error e => .error e
      else if argument = Bytes.ofString "--ctx-size" then
        match stoul value with
        | .ok size => parseArguments { options with contextSize := size.toUInt32 } rest
        | .error e => .error e
      else if argument = Bytes.ofString "--gpu-layers" then
        match stoi value with
        | .ok gpuLayers => parseArguments { options with gpuLayers } rest
        | .error e => .error e
      else .error usage

/-- What `parse_options` demands. -/
def Options.Valid (options : Options) : Prop :=
  options.engineId ≠ [] ∧ options.modelPath ≠ [] ∧ 1 ≤ options.nPredict
    ∧ 32 ≤ options.contextSize ∧ 0 ≤ options.gpuLayers

def parseOptions (arguments : List Bytes) : Except Bytes Options :=
  match parseArguments {} arguments with
  | .error e => .error e
  | .ok options =>
      if options.engineId = [] ∨ options.modelPath = [] ∨ options.nPredict < 1
          ∨ options.contextSize < 32 ∨ options.gpuLayers < 0 then
        .error (Bytes.ofString "invalid llama.cpp worker configuration")
      else .ok options

theorem valid_of_parseOptions
    {arguments : List Bytes} {options : Options} (h : parseOptions arguments = .ok options) :
  options.Valid
  := by
  rw [parseOptions] at h
  split at h
  next => cases h
  next parsed _ =>
    split_ifs at h with hinvalid
    cases h
    simp only [not_or, Int32.not_lt, UInt32.not_lt] at hinvalid
    exact hinvalid

/-! ### Generation -/

/-- The bytes of a token, from a buffer of 256 bytes or from one of the size that is missing. -/
def tokenPiece (vocab : Handle) (token : Int32) : Program Bytes := do
  let fixed : Piece 256 ← ask (.tokenToPiece vocab token 256)
  match fixed with
  | .written bytes _ => pure bytes
  | .missing size _ =>
      let dynamic : Piece _ ←
        ask (.tokenToPiece vocab token (-size).toInt64.toUInt64.toNat)
      match dynamic with
      | .written bytes _ => pure bytes
      | .missing _ _ => raise (Bytes.ofString "failed to convert generated token to bytes")

def tokenize (vocab : Handle) (prompt : Bytes) : Program (List Int32) := do
  let sized : Tokens 0 ← ask (.tokenize vocab prompt 0)
  let required := -sized.count
  if required ≤ 0 then raise (Bytes.ofString "failed to size prompt tokenization")
  else
    let actual : Tokens _ ← ask (.tokenize vocab prompt required.toNatClampNeg)
    match actual with
    | .written tokens _ => pure tokens
    | .missing _ _ => raise (Bytes.ofString "failed to tokenize prompt")

/-- The loop of `generate`, for the tokens that are left. -/
def generateTokens (vocab context sampler : Handle) : Nat → Bytes → Program Bytes
  | 0, result => pure result
  | left + 1, result => do
      let token ← ask (.samplerSample sampler context)
      if ← ask (.vocabIsEog vocab token) then pure result
      else do
        let piece ← tokenPiece vocab token
        if result.length + piece.length > kMaxC1TextGenerationOpaquePayloadBytes then
          raise (Bytes.ofString "generated result exceeds bounded C1 payload")
        else do
          let status ← ask (.decode context [token])
          if status ≠ 0 then raise (Bytes.ofString "failed to evaluate generated token")
          else generateTokens vocab context sampler left (result ++ piece)

/-- The `try` block of `generate`. -/
def evaluate (options : Options) (vocab context sampler : Handle) (tokens : List Int32) :
    Program Bytes := do
  let status ← ask (.decode context tokens)
  if status ≠ 0 then raise (Bytes.ofString "failed to evaluate prompt")
  else generateTokens vocab context sampler options.nPredict.toNatClampNeg []

/-- The part of `generate` behind its allocations. -/
def evaluateAndFree (options : Options) (vocab context sampler : Handle) (tokens : List Int32) :
    Program Bytes := do
  ask (.samplerChainAdd sampler (← ask .samplerInitGreedy))
  let result ← (evaluate options vocab context sampler tokens).handle fun what => do
    ask (.samplerFree sampler)
    ask (.free context)
    raise what
  ask (.samplerFree sampler)
  ask (.free context)
  pure result

def contextParams (options : Options) (tokens : List Int32) : ContextParams where
  nCtx := options.contextSize
  nBatch := min options.contextSize (max 32 (UInt32.ofNat tokens.length))

def generate (options : Options) (model vocab : Handle) (payload : Bytes) : Program Bytes := do
  let tokens ← tokenize vocab payload
  if tokens.length + options.nPredict.toNatClampNeg + 1 > options.contextSize.toNat then
    raise (Bytes.ofString "prompt plus configured generation exceeds worker context size")
  else
    let created : Option Handle ← ask (.initFromModel model (contextParams options tokens))
    match created with
    | none => raise (Bytes.ofString "failed to create llama context")
    | some context =>
        let chain : Option Handle ← ask .samplerChainInit
        match chain with
        | none =>
            ask (.free context)
            raise (Bytes.ofString "failed to create llama sampler")
        | some sampler => evaluateAndFree options vocab context sampler tokens

end LlamaWorker

/-! ### The discipline of the library -/

namespace Llama

/-- A context: its parameters, the tokens that it has evaluated, and whether the last evaluation has
succeeded. -/
structure Context where
  handle : Handle
  params : ContextParams
  evaluated : Nat := 0
  ready : Bool := false

/-- What the worker holds of the library: `chain` says whether it has its sampler, and `greedy` is a
sampler that no chain has. -/
structure Held where
  model : Option Handle := none
  vocab : Option Handle := none
  context : Option Context := none
  chain : Option (Handle × Bool) := none
  greedy : Option (Option Handle) := none

/-- Nothing is held but the model. -/
def Held.Idle (h : Held) : Prop := h.context = none ∧ h.chain = none ∧ h.greedy = none

/-- A batch that fits a context behind what it has evaluated. -/
def Context.Takes (c : Context) (batch : List Int32) : Prop :=
  batch.length ≤ c.params.nBatch.toNat ∧ c.evaluated + batch.length < c.params.nCtx.toNat

def Context.decoded (c : Context) (batch : List Int32) (status : Int32) : Context :=
  if status = 0 then { c with evaluated := c.evaluated + batch.length, ready := true }
  else { c with ready := false }

theorem Context.decoded_handle (c : Context) (batch : List Int32) (status : Int32) :
  (c.decoded batch status).handle = c.handle
  := by
  rw [Context.decoded]
  split_ifs <;> rfl

/-- When a function of the library may be called. -/
def Held.Allows (h : Held) : Api → Prop
  | .backendLoadAll => h = {}
  | .modelLoadFromFile _ _ => h = {}
  | .modelGetVocab model => h.model = some model ∧ h.Idle
  | .modelFree model => h.model = some model ∧ h.Idle
  | .tokenize vocab _ _ => h.vocab = some vocab
  | .initFromModel model params => h.model = some model ∧ h.context = none ∧ 0 < params.nBatch
      ∧ params.nBatch ≤ params.nCtx
  | .free context => (∃ c, h.context = some c ∧ c.handle = context) ∧ h.chain = none
  | .samplerChainInit => h.chain = none
  | .samplerInitGreedy => h.greedy = none
  | .samplerChainAdd chain sampler => h.chain = some (chain, false) ∧ h.greedy = some sampler
  | .samplerFree sampler => (∃ filled, h.chain = some (sampler, filled)) ∧ h.greedy = none
  | .decode context batch => ∃ c, h.context = some c ∧ c.handle = context ∧ c.Takes batch
  | .samplerSample sampler context => h.chain = some (sampler, true)
      ∧ ∃ c, h.context = some c ∧ c.handle = context ∧ c.ready = true
  | .vocabIsEog vocab _ => h.vocab = some vocab
  | .tokenToPiece vocab _ _ => h.vocab = some vocab

/-- What a reply of the library changes. -/
def Held.after (h : Held) : (c : Api) → c.Reply → Held
  | .modelLoadFromFile _ _, model => { h with model }
  | .modelGetVocab _, vocab => { h with vocab }
  | .modelFree _, () => { h with model := none, vocab := none }
  | .initFromModel _ params, context => { h with context := context.map fun c => ⟨c, params, 0, false⟩ }
  | .free _, () => { h with context := none }
  | .samplerChainInit, chain => { h with chain := chain.map fun c => (c, false) }
  | .samplerInitGreedy, sampler => { h with greedy := some sampler }
  | .samplerChainAdd chain _, () => { h with chain := some (chain, true), greedy := none }
  | .samplerFree _, () => { h with chain := none }
  | .decode _ batch, status => { h with context := h.context.map (·.decoded batch status) }
  | _, _ => h

/-- The library under its discipline: its replies are arbitrary. -/
def discipline : Calling.World Held Api Api.Reply := .ofReplies Held.Allows Held.after

@[simp]
theorem wp_ask_bind {α : Type} (c : Api) (f : c.Reply → Program α) (Q : Except Bytes α → Held → Prop)
    (h : Held) :
  (ask c >>= f).wp discipline Q h ↔ h.Allows c ∧ ∀ r, (f r).wp discipline Q (h.after c r)
  := Calling.wp_ask_bind c f Q h

end Llama

namespace LlamaWorker

open Llama

/-- The texts of the exceptions. -/
def exceptionTexts : List String :=
  ["failed to convert generated token to bytes", "failed to size prompt tokenization",
    "failed to tokenize prompt", "generated result exceeds bounded C1 payload",
    "failed to evaluate generated token", "failed to evaluate prompt",
    "prompt plus configured generation exceeds worker context size",
    "failed to create llama context", "failed to create llama sampler"]

/-- A value with a property, or an exception with one of the texts. -/
def Sound {α : Type} (P : α → Prop) : Except Bytes α → Prop
  | .ok a => P a
  | .error what => ∃ text ∈ exceptionTexts, what = Bytes.ofString text

theorem sound_of_text {α : Type} {P : α → Prop} {text : String} (h : text ∈ exceptionTexts) :
  Sound P (.error (Bytes.ofString text))
  := ⟨text, h, rfl⟩

/-- A result within the limit of the Kernel. -/
def Bounded (result : Bytes) : Prop := result.length ≤ kMaxC1TextGenerationOpaquePayloadBytes

theorem tokenPiece_spec {h : Held} {vocab : Handle} (hvocab : h.vocab = some vocab) (token : Int32) :
  (tokenPiece vocab token).wp discipline (fun x t => t = h ∧ Sound (fun _ => True) x) h
  := by
  rw [tokenPiece, wp_ask_bind]
  refine ⟨hvocab, ?_⟩
  intro fixed
  cases fixed with
  | written bytes hbytes => exact ⟨rfl, trivial⟩
  | missing size hsize =>
      simp only
      rw [wp_ask_bind]
      refine ⟨hvocab, ?_⟩
      intro dynamic
      cases dynamic with
      | written bytes hbytes => exact ⟨rfl, trivial⟩
      | missing size' hsize' => exact ⟨rfl, sound_of_text (by simp [exceptionTexts])⟩

theorem tokenize_spec {h : Held} {vocab : Handle} (hvocab : h.vocab = some vocab) (prompt : Bytes) :
  (tokenize vocab prompt).wp discipline
    (fun x t => t = h ∧ Sound (fun tokens => tokens.length < 2 ^ 31) x) h
  := by
  rw [tokenize, wp_ask_bind]
  refine ⟨hvocab, ?_⟩
  intro sized
  simp only
  split_ifs
  · exact ⟨rfl, sound_of_text (by simp [exceptionTexts])⟩
  · rw [wp_ask_bind]
    refine ⟨hvocab, ?_⟩
    intro actual
    cases actual with
    | written tokens htokens =>
        refine ⟨rfl, ?_⟩
        have hcapacity := Int32.toNatClampNeg_lt (-Tokens.count sized)
        apply Nat.lt_of_le_of_lt htokens hcapacity
    | missing count hcount => exact ⟨rfl, sound_of_text (by simp [exceptionTexts])⟩

/-- A state in which tokens are generated in a context. -/
structure Generating (h : Held) (vocab sampler : Handle) (c : Context) : Prop where
  vocab : h.vocab = some vocab
  context : h.context = some c
  chain : h.chain = some (sampler, true)

theorem Generating.with_context
    {h : Held} {vocab sampler : Handle} {c : Context} (hgenerating : Generating h vocab sampler c)
    (c' : Context) :
  Generating { h with context := some c' } vocab sampler c'
  := ⟨hgenerating.vocab, rfl, hgenerating.chain⟩

/-- A result within the limit, or an exception, that changes nothing but the context. -/
def Generated (h : Held) (c : Context) (x : Except Bytes Bytes) (t : Held) : Prop :=
  (∃ c', t = { h with context := some c' } ∧ c'.handle = c.handle) ∧ Sound Bounded x

theorem Generated.of_sound
    {h : Held} {c : Context} (hcontext : h.context = some c) {x : Except Bytes Bytes}
    (hx : Sound Bounded x) :
  Generated h c x h
  := by
  refine ⟨⟨c, ?_, rfl⟩, hx⟩
  rw [← hcontext]

/-- Behind an evaluation the loop or an exception changes nothing but the context. -/
theorem Generated.decoded
    {h t : Held} {c : Context} (batch : List Int32) (status : Int32) {x : Except Bytes Bytes}
    (hgenerated : Generated { h with context := some (c.decoded batch status) }
      (c.decoded batch status) x t) :
  Generated h c x t
  := by
  obtain ⟨⟨c', ht, hhandle⟩, hresult⟩ := hgenerated
  exact ⟨⟨c', ht, hhandle.trans (Context.decoded_handle c batch status)⟩, hresult⟩

/-- The tokens that are left fit the context behind those that it has evaluated. -/
theorem generateTokens_spec
    {h : Held} {vocab sampler : Handle} {c : Context} (hgenerating : Generating h vocab sampler c)
    (hready : c.ready = true) (hbatch : 1 ≤ c.params.nBatch.toNat) {left : Nat}
    (hfits : c.evaluated + left < c.params.nCtx.toNat) {result : Bytes}
    (hresult : Bounded result) :
  (generateTokens vocab c.handle sampler left result).wp discipline (Generated h c) h
  := by
  induction left generalizing h c result with
  | zero => exact .of_sound hgenerating.context hresult
  | succ left ih =>
      rw [generateTokens, wp_ask_bind]
      refine ⟨⟨hgenerating.chain, c, hgenerating.context, rfl, hready⟩, ?_⟩
      intro token
      rw [wp_ask_bind]
      refine ⟨hgenerating.vocab, ?_⟩
      intro eog
      split_ifs
      · exact .of_sound hgenerating.context hresult
      · rw [Calling.wp_bind]
        apply Calling.wp_mono (tokenPiece_spec hgenerating.vocab token)
        rintro piece t ⟨ht, hsound⟩
        rw [ht]
        cases piece with
        | error what => exact .of_sound hgenerating.context hsound
        | ok piece =>
            rw [Calling.followed_ok]
            split_ifs with hlarge
            · exact .of_sound hgenerating.context (sound_of_text (by simp [exceptionTexts]))
            · rw [wp_ask_bind]
              have htakes : c.Takes [token] := ⟨hbatch, by simp; omega⟩
              refine ⟨⟨c, hgenerating.context, rfl, htakes⟩, ?_⟩
              intro status
              have hafter : Held.after h (.decode c.handle [token]) status
                  = { h with context := some (c.decoded [token] status) } := by
                simp only [Held.after, hgenerating.context, Option.map_some]
              rw [hafter]
              split_ifs with hstatus
              · apply Generated.decoded [token] status
                exact .of_sound rfl (sound_of_text (by simp [exceptionTexts]))
              · have hdecoded : c.decoded [token] status
                    = { c with evaluated := c.evaluated + 1, ready := true } := by
                  rw [Context.decoded, if_pos (not_not.mp hstatus)]
                  rfl
                apply Calling.wp_mono _ fun x t => Generated.decoded [token] status
                rw [hdecoded]
                apply ih (hgenerating.with_context { c with evaluated := c.evaluated + 1, ready := true })
                  rfl hbatch
                · simp only
                  omega
                · rw [Bounded, List.length_append]
                  omega

/-- What `generate` needs: the prompt and the tokens to come fit the context. -/
theorem evaluate_spec
    {options : Options} {h : Held} {vocab sampler : Handle} {c : Context}
    (hgenerating : Generating h vocab sampler c) (hevaluated : c.evaluated = 0)
    {tokens : List Int32} (hbatch : 1 ≤ c.params.nBatch.toNat)
    (htokens : tokens.length ≤ c.params.nBatch.toNat)
    (hfits : tokens.length + options.nPredict.toNatClampNeg < c.params.nCtx.toNat) :
  (evaluate options vocab c.handle sampler tokens).wp discipline (Generated h c) h
  := by
  rw [evaluate, wp_ask_bind]
  have htakes : c.Takes tokens := ⟨htokens, by omega⟩
  refine ⟨⟨c, hgenerating.context, rfl, htakes⟩, ?_⟩
  intro status
  have hafter : Held.after h (.decode c.handle tokens) status
      = { h with context := some (c.decoded tokens status) } := by
    simp only [Held.after, hgenerating.context, Option.map_some]
  rw [hafter]
  split_ifs with hstatus
  · apply Generated.decoded tokens status
    exact .of_sound rfl (sound_of_text (by simp [exceptionTexts]))
  · have hdecoded : c.decoded tokens status
        = { c with evaluated := tokens.length, ready := true } := by
      rw [Context.decoded, if_pos (not_not.mp hstatus), hevaluated, Nat.zero_add]
    apply Calling.wp_mono _ fun x t => Generated.decoded tokens status
    rw [hdecoded]
    apply generateTokens_spec
      (hgenerating.with_context { c with evaluated := tokens.length, ready := true }) rfl hbatch hfits
    exact Nat.zero_le _

theorem toNat_min (a b : UInt32) :
  (min a b).toNat = min a.toNat b.toNat
  := by
  have hmin : min a b = if a ≤ b then a else b := rfl
  rw [hmin]
  split_ifs with h
  all_goals
    rw [UInt32.le_iff_toNat_le] at h
    omega

theorem toNat_max (a b : UInt32) :
  (max a b).toNat = max a.toNat b.toNat
  := by
  have hmax : max a b = if a ≤ b then b else a := rfl
  rw [hmax]
  split_ifs with h
  all_goals
    rw [UInt32.le_iff_toNat_le] at h
    omega

/-- The batches of a context have room for the prompt. -/
theorem contextParams_spec
    {options : Options} (hvalid : options.Valid) {tokens : List Int32}
    (hlength : tokens.length < 2 ^ 31)
    (hfits : tokens.length + options.nPredict.toNatClampNeg + 1 ≤ options.contextSize.toNat) :
  0 < (contextParams options tokens).nBatch
    ∧ (contextParams options tokens).nBatch ≤ (contextParams options tokens).nCtx
    ∧ tokens.length ≤ (contextParams options tokens).nBatch.toNat
  := by
  have hsize : 32 ≤ options.contextSize.toNat := hvalid.2.2.2.1
  have hcount : (UInt32.ofNat tokens.length).toNat = tokens.length := by
    simp
    omega
  have hbatch : (contextParams options tokens).nBatch.toNat
      = min options.contextSize.toNat (max 32 tokens.length) := by
    rw [contextParams, toNat_min, toNat_max, hcount]
    rfl
  refine ⟨?_, ?_, ?_⟩
  · rw [UInt32.lt_iff_toNat_lt, hbatch]
    simp
    omega
  · rw [UInt32.le_iff_toNat_le, hbatch]
    exact min_le_left _ _
  · rw [hbatch]
    omega

/-- What is allocated is given back, with a result or an exception. -/
theorem evaluateAndFree_spec
    {options : Options} {h : Held} {vocab sampler : Handle} {c : Context}
    (hvocab : h.vocab = some vocab) (hcontext : h.context = some c) (hevaluated : c.evaluated = 0)
    (hchain : h.chain = some (sampler, false)) (hgreedy : h.greedy = none) {tokens : List Int32}
    (hbatch : 1 ≤ c.params.nBatch.toNat) (htokens : tokens.length ≤ c.params.nBatch.toNat)
    (hfits : tokens.length + options.nPredict.toNatClampNeg < c.params.nCtx.toNat) :
  (evaluateAndFree options vocab c.handle sampler tokens).wp discipline
    (fun x t => t = { h with context := none, chain := none } ∧ Sound Bounded x) h
  := by
  rw [evaluateAndFree, wp_ask_bind]
  refine ⟨hgreedy, ?_⟩
  intro greedy
  rw [wp_ask_bind]
  refine ⟨⟨hchain, rfl⟩, ?_⟩
  rintro ⟨⟩
  have hafter : (h.after .samplerInitGreedy greedy).after (.samplerChainAdd sampler greedy) ()
      = { h with chain := some (sampler, true) } := by
    simp only [Held.after, ← hgreedy]
  rw [hafter, Calling.wp_bind, Calling.wp_handle]
  have hgenerating : Generating { h with chain := some (sampler, true) } vocab sampler c :=
    ⟨hvocab, hcontext, rfl⟩
  apply Calling.wp_mono (evaluate_spec hgenerating hevaluated hbatch htokens hfits)
  rintro x t ⟨⟨c', rfl, hhandle⟩, hresult⟩
  -- The frees are the same behind a result and behind an exception.
  cases x with
  | error what =>
      rw [Calling.handled_error, wp_ask_bind]
      refine ⟨⟨⟨true, rfl⟩, hgreedy⟩, ?_⟩
      rintro ⟨⟩
      rw [wp_ask_bind]
      refine ⟨⟨⟨c', rfl, hhandle⟩, rfl⟩, ?_⟩
      rintro ⟨⟩
      exact ⟨rfl, hresult⟩
  | ok result =>
      rw [Calling.handled_ok, Calling.followed_ok, wp_ask_bind]
      refine ⟨⟨⟨true, rfl⟩, hgreedy⟩, ?_⟩
      rintro ⟨⟩
      rw [wp_ask_bind]
      refine ⟨⟨⟨c', rfl, hhandle⟩, rfl⟩, ?_⟩
      rintro ⟨⟩
      exact ⟨rfl, hresult⟩

/-- The generation keeps the discipline, gives back what it allocates on every path, and its results
are within the limit. -/
theorem generate_spec
    {options : Options} (hvalid : options.Valid) {h : Held} {model vocab : Handle}
    (hmodel : h.model = some model) (hvocab : h.vocab = some vocab) (hidle : h.Idle) (payload : Bytes) :
  (generate options model vocab payload).wp discipline
    (fun x t => t = h ∧ Sound Bounded x) h
  := by
  rw [generate, Calling.wp_bind]
  apply Calling.wp_mono (tokenize_spec hvocab payload)
  rintro tokens t ⟨ht, hlength⟩
  rw [ht]
  cases tokens with
  | error what => exact ⟨rfl, hlength⟩
  | ok tokens =>
      rw [Calling.followed_ok]
      split_ifs with hsize
      · exact ⟨rfl, sound_of_text (by simp [exceptionTexts])⟩
      · obtain ⟨hpositive, hle, hroom⟩ :=
          contextParams_spec hvalid hlength (Nat.le_of_not_lt hsize)
        rw [wp_ask_bind]
        refine ⟨⟨hmodel, hidle.1, hpositive, hle⟩, ?_⟩
        intro created
        cases created with
        | none =>
            refine ⟨?_, sound_of_text (by simp [exceptionTexts])⟩
            simp only [Held.after, Option.map_none, ← hidle.1]
        | some context =>
            simp only
            rw [wp_ask_bind]
            refine ⟨hidle.2.1, ?_⟩
            intro chain
            cases chain with
            | none =>
                simp only
                rw [wp_ask_bind]
                refine ⟨⟨⟨_, rfl, rfl⟩, rfl⟩, ?_⟩
                rintro ⟨⟩
                refine ⟨?_, sound_of_text (by simp [exceptionTexts])⟩
                simp only [Held.after, Option.map_none, ← hidle.1, ← hidle.2.1]
            | some sampler =>
                have hfits : tokens.length + options.nPredict.toNatClampNeg
                    < options.contextSize.toNat := by omega
                have hbatch : 1 ≤ (contextParams options tokens).nBatch.toNat :=
                  UInt32.lt_iff_toNat_lt.mp hpositive
                let c : Context := ⟨context, contextParams options tokens, 0, false⟩
                have hspec := evaluateAndFree_spec
                  (h := { h with context := some c, chain := some (sampler, false) }) (c := c) hvocab
                  rfl rfl rfl hidle.2.2 hbatch hroom hfits
                apply Calling.wp_mono hspec
                rintro x _ ⟨rfl, hresult⟩
                refine ⟨?_, hresult⟩
                simp only [← hidle.1, ← hidle.2.1]

end LlamaWorker

end Kernel
