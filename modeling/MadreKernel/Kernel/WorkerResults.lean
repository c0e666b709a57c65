import MadreKernel.Kernel.EndToEnd
import MadreKernel.Workers.FakeWorker
import MadreKernel.Workers.LlamaAnswers

/-!
# The results of the engines

A Kernel from its command line to the results that it hands out: whatever the threads, the clients
and the workers do, the result of a Work that a fake engine has executed is the payload of its
`SUBMIT` behind `fake:`, and the result of a Work that a configured llama.cpp worker has executed is
generated from the payload of its `SUBMIT`.
-/

namespace Kernel

open Wire WorkStore

/-- A result that is handed out belongs to an attempt of the Work in the request, and the program of
the engine that is recorded with this attempt has answered the payload of the one `SUBMIT` that made
the Work with it. -/
theorem exists_answer_of_handsOut
    {options : Options} {inventory : List EngineDescriptorFacts}
    (hbuild : buildEngineInventory options = .ok inventory)
    {programs : WorkerLaunchSpec → WorkerProgram}
    (hcorrelates : ∀ launch, (programs launch).Correlates) {c₀ c : Composite}
    {es : List Composite.Event}
    (hinit : (Composite.machine (options.config inventory) (buildWorkerLaunches options)
      options.workerIdleMs).init c₀)
    (hrun : (Composite.machine (options.config inventory) (buildWorkerLaunches options)
      options.workerIdleMs).run c₀ es = some c)
    (hguard : (Composite.machine (options.config inventory) (buildWorkerLaunches options)
      options.workerIdleMs).Within (Composite.Obeys programs) c₀ es)
    {request reply : Frame} (hreply : (request, reply) ∈ c.assembly.system.history.replies)
    (hout : HandsOut reply) :
  ∃ id submitted, metadataValue request "work_id" = .ok id
    ∧ (∀ frame, (bindText id, frame) ∈ c.assembly.system.history.submitted ↔ frame = submitted)
    ∧ ∃ engine ∈ inventory, ∃ a ∈ c.assembly.system.store.attemptsOf (bindText id),
      a.engineId = bindText engine.id
        ∧ ∃ (launch : WorkerLaunchSpec) (call : Call) (answer : Frame),
          (buildWorkerLaunches options).find? engine.id = some launch
          ∧ call.payload = submitted.payload ∧ programs launch (call.requestFrame engine.id) answer
          ∧ answer.type = workerResult ∧ answer.payload = reply.payload
  := by
  have hwhole := Composite.whole_run hcorrelates hinit hrun hguard
  obtain ⟨id, number, hid, haccepted⟩ :=
    reachable_handedOut hwhole.sides.holds.reachable request reply hreply hout
  obtain ⟨submitted, engineId, launch, call, answer, hsubmitted, hlaunch, ⟨a, ha, -, hengine, -⟩,
    hpayload, hprogram, htype, hresult⟩ := hwhole.answered _ _ _ haccepted
  obtain ⟨engine, hmem, rfl⟩ :=
    List.mem_map.mp ((exists_launch_iff hbuild engineId).mp ⟨launch, hlaunch⟩)
  refine ⟨id, submitted, hid, ?_, engine, hmem, a, ha, hengine, launch, call, answer, hlaunch,
    hpayload, hprogram, htype, hresult⟩
  intro frame
  constructor
  · intro hframe
    exact hwhole.sides.inputs.unique _ _ _ hframe hsubmitted
  · rintro rfl
    exact hsubmitted

/-! ### The fake engines -/

namespace FakeWorker

open WorkerMain

variable (isOpen : Nat → Bool) (others : WorkerLaunchSpec → WorkerProgram)

/-- The program of a process that is started from the executable of the fake worker. -/
def programOf (launch : WorkerLaunchSpec) : WorkerProgram :=
  match parseOptions launch.argv with
  | .ok worker => program (react worker isOpen)
  | .error _ => fun _ _ => False

/-- The programs of the workers of a Kernel with a fake worker. -/
def programsOf (options : Kernel.Options) (launch : WorkerLaunchSpec) : WorkerProgram :=
  if launch.executable = options.fakeWorker.toBytes then programOf isOpen launch else others launch

theorem programsOf_correlates
    (hothers : ∀ launch, (others launch).Correlates) (options : Kernel.Options)
    (launch : WorkerLaunchSpec) :
  (programsOf isOpen others options launch).Correlates
  := by
  rw [programsOf]
  split_ifs
  · rw [programOf.eq_def]
    split
    · exact program_correlates _ isOpen
    · rintro request answer ⟨⟩
  · exact hothers launch

theorem programsOf_fakeLaunch
    {arguments : List CString} {options : Kernel.Options} {engine : EngineDescriptorFacts}
    (hparse : Kernel.parseOptions arguments = .ok options)
    (hengine : engine ∈ fakeEngines options) :
  programsOf isOpen others options (fakeLaunch options engine)
    = program (react ⟨engine.id, options.fakeDelayMs⟩ isOpen)
  := by
  rw [programsOf, fakeLaunch, if_pos rfl]
  have hworker := parseOptions_fakeLaunch hparse hengine
  rw [fakeLaunch] at hworker
  rw [programOf, hworker]

end FakeWorker

/-- A result that is handed out belongs to an attempt of the Work in the request, and when a fake
engine is recorded with this attempt, it is the payload of the one `SUBMIT` that made the Work behind
the prefix of the fake worker. -/
theorem fake_results
    {arguments : List CString} {options : Options} {inventory : List EngineDescriptorFacts}
    (hparse : parseOptions arguments = .ok options)
    (hbuild : buildEngineInventory options = .ok inventory) (isOpen : Nat → Bool)
    {others : WorkerLaunchSpec → WorkerProgram} (hothers : ∀ launch, (others launch).Correlates)
    {c₀ c : Composite} {es : List Composite.Event}
    (hinit : (Composite.machine (options.config inventory) (buildWorkerLaunches options)
      options.workerIdleMs).init c₀)
    (hrun : (Composite.machine (options.config inventory) (buildWorkerLaunches options)
      options.workerIdleMs).run c₀ es = some c)
    (hguard : (Composite.machine (options.config inventory) (buildWorkerLaunches options)
      options.workerIdleMs).Within
        (Composite.Obeys (FakeWorker.programsOf isOpen others options)) c₀ es)
    {request reply : Frame} (hreply : (request, reply) ∈ c.assembly.system.history.replies)
    (hout : HandsOut reply) :
  ∃ id submitted, metadataValue request "work_id" = .ok id
    ∧ (∀ frame, (bindText id, frame) ∈ c.assembly.system.history.submitted ↔ frame = submitted)
    ∧ ∃ engine ∈ inventory, ∃ a ∈ c.assembly.system.store.attemptsOf (bindText id),
      a.engineId = bindText engine.id
        ∧ (engine ∈ fakeEngines options →
          reply.payload = FakeWorker.resultPrefix ++ submitted.payload)
  := by
  obtain ⟨id, submitted, hid, hsubmitted, engine, hmem, a, ha, hengine, launch, call, answer, hlaunch,
    hpayload, hprogram, htype, hresult⟩ := exists_answer_of_handsOut hbuild
      (FakeWorker.programsOf_correlates isOpen others hothers options) hinit hrun hguard hreply hout
  refine ⟨id, submitted, hid, hsubmitted, engine, hmem, a, ha, hengine, ?_⟩
  intro hfake
  have hentry : (engine.id, fakeLaunch options engine) ∈ launchEntries options :=
    List.mem_append_left _ (List.mem_map_of_mem hfake)
  have hfound := (find?_buildWorkerLaunches hbuild _ _).mpr hentry
  obtain rfl := Option.some.inj (hlaunch.symm.trans hfound)
  rw [FakeWorker.programsOf_fakeLaunch isOpen others hparse hfake] at hprogram
  rw [← hresult, FakeWorker.program_result hprogram htype, ← hpayload]
  rfl

namespace FakeWorker.Sample

open WorkerMain

/-- The answers of the workers of the sample Kernel. -/
def answer (launch : WorkerLaunchSpec) (request : Frame) : Option Frame :=
  if launch.executable = options.fakeWorker.toBytes then
    match parseOptions launch.argv with
    | .ok worker => (react worker (fun _ => false) () request).map Prod.snd
    | .error _ => none
  else none

theorem programsOf_answer :
  (fun launch request frame => answer launch request = some frame)
    = programsOf (fun _ => false) (fun _ _ _ => False) options
  := by
  funext launch request frame
  rw [answer, programsOf]
  split_ifs
  · rw [programOf]
    cases parseOptions launch.argv with
    | error e => simp
    | ok worker =>
        simp only [Option.map_eq_some_iff, program, eq_iff_iff]
        constructor
        · rintro ⟨⟨state, answer⟩, hreact, rfl⟩
          exact ⟨(), state, hreact⟩
        · rintro ⟨state, state', hreact⟩
          exact ⟨_, hreact, rfl⟩
  · simp

/-- A `SUBMIT` that the first fake engine executes. -/
def submit : Frame :=
  Kernel.Sample.frame .submit [("work_type", "text-generation/v1"), ("effort", "STANDARD"),
    ("urgency", "NORMAL"), ("max_attempts", "1"), ("retry_delay_ms", "0")] "in"

/-- The answer to it, and its encoding. -/
def result : Frame := ⟨workerResult, 1, ∅, Bytes.ofString "fake:in"⟩

def response : Bytes := encodeHeader workerResult 1 0 7 ++ Bytes.ofString "fake:in"

end FakeWorker.Sample

/-- A Work that the first fake engine has executed. -/
theorem fake_results_in :
  ∃ c reply, (Composite.machine (FakeWorker.Sample.options.config fakeEngineInventory)
      (buildWorkerLaunches FakeWorker.Sample.options)
      FakeWorker.Sample.options.workerIdleMs).Reachable c
    ∧ (Sample.request .result, reply) ∈ c.assembly.system.history.replies
    ∧ ∃ id submitted, metadataValue (Sample.request .result) "work_id" = .ok id
      ∧ (bindText id, submitted) ∈ c.assembly.system.history.submitted
      ∧ reply.payload = FakeWorker.resultPrefix ++ submitted.payload
  := by
  have hcheck : Composite.Sample.completes FakeWorker.Sample.answer
      (FakeWorker.Sample.options.config fakeEngineInventory)
      (buildWorkerLaunches FakeWorker.Sample.options) FakeWorker.Sample.options.workerIdleMs
      FakeWorker.Sample.submit 78 FakeWorker.Sample.response FakeWorker.Sample.result
      Composite.Sample.handsOut = true := by
    decide +kernel
  obtain ⟨c₀, c, es, hinit, hrun, hguard, hout⟩ :=
    Composite.Sample.exists_run_of_completes hcheck (by decide +kernel) (by decide +kernel)
  obtain ⟨reply, hmem, hreply⟩ := Composite.Sample.exists_reply hout
  have hparse : parseOptions (["--data-dir", "d", "--endpoint", "e", "--fake-worker",
      "f"].map literal) = .ok FakeWorker.Sample.options := rfl
  have hbuild : buildEngineInventory FakeWorker.Sample.options = .ok fakeEngineInventory := rfl
  rw [FakeWorker.Sample.programsOf_answer] at hguard
  obtain ⟨id, submitted, hid, hsubmitted, engine, hengine, -, -, -, hresult⟩ :=
    fake_results hparse hbuild (fun _ => false) (fun _ => nofun) hinit hrun hguard hmem hreply
  refine ⟨c, reply, ⟨c₀, es, hinit, hrun⟩, hmem, id, submitted, hid, (hsubmitted submitted).mpr rfl,
    hresult ?_⟩
  rw [fakeEngines, if_neg (by decide +kernel)]
  exact hengine

/-! ### A configured llama.cpp worker -/

namespace LlamaWorker

open WorkerMain Llama

/-- The program of a process that is started from the executable of the llama.cpp worker. -/
def programOf {E : Type} (lib : E → (c : Api) → c.Reply × E) (launch : WorkerLaunchSpec) :
    WorkerProgram := fun request answer =>
  ∃ worker model vocab, parseOptions launch.argv = .ok worker
    ∧ program (react lib worker model vocab) request answer

end LlamaWorker

/-- A result that is handed out belongs to an attempt of the Work in the request, and when the
configured worker is a llama.cpp worker and its engine is recorded with this attempt, the result is
within the limit and is generated from the payload of the one `SUBMIT` that made the Work. -/
theorem llama_results
    {options : Options} {inventory : List EngineDescriptorFacts}
    (hbuild : buildEngineInventory options = .ok inventory) (hconfigured : hasConfiguredWorker options)
    {E : Type} {lib : E → (c : Llama.Api) → c.Reply × E} {programs : WorkerLaunchSpec → WorkerProgram}
    (hcorrelates : ∀ launch, (programs launch).Correlates)
    (hprogram : ∀ request answer, programs (configuredLaunch options) request answer →
      LlamaWorker.programOf lib (configuredLaunch options) request answer)
    {c₀ c : Composite} {es : List Composite.Event}
    (hinit : (Composite.machine (options.config inventory) (buildWorkerLaunches options)
      options.workerIdleMs).init c₀)
    (hrun : (Composite.machine (options.config inventory) (buildWorkerLaunches options)
      options.workerIdleMs).run c₀ es = some c)
    (hguard : (Composite.machine (options.config inventory) (buildWorkerLaunches options)
      options.workerIdleMs).Within (Composite.Obeys programs) c₀ es)
    {request reply : Frame} (hreply : (request, reply) ∈ c.assembly.system.history.replies)
    (hout : HandsOut reply) :
  ∃ id submitted, metadataValue request "work_id" = .ok id
    ∧ (∀ frame, (bindText id, frame) ∈ c.assembly.system.history.submitted ↔ frame = submitted)
    ∧ ∃ engine ∈ inventory, ∃ a ∈ c.assembly.system.store.attemptsOf (bindText id),
      a.engineId = bindText engine.id
        ∧ (engine.id = options.workerEngineId.toBytes → LlamaWorker.Bounded reply.payload
          ∧ ∃ worker model vocab e e', LlamaWorker.parseOptions (configuredLaunch options).argv
              = .ok worker
            ∧ (LlamaWorker.generate worker model vocab submitted.payload).run lib e
              = (.ok reply.payload, e'))
  := by
  obtain ⟨id, submitted, hid, hsubmitted, engine, hmem, a, ha, hengine, launch, call, answer, hlaunch,
    hpayload, hanswer, htype, hresult⟩ :=
      exists_answer_of_handsOut hbuild hcorrelates hinit hrun hguard hreply hout
  refine ⟨id, submitted, hid, hsubmitted, engine, hmem, a, ha, hengine, ?_⟩
  intro hid'
  rw [hid', find?_configured hbuild hconfigured] at hlaunch
  cases hlaunch
  obtain ⟨worker, model, vocab, hworker, hreact⟩ := hprogram _ _ hanswer
  obtain ⟨hbounded, e, e', hgenerated⟩ :=
    LlamaWorker.program_result (LlamaWorker.valid_of_parseOptions hworker) hreact htype
  rw [hresult] at hbounded hgenerated
  refine ⟨hbounded, worker, model, vocab, e, e', hworker, ?_⟩
  rw [← hpayload]
  exact hgenerated

namespace LlamaWorker.Sample

open WorkerMain

/-- The options of a Kernel with a configured llama.cpp worker. -/
def kernelOptions : Kernel.Options where
  dataDir := literal "d"
  endpoint := literal "e"
  workerEngineId := literal "e"
  workerExecutable := literal "w"
  workerArguments := ["--engine-id", "e", "--model", "m"].map literal

/-- The answers of this worker, in the first state of its library. -/
def answer (launch : WorkerLaunchSpec) (request : Frame) : Option Frame :=
  match parseOptions launch.argv with
  | .ok worker => (react lib worker 1 2 0 request).map Prod.snd
  | .error _ => none

theorem programOf_of_answer
    {launch : WorkerLaunchSpec} {request frame : Frame} (h : answer launch request = some frame) :
  programOf lib launch request frame
  := by
  rw [answer] at h
  split at h
  next worker hworker =>
    obtain ⟨⟨e, _⟩, hreact, rfl⟩ := Option.map_eq_some_iff.mp h
    exact ⟨worker, 1, 2, hworker, 0, e, hreact⟩
  next => cases h

theorem programOf_correlates {E : Type} (lib : E → (c : Llama.Api) → c.Reply × E)
    (launch : WorkerLaunchSpec) :
  (programOf lib launch).Correlates
  := by
  rintro request answer ⟨worker, model, vocab, hworker, hprogram⟩
  exact program_correlates (valid_of_parseOptions hworker) model vocab request answer hprogram

/-- A `SUBMIT` that the configured engine executes. -/
def submit : Frame :=
  Kernel.Sample.frame .submit [("work_type", "text-generation/v1"), ("effort", "STANDARD"),
    ("urgency", "NORMAL"), ("max_attempts", "1"), ("retry_delay_ms", "0")] "in"

/-- The encoding of the answer. -/
def response : Bytes := encodeHeader workerResult 1 0 3 ++ Bytes.ofString "abc"

end LlamaWorker.Sample

/-- A Work that a configured llama.cpp worker has executed. -/
theorem llama_results_abc :
  ∃ inventory c reply, buildEngineInventory LlamaWorker.Sample.kernelOptions = .ok inventory
    ∧ (Composite.machine (LlamaWorker.Sample.kernelOptions.config inventory)
      (buildWorkerLaunches LlamaWorker.Sample.kernelOptions)
      LlamaWorker.Sample.kernelOptions.workerIdleMs).Reachable c
    ∧ (Sample.request .result, reply) ∈ c.assembly.system.history.replies
    ∧ ∃ id submitted, metadataValue (Sample.request .result) "work_id" = .ok id
      ∧ (bindText id, submitted) ∈ c.assembly.system.history.submitted
      ∧ ∃ worker model vocab e e', (LlamaWorker.generate worker model vocab submitted.payload).run
          LlamaWorker.Sample.lib e = (.ok reply.payload, e')
  := by
  have hbuild : buildEngineInventory LlamaWorker.Sample.kernelOptions
      = .ok [configuredEngine LlamaWorker.Sample.kernelOptions] := rfl
  have hcheck : Composite.Sample.completes LlamaWorker.Sample.answer
      (LlamaWorker.Sample.kernelOptions.config [configuredEngine LlamaWorker.Sample.kernelOptions])
      (buildWorkerLaunches LlamaWorker.Sample.kernelOptions)
      LlamaWorker.Sample.kernelOptions.workerIdleMs LlamaWorker.Sample.submit 66
      LlamaWorker.Sample.response ⟨workerResult, 1, ∅, Bytes.ofString "abc"⟩
      Composite.Sample.handsOut = true := by
    decide +kernel
  obtain ⟨c₀, c, es, hinit, hrun, hguard, hout⟩ :=
    Composite.Sample.exists_run_of_completes hcheck (by decide +kernel) (by decide +kernel)
  obtain ⟨reply, hmem, hreply⟩ := Composite.Sample.exists_reply hout
  obtain ⟨id, submitted, hid, hsubmitted, engine, hengine, -, -, -, hresult⟩ :=
    llama_results hbuild (by decide +kernel)
      (fun launch request frame h => LlamaWorker.Sample.programOf_correlates _ launch request frame
        (LlamaWorker.Sample.programOf_of_answer h))
      (fun request frame h => LlamaWorker.Sample.programOf_of_answer h) hinit hrun hguard hmem hreply
  rw [List.mem_singleton] at hengine
  obtain ⟨-, worker, model, vocab, e, e', -, hgenerated⟩ := hresult (by rw [hengine]; rfl)
  exact ⟨_, c, reply, hbuild, ⟨c₀, es, hinit, hrun⟩, hmem, id, submitted, hid,
    (hsubmitted submitted).mpr rfl, worker, model, vocab, e, e', hgenerated⟩

end Kernel
