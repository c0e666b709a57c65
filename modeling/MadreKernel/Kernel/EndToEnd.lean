import MadreKernel.Kernel.Delivered
import MadreKernel.Kernel.Interruption

/-!
# From the `SUBMIT` to the result

In every run of the Kernel with its workers each attempt task has the lease of a worker of the
engine that is recorded with the attempt, and the call that runs on it was made with the payload of
the `SUBMIT`.  So whatever the threads, the workers and the clients do, and however often the Kernel
restarts, a result that an attempt accepts is an answer of the program of its engine to a request
with the payload that was submitted, and so is the content of the result file.
-/

namespace Kernel

open WorkStore

namespace Composite

variable {cfg : Config} {s s' : System} {p p' : Process}

/-! ### What every run keeps -/

/-- A payload is an answer of the program of the engine that is recorded with the attempt, to a
request with the payload that was submitted. -/
def Answered (programs : WorkerLaunchSpec → WorkerProgram)
    (launches : SortedMap Bytes WorkerLaunchSpec) (s : System) (id : CString) (number : Int32)
    (payload : Bytes) : Prop :=
  ∃ (request : Frame) (engineId : Bytes) (launch : WorkerLaunchSpec) (call : Call) (answer : Frame),
    (id, request) ∈ s.history.submitted
    ∧ launches.find? engineId = some launch
    ∧ Started s.store id number engineId call.attemptStartedAtMs
    ∧ call.payload = request.payload
    ∧ programs launch (call.requestFrame engineId) answer
    ∧ answer.type = workerResult ∧ answer.payload = payload

variable {launches : SortedMap Bytes WorkerLaunchSpec} {idleTimeoutMs : Int64}
  {programs : WorkerLaunchSpec → WorkerProgram} {c c' : Composite}

theorem Answered.step
    {e : System.Event} {id : CString} {number : Int32} {payload : Bytes}
    (h : Answered programs launches s id number payload) (hreach : (Kernel.machine cfg).Reachable s)
    (hstep : s.step cfg e = some s') :
  Answered programs launches s' id number payload
  := by
  obtain ⟨request, engineId, launch, call, answer, hmem, hlaunch, hstarted, hrest⟩ := h
  exact ⟨request, engineId, launch, call, answer, submitted_mono hstep hmem, hlaunch,
    hstarted.step (reachable_step hreach hstep), hrest⟩

structure Whole (cfg : Config) (launches : SortedMap Bytes WorkerLaunchSpec)
    (programs : WorkerLaunchSpec → WorkerProgram) (c : Composite) : Prop where
  sides : c.assembly.Sides cfg launches programs
  answered : ∀ id number payload, (id, number, payload) ∈ c.assembly.system.history.accepted →
    Answered programs launches c.assembly.system id number payload

/-- A task that ends destroys its lease, and one that starts to execute calls `execute`. -/
theorem follow_whole
    {a : Assembly} {held : List Nat} (h : Whole cfg launches programs ⟨a, held⟩) {i lease : Nat}
    {t : Task} {releasedAtMs : Int64} {next : Option TaskPhase}
    (hfollow : follow cfg launches idleTimeoutMs a held i lease t releasedAtMs next = some c') :
  c'.Whole cfg launches programs
  := by
  have hmoves : ∀ {e : Runtime.Event} {a' : Assembly} {held' : List Nat},
      a.step cfg launches idleTimeoutMs (.runtime e) = some a' →
      (∀ r : Runtime, r.Obeys programs e) → Whole cfg launches programs ⟨a', held'⟩ := by
    intro e a' held' ha hobeys
    have hsides := h.sides.step (e := .runtime e) (fun r _ => hobeys r) ha
    obtain ⟨r, r', -, -, rfl⟩ := Assembly.step_runtime ha
    exact ⟨hsides, h.answered⟩
  rw [follow.eq_def] at hfollow
  split at hfollow
  · obtain ⟨a', ha, rfl⟩ := Option.map_eq_some_iff.mp hfollow
    exact hmoves ha fun _ => trivial
  · obtain ⟨a', ha, rfl⟩ := Option.map_eq_some_iff.mp hfollow
    exact hmoves ha fun _ => trivial
  · cases hfollow
    exact h

/-- The step of a task. -/
theorem moveTask_whole
    (h : c.Whole cfg launches programs) {i : Nat} {input : TaskInput} {releasedAtMs : Int64}
    (hnew : ∀ p t lease, c.task? i = some (p, t, lease) → ∀ id number payload,
      (id, number, payload) ∈ System.acceptedPayload t input →
      Answered programs launches c.assembly.system id number payload)
    (hmove : moveTask cfg launches idleTimeoutMs c i input releasedAtMs = some c') :
  c'.Whole cfg launches programs
  := by
  obtain ⟨⟨p, t, lease⟩, htask, hmove⟩ := Option.bind_eq_some_iff.mp hmove
  obtain ⟨hprocess, ht, -⟩ := task?_eq_some htask
  obtain ⟨moved, hmoved, hmove⟩ := Option.bind_eq_some_iff.mp hmove
  obtain ⟨a, ha, hmove⟩ := Option.bind_eq_some_iff.mp hmove
  refine follow_whole ⟨h.sides.step (e := .system (.task i input)) trivial ha, ?_⟩ hmove
  obtain ⟨s', runtime, hs', rfl, -⟩ := Assembly.step_system ha
  obtain ⟨-, haccepted⟩ := step_task hprocess ht hmoved hs'
  have hreach := h.sides.holds.reachable
  intro id number payload hmem
  have hold : (id, number, payload) ∈ s'.history.accepted := hmem
  rw [haccepted] at hold
  rcases List.mem_append.mp hold with hold | hnew'
  · exact (h.answered id number payload hold).step hreach hs'
  · exact (hnew p t lease htask id number payload hnew').step hreach hs'

/-- The payload that a call returns is an answer to a request with the payload that was submitted. -/
theorem Whole.returned
    (hcorrelates : ∀ launch, (programs launch).Correlates) (h : c.Whole cfg launches programs)
    (hleased : c.Leased) {p : Process} {r : Runtime} (hprocess : c.assembly.system.process = some p)
    (hruntime : c.assembly.runtime = some r) (hattempts : r.attempts < 2 ^ 64) {i j lease : Nat}
    {t : Task} (ht : p.tasks[i]? = some t) (hheld : c.held[i]? = some lease) {call : Call}
    {phase : Phase} {input : Input} {w : Worker} {payload : Bytes}
    (hlease : r.leases.get? lease = some (some j)) (hcall : r.calls lease = some (call, phase))
    (hmoves : Execute.Moves call (r.pool.worker j) phase input w (.returned (.succeeded payload))) :
  Answered programs launches c.assembly.system (bindText t.work.id) t.attemptNumber payload
  := by
  obtain ⟨hleases, hcalling⟩ := hleased.held p r hprocess hruntime
  obtain ⟨j', hlease', hstarted⟩ := hleases.refers i t lease ht hheld
  obtain rfl : j = j' := by simpa using hlease.symm.trans hlease'
  have hcalls := hcalling i t lease (by simp) ht hheld
  rw [Calls] at hcalls
  split at hcalls
  next content hphase =>
    obtain ⟨call', phase', hcall', hpayload, hstartedAt, -⟩ := hcalls
    cases hcall.symm.trans hcall'
    obtain ⟨request, hmem, hinput⟩ := h.sides.inputs.executing p t content hprocess
      (List.mem_of_getElem? ht) hphase
    have hprogrammed := h.sides.programmed r hruntime
    obtain ⟨answer, hanswer, htype, hresult⟩ :=
      hprogrammed.answer hcorrelates hattempts hlease hcall hmoves
    obtain ⟨hspecs, hsound⟩ := h.sides.holds.launches r hruntime
    have hj := hprogrammed.attributed.exclusive.constructed j
      (Handles.mem_owned_iff.mpr ⟨lease, hlease⟩)
    refine ⟨request, _, _, call, answer, hmem, ?_, ?_, hpayload.trans hinput, hanswer, htype,
      hresult⟩
    · rw [← hspecs]
      exact hsound.spec j hj
    · rw [hstartedAt]
      exact hstarted
  next =>
    rw [hcall] at hcalls
    cases hcalls

theorem moveCall_whole
    (hcorrelates : ∀ launch, (programs launch).Correlates) (h : c.Whole cfg launches programs)
    (hleased : c.Leased) (hattempts : ∀ r ∈ c.assembly.runtime, r.attempts < 2 ^ 64) {i : Nat}
    {input : Input} {releasedAtMs : Int64}
    (hobeys : ∀ r ∈ c.assembly.runtime, ∀ lease, c.held[i]? = some lease →
      r.Obeys programs (.execute lease input))
    (hmove : moveCall cfg launches idleTimeoutMs c i input releasedAtMs = some c') :
  c'.Whole cfg launches programs
  := by
  obtain ⟨⟨p, t, lease⟩, htask, hmove⟩ := Option.bind_eq_some_iff.mp hmove
  obtain ⟨hprocess, ht, hheld⟩ := task?_eq_some htask
  obtain ⟨r, hruntime, hmove⟩ := Option.bind_eq_some_iff.mp hmove
  obtain ⟨progress, hprogress, hmove⟩ := Option.bind_eq_some_iff.mp hmove
  obtain ⟨a, ha, hmove⟩ := Option.bind_eq_some_iff.mp hmove
  obtain ⟨j, call, phase, w, hlease, hcall, hstep⟩ := progress?_eq_some hprogress
  have hwhole : Whole cfg launches programs ⟨a, c.held⟩ := by
    constructor
    · apply h.sides.step (e := .runtime (.execute lease input)) _ ha
      intro r' hr'
      exact hobeys r' hr' lease hheld
    · obtain ⟨r', r₁, -, -, rfl⟩ := Assembly.step_runtime ha
      exact h.answered
  have htask' : ∀ {p' t' lease'}, Composite.task? ⟨a, c.held⟩ i = some (p', t', lease') →
      t' = t ∧ a.system = c.assembly.system := by
    intro p' t' lease' htask'
    obtain ⟨r', r₁, -, -, rfl⟩ := Assembly.step_runtime ha
    cases htask.symm.trans htask'
    exact ⟨rfl, rfl⟩
  cases progress with
  | goesOn phase' =>
      cases hmove
      exact hwhole
  | returned outcome =>
      apply moveTask_whole hwhole _ hmove
      intro p' t' lease' ht' id number payload hmem
      obtain ⟨rfl, hsystem⟩ := htask' ht'
      cases outcome with
      | succeeded payload' =>
          cases List.mem_singleton.mp hmem
          rw [hsystem]
          exact h.returned hcorrelates hleased hprocess hruntime (hattempts r hruntime) ht hheld
            hlease hcall (Execute.step_moves hstep)
      | _ => cases hmem
  | threw what =>
      apply moveTask_whole hwhole _ hmove
      intro p' t' lease' _ id number payload hmem
      cases hmem

/-- What the guard asks of a step: the ids that are drawn are new, the processes follow their
programs, the cancellation callback does not throw in the middle of a request, and the correlation
ids have not come round. -/
structure Obeys (programs : WorkerLaunchSpec → WorkerProgram) (c : Composite) (e : Event) : Prop where
  attempts : ∀ r ∈ c.assembly.runtime, r.attempts < 2 ^ 64
  fresh : ∀ input, e = .system input → c.assembly.system.DrawsFresh input
  asks : ∀ i nowMs faults releasedAtMs, e = .ask i nowMs faults releasedAtMs →
    ∀ p t lease, c.task? i = some (p, t, lease) → ∀ r ∈ c.assembly.runtime,
      r.Obeys programs (.execute lease (answers c.assembly.system p t nowMs faults))
  follows : ∀ input, e = .runtime input → ∀ r ∈ c.assembly.runtime, r.Obeys programs input

/-- Only a task in `execute` accepts a payload. -/
theorem acceptedPayload_eq_nil
    {stop : Bool} {store : Store} {files : Files} {t : Task} {input : TaskInput} {moved : TaskStep}
    (hphase : ∀ content, t.phase ≠ .executing content)
    (h : taskStep stop store files t input = some moved) :
  System.acceptedPayload t input = []
  := by
  cases input with
  | outcome outcome =>
      rw [taskStep] at h
      split at h
      next content hexecuting => exact absurd hexecuting (hphase content)
      next => cases h
  | _ => rfl

theorem Whole.step
    (hcorrelates : ∀ launch, (programs launch).Correlates) (h : c.Whole cfg launches programs)
    (hleased : c.Leased) {e : Event} (hobeys : c.Obeys programs e)
    (hstep : Steps cfg launches idleTimeoutMs c e c') :
  c'.Whole cfg launches programs
  := by
  have hreach := h.sides.holds.reachable
  cases hstep with
  | @system e a hother ha =>
      refine ⟨h.sides.step (e := .system e) (hobeys.fresh e rfl) ha, ?_⟩
      obtain ⟨s', runtime, hs', rfl, -, hlaunching⟩ := Assembly.step_system ha
      obtain ⟨haccepted, -⟩ := step_other hs' hother hlaunching
      intro id number payload hmem
      have hold : (id, number, payload) ∈ s'.history.accepted := hmem
      rw [haccepted] at hold
      exact (h.answered id number payload hold).step hreach hs'
  | @launch nowMs faults spawn a ha =>
      refine ⟨h.sides.step (e := .launch nowMs faults spawn) trivial ha, ?_⟩
      obtain ⟨engineId, r, s', hlaunching, -, hs', rfl⟩ := Assembly.step_launch ha
      obtain ⟨p, hprocess, hengine⟩ := Option.bind_eq_some_iff.mp hlaunching
      split at hengine
      next work selection number startedAtMs hphase =>
        obtain ⟨haccepted, -⟩ := step_launching hprocess hphase hs'
        intro id number' payload hmem
        have hold : (id, number', payload) ∈ s'.history.accepted := hmem
        rw [haccepted] at hold
        exact (h.answered id number' payload hold).step hreach hs'
      next => cases hengine
  | task htask hphase hmove =>
      apply moveTask_whole h _ hmove
      intro p' t' lease' htask' id number payload hmem
      cases htask.symm.trans htask'
      obtain ⟨⟨p', t', lease'⟩, htask', hmove⟩ := Option.bind_eq_some_iff.mp hmove
      cases htask.symm.trans htask'
      obtain ⟨moved, hmoved, -⟩ := Option.bind_eq_some_iff.mp hmove
      rw [acceptedPayload_eq_nil hphase hmoved] at hmem
      cases hmem
  | @ask i lease nowMs faults releasedAtMs p t _ htask hmove =>
      obtain ⟨-, -, hlease⟩ := task?_eq_some htask
      apply moveCall_whole hcorrelates h hleased hobeys.attempts _ hmove
      intro r hr lease' hlease'
      obtain rfl := Option.some.inj (hlease.symm.trans hlease')
      exact hobeys.asks i nowMs faults releasedAtMs rfl p t lease htask r hr
  | @execute i input releasedAtMs _ hinput hmove =>
      have hthrows : input.throws = false := by
        cases input with
        | answers stopping cancellation nowMs =>
            exact absurd rfl (hinput stopping cancellation nowMs)
        | _ => rfl
      apply moveCall_whole hcorrelates h hleased hobeys.attempts _ hmove
      intro r hr lease hlease call phase hcalls
      cases phase <;> simp [Runtime.throwsBetween, hthrows]
  | @runtime e a houtside ha =>
      refine ⟨h.sides.step (e := .runtime e) (hobeys.follows e rfl) ha, ?_⟩
      obtain ⟨r, r', -, -, rfl⟩ := Assembly.step_runtime ha
      exact h.answered

theorem whole_init (h : (machine cfg launches idleTimeoutMs).init c) :
  c.Whole cfg launches programs
  := by
  obtain ⟨hinit, hnone, -⟩ := h
  use Assembly.sides_init hinit hnone
  intro id number payload hmem
  rw [hinit.2.2] at hmem
  cases hmem

theorem whole_run
    (hcorrelates : ∀ launch, (programs launch).Correlates) {c₀ : Composite} {es : List Event}
    (hinit : (machine cfg launches idleTimeoutMs).init c₀)
    (hrun : (machine cfg launches idleTimeoutMs).run c₀ es = some c)
    (hguard : (machine cfg launches idleTimeoutMs).Within (Obeys programs) c₀ es) :
  c.Whole cfg launches programs
  := by
  have hstart : (machine cfg launches idleTimeoutMs).Reachable c₀ ∧ c₀.Whole cfg launches programs :=
    ⟨⟨c₀, [], hinit, rfl⟩, whole_init hinit⟩
  refine (hguard.preserves (P := fun c => (machine cfg launches idleTimeoutMs).Reachable c
    ∧ c.Whole cfg launches programs) ?_ hstart hrun).2
  rintro c e c' ⟨hreach, h⟩ hobeys hstep
  exact ⟨hreach.step hstep, h.step hcorrelates (reachable_leased hreach) hobeys (step_steps hstep)⟩

/-! ### A run -/

namespace Sample

/-- A process that has answered the first of the requests that it has read as a function says. -/
def follows (answer : WorkerLaunchSpec → Frame → Option Frame) (w : Worker) : Bool :=
  match (parseFrames w.emitted.length).run (w.stdin.take w.readCount) with
  | .done requests _ =>
      requests.map (fun request => (answer w.launch request).bind fun frame =>
        (Wire.encodeFrame frame).toOption) = w.emitted.map fun e => some e.octets
  | _ => false

theorem follows_of_follows
    {answer : WorkerLaunchSpec → Frame → Option Frame} {w : Worker} (h : follows answer w = true) :
  w.Follows fun request frame => answer w.launch request = some frame
  := by
  rw [follows] at h
  split at h
  next requests rest hrun =>
    rw [decide_eq_true_eq, ← List.forall₂_eq_eq_eq, List.forall₂_map_left_iff,
      List.forall₂_map_right_iff] at h
    refine ⟨requests, rest, hrun, h.imp ?_⟩
    intro request e he
    obtain ⟨frame, hanswer, hencode⟩ := Option.bind_eq_some_iff.mp he
    refine ⟨frame, hanswer, ?_⟩
    rw [Except.toOption.eq_def] at hencode
    split at hencode
    next octets hok =>
      cases hencode
      exact hok
    next => cases hencode
  next => cases h

def obeysRuntime (answer : WorkerLaunchSpec → Frame → Option Frame) (r : Runtime) :
    Runtime.Event → Bool
  | .act i a => ((r.pool.worker i).act a).all (follows answer)
  | .execute lease input => (r.calls lease).all fun call => Runtime.throwsBetween call.2 input
  | _ => true

def obeysEvent (answer : WorkerLaunchSpec → Frame → Option Frame) (c : Composite) : Event → Bool
  | .system e => c.assembly.system.DrawsFresh e
  | .ask i nowMs faults _ =>
      (c.task? i).all fun (p, t, lease) => c.assembly.runtime.all fun r =>
        obeysRuntime answer r (.execute lease (answers c.assembly.system p t nowMs faults))
  | .runtime e => c.assembly.runtime.all fun r => obeysRuntime answer r e
  | _ => true

/-- The guard of a run with processes that answer as a function says. -/
def obeys (answer : WorkerLaunchSpec → Frame → Option Frame) (c : Composite) (e : Event) : Bool :=
  c.assembly.runtime.all (fun r => r.attempts < 2 ^ 64) && obeysEvent answer c e

variable {answer : WorkerLaunchSpec → Frame → Option Frame}

theorem obeys_of_obeysRuntime
    {r : Runtime} {e : Runtime.Event} (h : obeysRuntime answer r e = true) :
  r.Obeys (fun launch request frame => answer launch request = some frame) e
  := by
  cases e with
  | act i a =>
      intro w hw
      rw [obeysRuntime, hw, Option.all_some] at h
      exact follows_of_follows h
  | execute lease input =>
      intro c phase hcall
      rw [obeysRuntime, hcall, Option.all_some] at h
      exact h
  | _ => trivial

theorem obeys_of_obeys {e : Event} (h : obeys answer c e = true) :
  c.Obeys (fun launch request frame => answer launch request = some frame) e
  := by
  rw [obeys, Bool.and_eq_true] at h
  obtain ⟨hattempts, h⟩ := h
  constructor
  · intro r hr
    rw [hr, Option.all_some] at hattempts
    exact of_decide_eq_true hattempts
  · rintro input rfl
    exact of_decide_eq_true h
  · rintro i nowMs faults releasedAtMs rfl p t lease htask r hr
    simp only [obeysEvent, htask, Option.all_some] at h
    rw [hr, Option.all_some] at h
    exact obeys_of_obeysRuntime h
  · rintro input rfl r hr
    rw [obeysEvent, hr, Option.all_some] at h
    exact obeys_of_obeysRuntime h

/-- A `SUBMIT` is accepted and dispatched to a new worker, which reads the request and answers. -/
def asking (submit : Frame) (requestSize : Nat) (response : Bytes) : List Event :=
  ((Kernel.Sample.submitting submit).map .system
      ++ List.replicate 4 (.system (.scheduler ⟨0, [], .ok ()⟩)))
    ++ [.launch 0 [] (.started 7 8 9 0), .task 0 (.proceed 0 []) 0, .execute 0 .probe 0,
      .ask 0 0 [] 0, .execute 0 .probe 0, .execute 0 (.write (.wrote requestSize)) 0,
      .runtime (.act 0 (.read requestSize)), .runtime (.act 0 (.send response)),
      .runtime (.act 0 (.flush response.length))]

/-- The task records the success, and the result is asked for. -/
def finishing : List Event :=
  List.replicate 4 (.task 0 (.proceed 0 []) 0)
    ++ [.system (.handler (.request (Kernel.Sample.connection (Kernel.Sample.request .result)) 0 (0, 0) [])),
      .system (.handler (.proceed []))]

/-- The call of the first task, when it is about to read its response. -/
def awaiting? (c : Composite) : Option (Runtime × Nat × Nat × Call) :=
  (c.task? 0).bind fun (_, _, lease) => c.assembly.runtime.bind fun r =>
    match r.leases.get? lease, r.calls lease with
    | some (some i), some (call, .reading) => some (r, lease, i, call)
    | _, _ => none

/-- The response is in the pipe of the worker. -/
def responded (response : Bytes) (c : Composite) : Bool :=
  (awaiting? c).any fun (r, _, i, _) =>
    (r.pool.worker i).running && (r.pool.worker i).available = response
      && (r.pool.worker i).responseReader = []

/-- The task has read the response. -/
def received (cfg : Config) (launches : SortedMap Bytes WorkerLaunchSpec) (idleTimeoutMs : Int64)
    (frame : Frame) (c : Composite) : Option Composite :=
  (awaiting? c).bind fun (r, lease, i, call) =>
    let w := r.pool.worker i
    let done := Execute.finishResponse call
      { w with responseReader := [], received := w.received + w.available.length } frame
    moveTask cfg launches idleTimeoutMs
      ⟨⟨c.assembly.system, some (r.progressed lease i call done.1 (.returned done.2))⟩, c.held⟩ 0
      (.outcome done.2) 0

theorem step_received
    {response : Bytes} {frame : Frame} (hresponded : responded response c = true)
    (hparse : Wire.parseFrame.run response = .done frame [])
    (hlength : response.length < Wire.kReadBudget) :
  c.step cfg launches idleTimeoutMs (.execute 0 (.read (Source.ofBytes response)) 0)
    = received cfg launches idleTimeoutMs frame c
  := by
  obtain ⟨⟨r, lease, i, call⟩, hawaiting, hworker⟩ := (Option.any_eq_true _ _).mp hresponded
  simp only [Bool.and_eq_true, decide_eq_true_eq] at hworker
  obtain ⟨⟨hrunning, havailable⟩, hreader⟩ := hworker
  rw [received, hawaiting, Option.bind_some]
  obtain ⟨⟨p, t, lease'⟩, htask, hawaiting⟩ := Option.bind_eq_some_iff.mp hawaiting
  obtain ⟨r', hruntime, hawaiting⟩ := Option.bind_eq_some_iff.mp hawaiting
  split at hawaiting
  next i' call' hlease hcall =>
    cases hawaiting
    have hframe : Wire.takeFrame response = (.ok (some frame), []) := by
      have hspec := Wire.takeFrame_eq response
      rw [hparse] at hspec
      exact hspec
    have hbuffered : response.length ≤ Wire.kMaxBufferedFrame :=
      hlength.le.trans (by decide)
    have hturn := Worker.readTurn_all hrunning (Source.open_ofBytes response)
      (by rw [havailable, Source.content_ofBytes])
      (by rw [hreader, havailable]; simpa using hbuffered) (by rw [havailable]; exact hlength)
    rw [hreader, havailable, List.nil_append, hframe] at hturn
    obtain ⟨done, hdone⟩ : ∃ done, done = Execute.finishResponse call
        { r.pool.worker i with
          responseReader := []
          received := (r.pool.worker i).received + response.length } frame := ⟨_, rfl⟩
    have hstep : Execute.step call (r.pool.worker i) .reading (.read (Source.ofBytes response))
        = some (done.1, .returned done.2) := by
      rw [Execute.step, Execute.read, hturn, hdone]
      rfl
    have hprogress : progress? r lease (.read (Source.ofBytes response))
        = some (.returned done.2) := by
      rw [progress?, hlease, hcall]
      simp only [hstep, Option.map_some]
    have hexecute : c.assembly.step cfg launches idleTimeoutMs
        (.runtime (.execute lease (.read (Source.ofBytes response))))
        = some ⟨c.assembly.system, some (r.progressed lease i call done.1 (.returned done.2))⟩ := by
      simp only [Assembly.step, hruntime, Option.bind_some, Runtime.step, Runtime.execute, hlease,
        hcall, hstep, Option.map_some]
    simp only [step, moveCall, htask, hruntime, Option.bind_some, hprogress, hexecute, havailable,
      ← hdone]
  next => cases hawaiting

/-- A run in which the worker has answered a `SUBMIT` with a response, and the result is handed
out. -/
def completes (answer : WorkerLaunchSpec → Frame → Option Frame) (cfg : Config)
    (launches : SortedMap Bytes WorkerLaunchSpec) (idleTimeoutMs : Int64) (submit : Frame)
    (requestSize : Nat) (response : Bytes) (frame : Frame) (P : Composite → Bool) : Bool :=
  ((machine cfg launches idleTimeoutMs).runWithin (obeys answer) ⟨⟨Kernel.Sample.start, none⟩, []⟩
      (asking submit requestSize response)).any fun c =>
    responded response c
      && obeys answer c (.execute 0 (.read (Source.ofBytes response)) 0)
      && (received cfg launches idleTimeoutMs frame c).any fun c =>
        ((machine cfg launches idleTimeoutMs).runWithin (obeys answer) c finishing).any P

theorem exists_run_of_completes
    {submit frame : Frame} {requestSize : Nat} {response : Bytes} {P : Composite → Bool}
    (h : completes answer cfg launches idleTimeoutMs submit requestSize response frame P = true)
    (hparse : Wire.parseFrame.run response = .done frame [])
    (hlength : response.length < Wire.kReadBudget) :
  ∃ c₀ c es, (machine cfg launches idleTimeoutMs).init c₀
    ∧ (machine cfg launches idleTimeoutMs).run c₀ es = some c
    ∧ (machine cfg launches idleTimeoutMs).Within
        (Obeys fun launch request frame => answer launch request = some frame) c₀ es
    ∧ P c = true
  := by
  obtain ⟨c₁, hrun₁, h⟩ := (Option.any_eq_true _ _).mp h
  simp only [Bool.and_eq_true] at h
  obtain ⟨⟨hresponded, hobeys⟩, h⟩ := h
  obtain ⟨c₂, hreceived, h⟩ := (Option.any_eq_true _ _).mp h
  obtain ⟨c, hrun₂, hP⟩ := (Option.any_eq_true _ _).mp h
  obtain ⟨hguard₁, hrun₁⟩ := Machine.within_of_runWithin hrun₁
  obtain ⟨hguard₂, hrun₂⟩ := Machine.within_of_runWithin hrun₂
  have hstep := (step_received hresponded hparse hlength).trans hreceived
  have hreads : (machine cfg launches idleTimeoutMs).Within (fun c e => obeys answer c e = true) c₁
      (.execute 0 (.read (Source.ofBytes response)) 0 :: finishing) := by
    constructor
    · exact hobeys
    · intro c' hc'
      cases hstep.symm.trans hc'
      exact hguard₂
  have hguard := hguard₁.append hrun₁ hreads
  refine ⟨_, c, _, ⟨⟨rfl, rfl, rfl⟩, rfl, rfl⟩, ?_, hguard.mono fun _ _ h => obeys_of_obeys h, hP⟩
  rw [Machine.run_append hrun₁]
  exact (Machine.run_of_step hstep _).trans hrun₂

/-- The result of the request for it is handed out. -/
def handsOut (c : Composite) : Bool :=
  c.assembly.system.history.replies.any fun r =>
    r.1 = Kernel.Sample.request .result && r.2.type = MessageType.resultResponse.code
      && metadataValue r.2 "available" = .ok (Bytes.ofString "true")

theorem exists_reply (h : handsOut c = true) :
  ∃ reply, (Kernel.Sample.request .result, reply) ∈ c.assembly.system.history.replies
    ∧ HandsOut reply
  := by
  obtain ⟨⟨request, reply⟩, hmem, h⟩ := List.any_eq_true.mp h
  simp only [Bool.and_eq_true, decide_eq_true_eq] at h
  obtain ⟨⟨rfl, htype⟩, havailable⟩ := h
  exact ⟨reply, hmem, htype, havailable⟩

/-- Every result is one octet. -/
def five (_ : WorkerLaunchSpec) (request : Frame) : Option Frame :=
  some (Runtime.Sample.result request)

end Sample

/-! ### The result of a submission -/

/-- A result that is handed out is an answer of the program of an engine to a request with the
payload of the one `SUBMIT` that made the Work, and so is the content of the result file of a Work
that has succeeded and is not acknowledged. -/
theorem submission_to_result
    (hcorrelates : ∀ launch, (programs launch).Correlates) {c₀ : Composite} {es : List Event}
    (hinit : (machine cfg launches idleTimeoutMs).init c₀)
    (hrun : (machine cfg launches idleTimeoutMs).run c₀ es = some c)
    (hguard : (machine cfg launches idleTimeoutMs).Within (Obeys programs) c₀ es) :
  (∀ request reply, (request, reply) ∈ c.assembly.system.history.replies → HandsOut reply →
    ∃ id number, metadataValue request "work_id" = .ok id
      ∧ Answered programs launches c.assembly.system (bindText id) number reply.payload)
  ∧ (∀ id w, c.assembly.system.store.row? id = some w → w.state = .succeeded →
    w.acknowledged = false →
    ∃ payload, cfg.Stored c.assembly.system.files id payload
      ∧ Answered programs launches c.assembly.system id w.attemptCount payload)
  ∧ ∀ id submitted submitted', (id, submitted) ∈ c.assembly.system.history.submitted →
    (id, submitted') ∈ c.assembly.system.history.submitted → submitted = submitted'
  := by
  have hwhole := whole_run hcorrelates hinit hrun hguard
  have hreach := hwhole.sides.holds.reachable
  refine ⟨?_, ?_, hwhole.sides.inputs.unique⟩
  · intro request reply hmem hout
    obtain ⟨id, number, hid, haccepted⟩ := reachable_handedOut hreach request reply hmem hout
    exact ⟨id, number, hid, hwhole.answered _ _ _ haccepted⟩
  · intro id w hrow hstate hfalse
    obtain ⟨payload, hstored, haccepted⟩ := (reachable_durable hreach).rows id w hrow hstate hfalse
    exact ⟨payload, hstored, hwhole.answered _ _ _ haccepted⟩

theorem submission_to_result_five :
  ∃ c reply, (machine Kernel.Sample.config Sample.engineLaunches 1000).Reachable c
    ∧ (Kernel.Sample.request .result, reply) ∈ c.assembly.system.history.replies
    ∧ ∃ id number, metadataValue (Kernel.Sample.request .result) "work_id" = .ok id
      ∧ Answered (fun launch request frame => Sample.five launch request = some frame)
          Sample.engineLaunches c.assembly.system (bindText id) number reply.payload
  := by
  have hcheck : Sample.completes Sample.five Kernel.Sample.config Sample.engineLaunches 1000
      (Kernel.Sample.frame .submit Kernel.Sample.fields "in") 66 Runtime.Sample.response
      ⟨workerResult, 1, ∅, [5]⟩ Sample.handsOut = true := by
    decide +kernel
  obtain ⟨c₀, c, es, hinit, hrun, hguard, hout⟩ :=
    Sample.exists_run_of_completes hcheck (by decide +kernel) (by decide)
  obtain ⟨reply, hmem, hreply⟩ := Sample.exists_reply hout
  have hcorrelates : ∀ launch, WorkerProgram.Correlates fun request frame =>
      Sample.five launch request = some frame := by
    rintro launch request _ ⟨⟩
    rfl
  obtain ⟨hreplies, -, -⟩ := submission_to_result hcorrelates hinit hrun hguard
  exact ⟨c, reply, ⟨c₀, es, hinit, hrun⟩, hmem, hreplies _ reply hmem hreply⟩

end Composite

end Kernel
