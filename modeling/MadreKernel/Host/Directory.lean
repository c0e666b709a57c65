import Mathlib.Logic.Function.Basic
import MadreKernel.Kernel.Refinement

/-!
# Kernel processes on one data directory

Any number of Kernel processes that are given the same data directory, each with its own endpoint
and engines.  The database and the files are shared.  A process first takes the lock of
`LocalIpcServer::Impl`, then its constructor runs `recover_interrupted`, and then its threads run as
in `System`; it gives up the lock when it ends, however it ends.  The lock is exclusive per file: by
`flock` in the POSIX build, and in the Windows build by an open without sharing, which also keeps
another process from removing the file.

The lock file is the one of the data directory in the Windows build, and the one of the endpoint in
the POSIX build.  Two POSIX Kernels with different endpoints are alive on one data directory, and
the second one recovers the attempts that the first one runs.
-/

namespace Directory

open Kernel

inductive Build where
  | posix | windows
  deriving DecidableEq

/-- The last octet of a Windows path after which `operator/` puts no separator. -/
def endsPart (b : UInt8) : Bool := b = 47 || b = 92 || b = 58

/-- The lock file of `LocalIpcServer::Impl`.  The endpoint stands for the resolved path: different
endpoints have different lock files. -/
def lockPath (dataDir endpoint : Bytes) : Build → Bytes
  | .posix => endpoint ++ Bytes.ofString ".lock"
  | .windows =>
      if dataDir.getLast?.any endsPart then dataDir ++ Bytes.ofString "kernel.endpoint.lock"
      else dataDir ++ 92 :: Bytes.ofString "kernel.endpoint.lock"

/-- The endpoints that the constructor accepts: a Windows endpoint is a local named pipe.  The
constructor also refuses a POSIX endpoint that does not fit into `sun_path`; here it starts. -/
def accepts (endpoint : Bytes) : Build → Bool
  | .posix => true
  | .windows => (Bytes.ofString "\\\\.\\pipe\\").isPrefixOf endpoint

/-- A Kernel process that holds its lock; it has no threads before `recover_interrupted` has
returned. -/
structure KernelProcess where
  cfg : Config
  endpoint : Bytes
  process : Option Process

/-- The data directory, the locks, and the processes that hold one. -/
structure Site where
  store : Store
  files : Files
  history : History
  locks : Bytes → Option Nat
  processes : Nat → Option KernelProcess
  /-- the number of processes that have been started -/
  started : Nat

namespace Site

/-- The data directory as one process has it. -/
def system (d : Site) (k : KernelProcess) : System := ⟨d.store, d.files, k.process, d.history⟩

/-- The process is gone, and so is its lock. -/
def exit (d : Site) (pid : Nat) : Site :=
  { d with
    locks := fun path => if d.locks path = some pid then none else d.locks path
    processes := Function.update d.processes pid none }

/-- The step of one process: what it makes of the data directory, and what becomes of it. -/
def put (d : Site) (pid : Nat) (k : KernelProcess) (s : System) : Site :=
  let after := { d with store := s.store, files := s.files, history := s.history }
  match s.process with
  | none => after.exit pid
  | some p =>
      { after with
        processes := Function.update d.processes pid (some { k with process := some p }) }

end Site

/-- What happens on the data directory. -/
inductive Event where
  /-- a process starts and tries to take its lock -/
  | start (cfg : Config) (endpoint : Bytes)
  /-- a step of a process that holds its lock; `start` is `recover_interrupted` -/
  | kernel (pid : Nat) (e : System.Event)
  /-- a process ends -/
  | exit (pid : Nat)

def step (build : Build) (dataDir : Bytes) (d : Site) : Event → Option Site
  | .start cfg endpoint =>
      let path := lockPath dataDir endpoint build
      if cfg.dataDir ≠ dataDir then none
      else if accepts endpoint build && d.locks path = none then
        some { d with
          locks := Function.update d.locks path (some d.started)
          processes := Function.update d.processes d.started (some ⟨cfg, endpoint, none⟩)
          started := d.started + 1 }
      else some { d with started := d.started + 1 }
  | .kernel pid e =>
      (d.processes pid).bind fun k => ((d.system k).step k.cfg e).map fun s => d.put pid k s
  | .exit pid => (d.processes pid).map fun _ => d.exit pid

/-- Any number of processes on one data directory. -/
def machine (build : Build) (dataDir : Bytes) : Machine Site Event where
  init d := d.store = Store.empty ∧ d.history = ⟨[], [], []⟩ ∧ d.locks = (fun _ => none)
    ∧ d.processes = (fun _ => none) ∧ d.started = 0
  step := step build dataDir

/-- A process runs an attempt of a Work. -/
def Site.runs (d : Site) (pid : Nat) (id : CString) (number : Int32) : Bool :=
  (d.processes pid).any fun k => k.process.any fun p =>
    p.owners.any fun o => o.id = id && o.number = number

/-- The recovery of a process leaves the Works alone that other processes run, and no Work is run by
two processes. -/
structure Exclusive (build : Build) (dataDir : Bytes) (d : Site) : Prop where
  recovery : ∀ pid nowMs faults d',
    step build dataDir d (.kernel pid (.start nowMs faults)) = some d' →
    ∀ q id number, q ≠ pid → d.runs q id number = true → d'.store.view id = d.store.view id
  execution : ∀ p q id number number', d.runs p id number = true → d.runs q id number' = true →
    p = q

/-- In the POSIX build a process starts only with the endpoint of the processes that are alive. -/
def sameEndpoint (build : Build) (d : Site) : Event → Bool
  | .start _ endpoint =>
      build = .windows || (List.range d.started).all fun pid =>
        (d.processes pid).all fun k => k.endpoint = endpoint
  | _ => true

/-! ### The lock of a live process -/

/-- At most one process is alive, and it holds its lock. -/
structure Sound (build : Build) (dataDir : Bytes) (d : Site) : Prop where
  holds : ∀ pid k, d.processes pid = some k → d.locks (lockPath dataDir k.endpoint build) = some pid
  unique : ∀ p q k l, d.processes p = some k → d.processes q = some l → p = q
  fresh : ∀ pid, d.started ≤ pid → d.processes pid = none

variable {build : Build} {dataDir : Bytes} {d d' : Site}

/-- The processes after a step of one of them: the others stay, and it keeps its endpoint or is
gone. -/
theorem Sound.congr
    (h : Sound build dataDir d) {pid : Nat}
    (hothers : ∀ q, q ≠ pid → d'.processes q = d.processes q)
    (hself : ∀ k', d'.processes pid = some k' → ∃ k, d.processes pid = some k
      ∧ k'.endpoint = k.endpoint ∧ d'.locks = d.locks)
    (hlocks : ∀ q path, q ≠ pid → d.locks path = some q → d'.locks path = some q)
    (hstarted : d'.started = d.started) :
  Sound build dataDir d'
  := by
  have hback : ∀ q k', d'.processes q = some k' → ∃ k, d.processes q = some k
      ∧ k'.endpoint = k.endpoint
      ∧ d'.locks (lockPath dataDir k.endpoint build) = some q := by
    intro q k' hq
    by_cases hne : q = pid
    · subst hne
      obtain ⟨k, hk, hendpoint, hsame⟩ := hself k' hq
      exact ⟨k, hk, hendpoint, by rw [hsame]; exact h.holds q k hk⟩
    · have hk := (hothers q hne).symm.trans hq
      exact ⟨k', hk, rfl, hlocks q _ hne (h.holds q k' hk)⟩
  constructor
  · intro q k' hq
    obtain ⟨k, -, hendpoint, hlock⟩ := hback q k' hq
    rw [hendpoint]
    exact hlock
  · intro p q k l hp hq
    obtain ⟨k', hk', -⟩ := hback p k hp
    obtain ⟨l', hl', -⟩ := hback q l hq
    exact h.unique p q k' l' hk' hl'
  · intro q hq
    rw [hstarted] at hq
    by_contra hne
    obtain ⟨k', hk'⟩ := Option.ne_none_iff_exists'.mp hne
    obtain ⟨k, hk, -⟩ := hback q k' hk'
    rw [h.fresh q hq] at hk
    cases hk

theorem Sound.exit (h : Sound build dataDir d) (pid : Nat) :
  Sound build dataDir (d.exit pid)
  := by
  apply @Sound.congr _ _ _ _ h pid
  · intro q hne
    exact Function.update_of_ne hne _ _
  · intro k' hk'
    simp only [Site.exit, Function.update_self] at hk'
    cases hk'
  · intro q path hne hq
    simp only [Site.exit, hq, Option.some.injEq, hne, if_false]
  · rfl

theorem Sound.put
    (h : Sound build dataDir d) {pid : Nat} {k : KernelProcess} (hk : d.processes pid = some k)
    (s : System) :
  Sound build dataDir (d.put pid k s)
  := by
  have hafter : Sound build dataDir
      { d with store := s.store, files := s.files, history := s.history } :=
    ⟨h.holds, h.unique, h.fresh⟩
  rw [Site.put]
  cases s.process with
  | none => exact hafter.exit pid
  | some p =>
      apply @Sound.congr _ _ _ _ h pid
      · intro q hne
        exact Function.update_of_ne hne _ _
      · intro k' hk'
        simp only [Function.update_self] at hk'
        cases hk'
        exact ⟨k, hk, rfl, rfl⟩
      · intro q path _ hq
        exact hq
      · rfl

/-- A process that takes its lock within the condition is the only one. -/
theorem Sound.alone
    (h : Sound build dataDir d) {cfg : Config} {endpoint : Bytes}
    (hguard : sameEndpoint build d (.start cfg endpoint) = true)
    (hfree : d.locks (lockPath dataDir endpoint build) = none) (pid : Nat) :
  d.processes pid = none
  := by
  by_contra hne
  obtain ⟨k, hk⟩ := Option.ne_none_iff_exists'.mp hne
  have hholds := h.holds pid k hk
  have hpath : lockPath dataDir k.endpoint build = lockPath dataDir endpoint build := by
    cases build with
    | windows => rfl
    | posix =>
        have hstarted : pid < d.started := by
          by_contra hle
          rw [h.fresh pid (Nat.le_of_not_lt hle)] at hk
          cases hk
        simp only [sameEndpoint, reduceCtorEq, decide_false, Bool.false_or, List.all_eq_true,
          List.mem_range] at hguard
        have hall := hguard pid hstarted
        rw [hk] at hall
        rw [of_decide_eq_true hall]
  rw [hpath, hfree] at hholds
  cases hholds

theorem Sound.start
    (h : Sound build dataDir d) {cfg : Config} {endpoint : Bytes}
    (hguard : sameEndpoint build d (.start cfg endpoint) = true)
    (hstep : step build dataDir d (.start cfg endpoint) = some d') :
  Sound build dataDir d'
  := by
  simp only [step] at hstep
  split_ifs at hstep with hdir hfree
  · rw [Bool.and_eq_true, decide_eq_true_eq] at hfree
    cases hstep
    have halone := h.alone hguard hfree.2
    have honly : ∀ pid k, Function.update d.processes d.started (some ⟨cfg, endpoint, none⟩) pid
        = some k → pid = d.started ∧ k = ⟨cfg, endpoint, none⟩ := by
      intro pid k hk
      by_cases hpid : pid = d.started
      · subst hpid
        rw [Function.update_self] at hk
        exact ⟨rfl, (Option.some.inj hk).symm⟩
      · rw [Function.update_of_ne hpid, halone] at hk
        cases hk
    constructor
    · intro pid k hk
      obtain ⟨rfl, rfl⟩ := honly pid k hk
      exact Function.update_self _ _ _
    · intro p q k l hk hl
      rw [(honly p k hk).1, (honly q l hl).1]
    · intro pid hpid
      have hle : d.started + 1 ≤ pid := hpid
      exact (Function.update_of_ne (by omega) _ _).trans (halone pid)
  · cases hstep
    refine ⟨h.holds, h.unique, ?_⟩
    intro pid hpid
    have hle : d.started + 1 ≤ pid := hpid
    exact h.fresh pid (by omega)

theorem Sound.step
    (h : Sound build dataDir d) {e : Event} (hguard : sameEndpoint build d e = true)
    (hstep : step build dataDir d e = some d') :
  Sound build dataDir d'
  := by
  cases e with
  | start cfg endpoint => exact h.start hguard hstep
  | kernel pid e =>
      obtain ⟨k, hk, hmap⟩ := Option.bind_eq_some_iff.mp hstep
      obtain ⟨s, -, rfl⟩ := Option.map_eq_some_iff.mp hmap
      exact h.put hk s
  | exit pid =>
      obtain ⟨k, -, rfl⟩ := Option.map_eq_some_iff.mp hstep
      exact h.exit pid

theorem Sound.exclusive (h : Sound build dataDir d) :
  Exclusive build dataDir d
  := by
  constructor
  · intro pid nowMs faults d' hstep q id number hne hruns
    obtain ⟨k, hk, -⟩ := (Option.any_eq_true _ _).mp hruns
    obtain ⟨l, hl, -⟩ := Option.bind_eq_some_iff.mp hstep
    exact absurd (h.unique q pid k l hk hl) hne
  · intro p q id number number' hruns hruns'
    obtain ⟨k, hk, -⟩ := (Option.any_eq_true _ _).mp hruns
    obtain ⟨l, hl, -⟩ := (Option.any_eq_true _ _).mp hruns'
    exact h.unique p q k l hk hl

/-- In every run of any number of processes on one data directory in which, in the POSIX build, a
process starts only with the endpoint of the processes that are alive: the recovery of a process
leaves the Works alone that other processes run, and no Work is run by two processes. -/
theorem one_kernel_per_directory
    {d₀ : Site} {es : List Event} (hinit : (machine build dataDir).init d₀)
    (hsame : (machine build dataDir).Within (fun d e => sameEndpoint build d e = true) d₀ es)
    (hrun : (machine build dataDir).run d₀ es = some d) :
  Exclusive build dataDir d
  := by
  have hstart : Sound build dataDir d₀ := by
    obtain ⟨-, -, -, hprocesses, -⟩ := hinit
    constructor
    · intro pid k hk
      rw [hprocesses] at hk
      cases hk
    · intro p q k l hk
      rw [hprocesses] at hk
      cases hk
    · intro pid _
      rw [hprocesses]
  apply Sound.exclusive
  apply hsame.preserves _ hstart hrun
  intro d e d' hsound hguard hstep
  exact hsound.step hguard hstep

/-! ### Two Kernels -/

namespace Sample

def start : Site := ⟨Store.empty, fun _ => none, ⟨[], [], []⟩, fun _ => none, fun _ => none, 0⟩

def site : Machine Site Event := machine .posix Kernel.Sample.config.dataDir

def workId : CString := bindText Kernel.Sample.workId

/-- A Kernel starts, recovers nothing and dispatches a Work, and a second one is started. -/
def overlapping (endpoint endpoint' : String) : List Event :=
  .start Kernel.Sample.config (Bytes.ofString endpoint)
    :: Kernel.Sample.dispatched.map (.kernel 0)
    ++ [.start Kernel.Sample.config (Bytes.ofString endpoint')]

/-- The second Kernel recovers the Work. -/
def recovering : Event := .kernel 1 (.start 0 [])

/-- The state of a Work in the database. -/
def stateOf (d : Site) : Option WorkState := (d.store.row? workId).map (·.state)

end Sample

/-- Two Kernels are started with one endpoint, and the first one runs a Work. -/
theorem one_kernel_per_directory_second :
  ∃ d, Sample.site.run Sample.start (Sample.overlapping "a" "a") = some d
    ∧ d.started = 2 ∧ d.runs 0 Sample.workId 1 = true
    ∧ Exclusive .posix Kernel.Sample.config.dataDir d
  := by
  have hcheck : (Sample.site.runWithin (fun d e => sameEndpoint .posix d e) Sample.start
      (Sample.overlapping "a" "a")).any (fun d => d.started = 2 && d.runs 0 Sample.workId 1)
      = true := by
    decide +kernel
  obtain ⟨d, hrunWithin, hd⟩ := (Option.any_eq_true _ _).mp hcheck
  rw [Bool.and_eq_true, decide_eq_true_eq] at hd
  obtain ⟨hwithin, hrun⟩ := Machine.within_of_runWithin hrunWithin
  refine ⟨d, hrun, hd.1, hd.2, ?_⟩
  exact one_kernel_per_directory ⟨rfl, rfl, rfl, rfl, rfl⟩ hwithin hrun

/-- Two Kernels with different endpoints: the second one queues the Work again that the first one
runs, and dispatches it. -/
theorem recovered_while_running :
  (∃ d d', Sample.site.Reachable d ∧ d.runs 0 Sample.workId 1 = true
      ∧ Sample.site.step d Sample.recovering = some d'
      ∧ Sample.stateOf d = some .running ∧ Sample.stateOf d' = some .queued
      ∧ ¬Exclusive .posix Kernel.Sample.config.dataDir d)
    ∧ ∃ d, Sample.site.Reachable d ∧ d.runs 0 Sample.workId 1 = true
      ∧ d.runs 1 Sample.workId 2 = true ∧ ¬Exclusive .posix Kernel.Sample.config.dataDir d
  := by
  constructor
  · have hcheck : (Sample.site.run Sample.start (Sample.overlapping "a" "b")).any (fun d =>
        d.runs 0 Sample.workId 1 && Sample.stateOf d = some .running
          && (Sample.site.step d Sample.recovering).any
            (fun d' => Sample.stateOf d' = some .queued)) = true := by
      decide +kernel
    obtain ⟨d, hrun, hd⟩ := (Option.any_eq_true _ _).mp hcheck
    simp only [Bool.and_eq_true, decide_eq_true_eq, Option.any_eq_true] at hd
    obtain ⟨⟨hruns, hstate⟩, d', hstep, hstate'⟩ := hd
    refine ⟨d, d', ⟨_, _, ⟨rfl, rfl, rfl, rfl, rfl⟩, hrun⟩, hruns, hstep, hstate, hstate', ?_⟩
    intro hexclusive
    have hview := hexclusive.recovery 1 0 [] d' hstep 0 Sample.workId 1 (by decide) hruns
    have hrow : d'.store.row? Sample.workId = d.store.row? Sample.workId :=
      congrArg WorkView.row? hview
    rw [Sample.stateOf, hrow] at hstate'
    cases hstate.symm.trans hstate'
  · have hcheck : (Sample.site.run Sample.start (Sample.overlapping "a" "b"
        ++ Sample.recovering :: Kernel.Sample.dispatching.map (.kernel 1))).any (fun d =>
        d.runs 0 Sample.workId 1 && d.runs 1 Sample.workId 2) = true := by
      decide +kernel
    obtain ⟨d, hrun, hd⟩ := (Option.any_eq_true _ _).mp hcheck
    rw [Bool.and_eq_true] at hd
    refine ⟨d, ⟨_, _, ⟨rfl, rfl, rfl, rfl, rfl⟩, hrun⟩, hd.1, hd.2, ?_⟩
    intro hexclusive
    have hsame := hexclusive.execution 0 1 Sample.workId 1 2 hd.1 hd.2
    revert hsame
    decide

end Directory
