import Mathlib.Logic.Function.Basic
import MadreKernel.Lib.Bytes
import MadreKernel.Lib.Machine

/-!
# The endpoint of the POSIX build

Any number of Kernel processes that use one endpoint path.  Each of them runs the constructor of
`LocalIpcServer::Impl` and, when a call of it fails or the Kernel stops, `cleanup`; a step of the
machine is one system call of one process, and a process may crash between any two of them.  The
lock file is never unlinked, so that all processes open the same one.  Its lock is exclusive and
belongs to the open file description of one process, which gives it up when it closes the file or
dies.

The process that has passed `flock` holds the lock until its last call.  Only such a process binds
or unlinks the path, so that the path names the socket of the process that has bound it.
-/

namespace Endpoint

/-- The path of the endpoint, which `parse_options` accepts, and the size of `sun_path`. -/
structure Site where
  endpoint : Bytes
  sunPathSize : Nat
  endpoint_nonempty : endpoint ≠ []

/-- Where the constructor or `cleanup` stands: before the call of that name. -/
inductive Point where
  /-- before `open` of the lock file -/
  | opening
  /-- before `flock` -/
  | locking
  /-- before the check of the length of the path -/
  | checking
  /-- before the removal of a stale socket -/
  | removing
  /-- before `socket` -/
  | creating
  | binding
  /-- before `chmod` -/
  | securing
  /-- before `listen` -/
  | listening
  /-- the constructor has returned -/
  | serving
  /-- `cleanup`, before it closes the socket -/
  | closingServer
  /-- `cleanup`, before it removes the endpoint -/
  | unlinking
  /-- `cleanup`, before it closes the lock file -/
  | closingLock
  deriving DecidableEq

/-- The members of `LocalIpcServer::Impl`, with whether a descriptor is open. -/
structure Impl where
  point : Point
  lockFd : Bool
  serverFd : Bool
  endpointOwned : Bool
  /-- `flock` has succeeded; no step reads it -/
  pastFlock : Bool
  deriving DecidableEq

/-- What stands at the path of the endpoint. -/
inductive Entry where
  /-- the socket that a process has bound -/
  | socket (pid : Nat)
  /-- whatever was there before the first process -/
  | other
  deriving DecidableEq

/-- The lock, the path, and the processes that are alive. -/
structure Host where
  holder : Option Nat
  entry : Option Entry
  processes : Nat → Option Impl
  /-- the number of processes that have been started -/
  started : Nat

namespace Host

/-- The process of a pid stands elsewhere. -/
def put (h : Host) (pid : Nat) (impl : Impl) : Host :=
  { h with processes := Function.update h.processes pid (some impl) }

/-- The constructor throws, and `cleanup` begins. -/
def fail (h : Host) (pid : Nat) (impl : Impl) : Host :=
  h.put pid { impl with point := .closingServer }

/-- `fs::remove` of the endpoint, whose error is dropped. -/
def remove (h : Host) (ok : Bool) : Host := if ok then { h with entry := none } else h

/-- The process is gone, and so is its lock. -/
def exit (h : Host) (pid : Nat) : Host :=
  { h with
    holder := if h.holder = some pid then none else h.holder
    processes := Function.update h.processes pid none }

/-- The next call of a process, which may fail. -/
def call (site : Site) (h : Host) (pid : Nat) (impl : Impl) (ok : Bool) : Host :=
  match impl.point with
  | .opening =>
      if ok then h.put pid { impl with point := .locking, lockFd := true } else h.fail pid impl
  | .locking =>
      if ok && h.holder = none then
        { h with holder := some pid }.put pid { impl with point := .checking, pastFlock := true }
      else h.fail pid impl
  | .checking =>
      if ok && site.endpoint.length < site.sunPathSize then
        h.put pid { impl with point := .removing }
      else h.fail pid impl
  | .removing => (h.remove ok).put pid { impl with point := .creating }
  | .creating =>
      if ok then h.put pid { impl with point := .binding, serverFd := true } else h.fail pid impl
  | .binding =>
      if ok && h.entry = none then
        { h with entry := some (.socket pid) }.put pid
          { impl with point := .securing, endpointOwned := true }
      else h.fail pid impl
  | .securing => if ok then h.put pid { impl with point := .listening } else h.fail pid impl
  | .listening => if ok then h.put pid { impl with point := .serving } else h.fail pid impl
  | .serving => h.fail pid impl
  | .closingServer => h.put pid { impl with point := .unlinking, serverFd := false }
  | .unlinking =>
      (if impl.endpointOwned && site.endpoint ≠ [] then h.remove ok else h).put pid
        { impl with point := .closingLock, endpointOwned := false }
  | .closingLock =>
      if impl.lockFd then h.exit pid else { h with processes := Function.update h.processes pid none }

end Host

/-- What happens to the processes. -/
inductive Event where
  /-- a process starts -/
  | start
  /-- a process goes on with its next call; a process that serves stops -/
  | call (pid : Nat) (ok : Bool)
  | crash (pid : Nat)

/-- The process that an event is about. -/
def Event.pid (h : Host) : Event → Nat
  | .start => h.started
  | .call pid _ | .crash pid => pid

def step (site : Site) (h : Host) : Event → Option Host
  | .start =>
      some ({ h with started := h.started + 1 }.put h.started ⟨.opening, false, false, false, false⟩)
  | .call pid ok => (h.processes pid).map fun impl => h.call site pid impl ok
  | .crash pid => (h.processes pid).map fun _ => h.exit pid

/-- Any number of processes on one endpoint path. -/
def machine (site : Site) : Machine Host Event where
  init h := h.holder = none ∧ h.processes = (fun _ => none) ∧ h.started = 0
  step := step site

/-! ### The lock and the path -/

/-- What the point of a process says about the lock and the endpoint. -/
def Impl.Sound (impl : Impl) : Prop :=
  match impl.point with
  | .opening => impl.pastFlock = false ∧ impl.endpointOwned = false
  | .locking => impl.lockFd = true ∧ impl.pastFlock = false ∧ impl.endpointOwned = false
  | .checking | .removing | .creating | .binding =>
      impl.lockFd = true ∧ impl.pastFlock = true ∧ impl.endpointOwned = false
  | .securing | .listening | .serving =>
      impl.lockFd = true ∧ impl.pastFlock = true ∧ impl.endpointOwned = true
  | .closingServer | .unlinking | .closingLock =>
      (impl.pastFlock = true → impl.lockFd = true)
        ∧ (impl.endpointOwned = true → impl.pastFlock = true)

/-- A process that has passed `flock` holds the lock, and the path names the socket of the process
that owns the endpoint. -/
structure Sound (h : Host) : Prop where
  impl : ∀ pid impl, h.processes pid = some impl → impl.Sound
  holds : ∀ pid impl, h.processes pid = some impl → impl.pastFlock = true → h.holder = some pid
  held : ∀ pid, h.holder = some pid → ∃ impl, h.processes pid = some impl ∧ impl.pastFlock = true
  names : ∀ pid impl, h.processes pid = some impl → impl.endpointOwned = true →
    h.entry = some (.socket pid)
  fresh : ∀ pid, h.started ≤ pid → h.processes pid = none

/-- What a call of a process does to the lock and the path. -/
inductive Change (h : Host) (pid : Nat) (impl : Impl) : Host → Prop where
  /-- The lock and the path are left alone. -/
  | move {impl' : Impl} (hsound : impl'.Sound) (hflock : impl'.pastFlock = impl.pastFlock)
      (howned : impl'.endpointOwned = impl.endpointOwned) : Change h pid impl (h.put pid impl')
  | lock {impl' : Impl} (hfree : h.holder = none) (hsound : impl'.Sound)
      (hflock : impl'.pastFlock = true) (howned : impl'.endpointOwned = false) :
      Change h pid impl ({ h with holder := some pid }.put pid impl')
  /-- The path is removed, or its removal fails. -/
  | remove {impl' : Impl} (ok : Bool) (hpast : impl.pastFlock = true) (hsound : impl'.Sound)
      (hflock : impl'.pastFlock = true) (howned : impl'.endpointOwned = false) :
      Change h pid impl ((h.remove ok).put pid impl')
  | bind {impl' : Impl} (hpast : impl.pastFlock = true) (hnone : h.entry = none)
      (hsound : impl'.Sound) (hflock : impl'.pastFlock = true) :
      Change h pid impl ({ h with entry := some (.socket pid) }.put pid impl')
  | gone : Change h pid impl (h.exit pid)

theorem Impl.Sound.fail {impl : Impl} (h : impl.Sound) :
  Impl.Sound { impl with point := .closingServer }
  := by
  simp only [Impl.Sound] at h ⊢
  cases hpoint : impl.point <;> simp_all

theorem fail_change {h : Host} {pid : Nat} {impl : Impl} (hsound : impl.Sound) :
  Change h pid impl (h.fail pid impl)
  := .move hsound.fail rfl rfl

theorem call_change
    {site : Site} {h : Host} (hh : Sound h) {pid : Nat} {impl : Impl}
    (hpid : h.processes pid = some impl) (ok : Bool) :
  Change h pid impl (h.call site pid impl ok)
  := by
  have hsound := hh.impl pid impl hpid
  have hfail := @fail_change h pid impl hsound
  rw [Host.call]
  cases hpoint : impl.point with
  | opening =>
      rw [Impl.Sound, hpoint] at hsound
      simp only
      split_ifs
      · exact .move ⟨rfl, hsound⟩ rfl rfl
      · exact hfail
  | locking =>
      rw [Impl.Sound, hpoint] at hsound
      simp only
      split_ifs with hfree
      · rw [Bool.and_eq_true, decide_eq_true_eq] at hfree
        exact .lock hfree.2 ⟨hsound.1, rfl, hsound.2.2⟩ rfl hsound.2.2
      · exact hfail
  | checking =>
      rw [Impl.Sound, hpoint] at hsound
      simp only
      split_ifs
      · exact .move hsound rfl rfl
      · exact hfail
  | removing =>
      rw [Impl.Sound, hpoint] at hsound
      exact .remove ok hsound.2.1 hsound hsound.2.1 hsound.2.2
  | creating =>
      rw [Impl.Sound, hpoint] at hsound
      simp only
      split_ifs
      · exact .move hsound rfl rfl
      · exact hfail
  | binding =>
      rw [Impl.Sound, hpoint] at hsound
      simp only
      split_ifs with hnone
      · rw [Bool.and_eq_true, decide_eq_true_eq] at hnone
        exact .bind hsound.2.1 hnone.2 ⟨hsound.1, hsound.2.1, rfl⟩ hsound.2.1
      · exact hfail
  | securing =>
      rw [Impl.Sound, hpoint] at hsound
      simp only
      split_ifs
      · exact .move hsound rfl rfl
      · exact hfail
  | listening =>
      rw [Impl.Sound, hpoint] at hsound
      simp only
      split_ifs
      · exact .move hsound rfl rfl
      · exact hfail
  | serving => exact hfail
  | closingServer =>
      rw [Impl.Sound, hpoint] at hsound
      exact .move hsound rfl rfl
  | unlinking =>
      rw [Impl.Sound, hpoint] at hsound
      simp only [site.endpoint_nonempty, ne_eq, not_false_eq_true, decide_true, Bool.and_true]
      split_ifs with howned
      · exact .remove ok (hsound.2 howned) ⟨hsound.1, by simp⟩ (hsound.2 howned) rfl
      · exact .move ⟨hsound.1, by simp⟩ rfl (by simpa using howned)
  | closingLock =>
      rw [Impl.Sound, hpoint] at hsound
      simp only
      split_ifs with hlock
      · exact .gone
      · -- The process has not opened the lock file, and does not hold the lock.
        have hfree : h.holder ≠ some pid := by
          intro hholder
          obtain ⟨impl', hpid', hpast⟩ := hh.held pid hholder
          cases hpid.symm.trans hpid'
          exact hlock (hsound.1 hpast)
        have hexit : h.exit pid
            = { h with processes := Function.update h.processes pid none } := by
          rw [Host.exit, if_neg hfree]
        rw [← hexit]
        exact .gone

/-- The process of a pid after a call of another one. -/
theorem update_eq_some
    {α : Type} {f : Nat → Option α} {pid q : Nat} {v : Option α} {a : α}
    (h : Function.update f pid v q = some a) :
  (q = pid ∧ v = some a) ∨ (q ≠ pid ∧ f q = some a)
  := by
  by_cases hq : q = pid
  · subst hq
    rw [Function.update_self] at h
    exact Or.inl ⟨rfl, h⟩
  · rw [Function.update_of_ne hq] at h
    exact Or.inr ⟨hq, h⟩

/-- At most one process has passed `flock`. -/
theorem Sound.unique
    {h : Host} (hh : Sound h) {p q : Nat} {impl impl' : Impl} (hp : h.processes p = some impl)
    (hq : h.processes q = some impl') (hpast : impl.pastFlock = true)
    (hpast' : impl'.pastFlock = true) :
  p = q
  := Option.some.inj ((hh.holds p impl hp hpast).symm.trans (hh.holds q impl' hq hpast'))

/-- A process that owns the endpoint has passed `flock`. -/
theorem Impl.Sound.pastFlock {impl : Impl} (h : impl.Sound) (howned : impl.endpointOwned = true) :
  impl.pastFlock = true
  := by
  simp only [Impl.Sound] at h
  cases hpoint : impl.point <;> simp_all

/-- A process goes on, comes or goes, and the lock and the path of the others stay. -/
theorem Sound.update
    {h : Host} (hh : Sound h) {pid : Nat} {process : Option Impl} {holder : Option Nat}
    {entry : Option Entry} {started : Nat} (hsound : ∀ impl ∈ process, impl.Sound)
    (hself : holder = some pid ↔ ∃ impl ∈ process, impl.pastFlock = true)
    (hothers : ∀ q, q ≠ pid → (holder = some q ↔ h.holder = some q))
    (hnames : ∀ impl ∈ process, impl.endpointOwned = true → entry = some (.socket pid))
    (hentry : entry = h.entry ∨ h.holder = some pid) (hstarted : h.started ≤ started)
    (hpid : ∀ impl ∈ process, pid < started) :
  Sound ⟨holder, entry, Function.update h.processes pid process, started⟩
  := by
  constructor
  · intro q impl hq
    rcases update_eq_some hq with ⟨rfl, hsome⟩ | ⟨-, hold⟩
    · exact hsound impl hsome
    · exact hh.impl q impl hold
  · intro q impl hq hpast
    rcases update_eq_some hq with ⟨rfl, hsome⟩ | ⟨hne, hold⟩
    · exact hself.mpr ⟨impl, hsome, hpast⟩
    · exact (hothers q hne).mpr (hh.holds q impl hold hpast)
  · intro q hholder
    by_cases hq : q = pid
    · subst hq
      obtain ⟨impl, hsome, hpast⟩ := hself.mp hholder
      exact ⟨impl, (Function.update_self _ _ _).trans hsome, hpast⟩
    · obtain ⟨impl, hold, hpast⟩ := hh.held q ((hothers q hq).mp hholder)
      exact ⟨impl, (Function.update_of_ne hq _ _).trans hold, hpast⟩
  · intro q impl hq howned
    rcases update_eq_some hq with ⟨rfl, hsome⟩ | ⟨hne, hold⟩
    · exact hnames impl hsome howned
    · have hholder := hh.holds q impl hold ((hh.impl q impl hold).pastFlock howned)
      rcases hentry with hsame | hpid'
      · exact hsame.trans (hh.names q impl hold howned)
      · exact absurd (Option.some.inj (hholder.symm.trans hpid')) hne
  · intro q hq
    have hle : started ≤ q := hq
    by_cases hne : q = pid
    · subst hne
      apply Eq.trans (Function.update_self _ _ _)
      cases hprocess : process with
      | none => rfl
      | some impl =>
          have hlt := hpid impl hprocess
          omega
    · exact (Function.update_of_ne hne _ _).trans (hh.fresh q (hstarted.trans hle))

/-- A process is gone, and the lock with it. -/
theorem Sound.exit {h : Host} (hh : Sound h) (pid : Nat) :
  Sound (h.exit pid)
  := by
  apply @Sound.update h hh pid none _ _ _ (by simp) _ _ (by simp) (Or.inl rfl) le_rfl (by simp)
  · split_ifs with heq
    · simp
    · simp [heq]
  · intro q hne
    split_ifs with heq
    · rw [heq]
      simp [hne.symm]
    · exact Iff.rfl

theorem Sound.start {h : Host} (hh : Sound h) :
  Sound ({ h with started := h.started + 1 }.put h.started ⟨.opening, false, false, false, false⟩)
  := by
  apply @Sound.update h hh h.started (some _) _ _ _ _ _ (fun _ _ => Iff.rfl) _ (Or.inl rfl)
    (Nat.le_succ _)
  · rintro impl ⟨⟩
    exact Nat.lt_succ_self _
  · rintro impl ⟨⟩
    exact ⟨rfl, rfl⟩
  · constructor
    · intro hholder
      obtain ⟨impl, hold, -⟩ := hh.held _ hholder
      rw [hh.fresh h.started le_rfl] at hold
      cases hold
    · rintro ⟨impl, ⟨⟩, hpast⟩
      cases hpast
  · rintro impl ⟨⟩ howned
    cases howned

theorem Change.sound
    {h h' : Host} (hh : Sound h) {pid : Nat} {impl : Impl} (hpid : h.processes pid = some impl)
    (hchange : Change h pid impl h') :
  Sound h'
  := by
  have hself : h.holder = some pid ↔ impl.pastFlock = true := by
    constructor
    · intro hholder
      obtain ⟨impl', hpid', hpast⟩ := hh.held pid hholder
      cases hpid.symm.trans hpid'
      exact hpast
    · exact hh.holds pid impl hpid
  have hstarted : pid < h.started := by
    by_contra hle
    rw [hh.fresh pid (Nat.le_of_not_lt hle)] at hpid
    cases hpid
  cases hchange with
  | move hsound hflock howned =>
      apply hh.update _ _ (fun _ _ => Iff.rfl) _ (Or.inl rfl) le_rfl (fun _ _ => hstarted)
      · rintro impl' ⟨⟩
        exact hsound
      · simp [hself, hflock]
      · rintro impl' ⟨⟩
        rw [howned]
        exact hh.names pid impl hpid
  | lock hfree hsound hflock howned =>
      apply hh.update _ _ _ _ (Or.inl rfl) le_rfl (fun _ _ => hstarted)
      · rintro impl' ⟨⟩
        exact hsound
      · simp [hflock]
      · intro q hne
        simp [hfree, hne.symm]
      · rintro impl' ⟨⟩
        simp [howned]
  | remove ok hpast hsound hflock howned =>
      have hremoved : h.remove ok = { h with entry := if ok then none else h.entry } := by
        cases ok <;> rfl
      rw [hremoved]
      apply hh.update _ _ (fun _ _ => Iff.rfl) _ (Or.inr (hself.mpr hpast)) le_rfl
        (fun _ _ => hstarted)
      · rintro impl' ⟨⟩
        exact hsound
      · simp [hself, hflock, hpast]
      · rintro impl' ⟨⟩
        simp [howned]
  | bind hpast hnone hsound hflock =>
      apply hh.update _ _ (fun _ _ => Iff.rfl) (fun _ _ _ => rfl) (Or.inr (hself.mpr hpast)) le_rfl
        (fun _ _ => hstarted)
      · rintro impl' ⟨⟩
        exact hsound
      · simp [hself, hflock, hpast]
  | gone => exact hh.exit pid

theorem Sound.step
    {site : Site} {h h' : Host} (hh : Sound h) {e : Event} (hstep : step site h e = some h') :
  Sound h'
  := by
  cases e with
  | start =>
      cases hstep
      exact hh.start
  | call pid ok =>
      obtain ⟨impl, hpid, rfl⟩ := Option.map_eq_some_iff.mp hstep
      exact (call_change hh hpid ok).sound hh hpid
  | crash pid =>
      obtain ⟨impl, hpid, rfl⟩ := Option.map_eq_some_iff.mp hstep
      exact hh.exit pid

theorem reachable_sound {site : Site} {h : Host} (hreach : (machine site).Reachable h) :
  Sound h
  := by
  apply hreach.invariant
  · rintro h ⟨hholder, hprocesses, -⟩
    constructor
    · intro pid impl hpid
      rw [hprocesses] at hpid
      cases hpid
    · intro pid impl hpid
      rw [hprocesses] at hpid
      cases hpid
    · intro pid hpid
      rw [hholder] at hpid
      cases hpid
    · intro pid impl hpid
      rw [hprocesses] at hpid
      cases hpid
    · intro pid _
      rw [hprocesses]
  · intro h e h' _ hh hstep
    exact hh.step hstep

/-! ### Ownership -/

/-- A call of a process that does not hold the lock leaves the path alone, and the lock to its
holder. -/
theorem Change.untouched
    {h h' : Host} (hh : Sound h) {pid : Nat} {impl : Impl} (hpid : h.processes pid = some impl)
    (hchange : Change h pid impl h') (hother : h.holder ≠ some pid) :
  h'.entry = h.entry ∧ ∀ q, h.holder = some q → h'.holder = some q
  := by
  have hpast : impl.pastFlock ≠ true := fun hpast => hother (hh.holds pid impl hpid hpast)
  cases hchange with
  | move => exact ⟨rfl, fun _ hq => hq⟩
  | lock hfree =>
      refine ⟨rfl, ?_⟩
      intro q hq
      rw [hfree] at hq
      cases hq
  | remove ok h => exact absurd h hpast
  | bind h => exact absurd h hpast
  | gone =>
      refine ⟨rfl, ?_⟩
      intro q hq
      rw [Host.exit, if_neg hother]
      exact hq

theorem Change.process_eq
    {h h' : Host} {pid q : Nat} {impl : Impl} (hchange : Change h pid impl h') (hne : q ≠ pid) :
  h'.processes q = h.processes q
  := by
  cases hchange with
  | remove ok =>
      have hprocesses : (h.remove ok).processes = h.processes := by cases ok <;> rfl
      rw [Host.put, hprocesses]
      exact Function.update_of_ne hne _ _
  | _ => exact Function.update_of_ne hne _ _

/-- What a step does to the lock, the path and the processes when its process does not hold the
lock. -/
theorem step_untouched
    {site : Site} {h h' : Host} (hh : Sound h) {e : Event} (hstep : step site h e = some h')
    (hother : h.holder ≠ some (e.pid h)) :
  h'.entry = h.entry ∧ (∀ q, h.holder = some q → h'.holder = some q)
    ∧ ∀ q, q ≠ e.pid h → h'.processes q = h.processes q
  := by
  cases e with
  | start =>
      cases hstep
      exact ⟨rfl, fun _ hq => hq, fun q hne => Function.update_of_ne hne _ _⟩
  | call pid ok =>
      obtain ⟨impl, hpid, rfl⟩ := Option.map_eq_some_iff.mp hstep
      have hchange : Change h pid impl (h.call site pid impl ok) := call_change hh hpid ok
      obtain ⟨hentry, hholder⟩ := hchange.untouched hh hpid hother
      exact ⟨hentry, hholder, fun q hne => hchange.process_eq hne⟩
  | crash pid =>
      obtain ⟨impl, hpid, rfl⟩ := Option.map_eq_some_iff.mp hstep
      have hchange : Change h pid impl (h.exit pid) := .gone
      obtain ⟨hentry, hholder⟩ := hchange.untouched hh hpid hother
      exact ⟨hentry, hholder, fun q hne => Function.update_of_ne hne _ _⟩

/-- In every reachable state of any number of processes on one endpoint path: at most one process
is past `flock`; a step that changes the path is a step of the process that holds the lock; the path
names the socket of a process that listens; and a step of another process, a failed start and its
cleanup among them, leaves the lock, the path and the descriptors of a process past `flock` as they
are. -/
theorem endpoint_ownership {site : Site} {h : Host} (hreach : (machine site).Reachable h) :
  (∀ p q impl impl', h.processes p = some impl → h.processes q = some impl' →
      impl.pastFlock = true → impl'.pastFlock = true → p = q)
    ∧ (∀ e h', step site h e = some h' → h'.entry ≠ h.entry → h.holder = some (e.pid h))
    ∧ (∀ p impl, h.processes p = some impl → impl.point = .serving →
      impl.pastFlock = true ∧ h.entry = some (.socket p))
    ∧ ∀ p impl e h', h.processes p = some impl → impl.pastFlock = true → e.pid h ≠ p →
      step site h e = some h' →
      h'.holder = some p ∧ h'.entry = h.entry ∧ h'.processes p = some impl
  := by
  have hh := reachable_sound hreach
  refine ⟨fun p q impl impl' hp hq => hh.unique hp hq, ?_, ?_, ?_⟩
  · intro e h' hstep hchanged
    by_contra hother
    exact hchanged (step_untouched hh hstep hother).1
  · intro p impl hp hserving
    have hsound := hh.impl p impl hp
    rw [Impl.Sound, hserving] at hsound
    exact ⟨hsound.2.1, hh.names p impl hp hsound.2.2⟩
  · intro p impl e h' hp hpast hne hstep
    have hholder := hh.holds p impl hp hpast
    have hother : h.holder ≠ some (e.pid h) := by
      rw [hholder]
      exact fun heq => hne (Option.some.inj heq).symm
    obtain ⟨hentry, hholder', hprocesses⟩ := step_untouched hh hstep hother
    exact ⟨hholder' p hholder, hentry, (hprocesses p hne.symm).trans hp⟩

/-- A Kernel serves on its endpoint, where a stale socket was, and a second one starts. -/
def Sample.second : List Event :=
  .start :: List.replicate 8 (.call 0 true) ++ [.start, .call 1 true]

def Sample.site : Site := ⟨Bytes.ofString "k", 108, by decide⟩

/-- The second Kernel finds the lock held. -/
theorem endpoint_ownership_second :
  ∃ h h' impl, (machine Sample.site).Reachable h ∧ h.processes 0 = some impl
    ∧ impl.point = .serving ∧ step Sample.site h (.call 1 true) = some h'
    ∧ h'.holder = some 0 ∧ h'.entry = some (.socket 0) ∧ h'.processes 0 = some impl
  := by
  have hcheck : ((machine Sample.site).run ⟨none, some .other, fun _ => none, 0⟩
      Sample.second).any (fun h => (h.processes 0).any (·.point = .serving)
        && (step Sample.site h (.call 1 true)).isSome) = true := by
    decide +kernel
  obtain ⟨h, hrun, hh⟩ := (Option.any_eq_true _ _).mp hcheck
  simp only [Bool.and_eq_true, Option.any_eq_true, decide_eq_true_eq,
    Option.isSome_iff_exists] at hh
  obtain ⟨⟨impl, hzero, hserving⟩, h', hstep⟩ := hh
  have hreach : (machine Sample.site).Reachable h := ⟨_, _, ⟨rfl, rfl, rfl⟩, hrun⟩
  obtain ⟨-, -, hnames, huntouched⟩ := endpoint_ownership hreach
  obtain ⟨hpast, hentry⟩ := hnames 0 impl hzero hserving
  obtain ⟨hholder, hentry', hzero'⟩ := huntouched 0 impl (.call 1 true) h' hzero hpast
    (by simp [Event.pid]) hstep
  exact ⟨h, h', impl, hreach, hzero, hserving, hstep, hholder, hentry'.trans hentry, hzero'⟩

end Endpoint
