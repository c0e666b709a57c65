import Mathlib.Order.Basic
import Mathlib.Tactic.Use

/-!
# State machines

A `Machine σ ε` has initial states of type `σ` and executable steps on events of type `ε`; a
step may refuse an event.  A property that holds initially and that steps keep holds in every
reachable state; a property that steps keep holds along every run.  A run is `Within` a
guard when each of its steps meets the guard.
-/

/-- A state machine with executable steps. -/
structure Machine (σ ε : Type) where
  init : σ → Prop
  step : σ → ε → Option σ

namespace Machine

variable {σ ε : Type} (m : Machine σ ε)

/-- The state after a list of events, when none of them is refused. -/
def run (s : σ) : List ε → Option σ
  | [] => some s
  | e :: es => (m.step s e).bind fun s' => run s' es

/-- Every step of a run meets the guard. -/
def Within (guard : σ → ε → Prop) (s : σ) : List ε → Prop
  | [] => True
  | e :: es => guard s e ∧ ∀ s', m.step s e = some s' → Within guard s' es

/-- The state after a list of events, when none of them is refused and each meets the guard. -/
def runWithin (guard : σ → ε → Bool) (s : σ) : List ε → Option σ
  | [] => some s
  | e :: es => if guard s e then (m.step s e).bind fun s' => runWithin guard s' es else none

/-- How many steps of a run meet a condition. -/
def countSteps (counted : σ → ε → Bool) (s : σ) : List ε → Nat
  | [] => 0
  | e :: es => (counted s e).toNat + (m.step s e).elim 0 fun s' => countSteps counted s' es

/-- A state that some run from an initial state ends in. -/
def Reachable (s : σ) : Prop := ∃ s₀ es, m.init s₀ ∧ m.run s₀ es = some s

variable {m}

theorem run_cons {s s' : σ} {e : ε} {es : List ε} (h : m.run s (e :: es) = some s') :
  ∃ t, m.step s e = some t ∧ m.run t es = some s'
  := by
  rw [run, Option.bind_eq_some_iff] at h
  exact h

theorem run_of_step {s t : σ} {e : ε} (h : m.step s e = some t) (es : List ε) :
  m.run s (e :: es) = m.run t es
  := by
  rw [run, h, Option.bind_some]

/-- What the steps within a guard keep, the runs within the guard keep. -/
theorem Within.preserves
    {guard : σ → ε → Prop} {P : σ → Prop}
    (hstep : ∀ {s e s'}, P s → guard s e → m.step s e = some s' → P s')
    {es : List ε} {s s' : σ} (hguard : m.Within guard s es) (hs : P s)
    (hrun : m.run s es = some s') :
  P s'
  := by
  induction es generalizing s with
  | nil =>
      cases hrun
      exact hs
  | cons e es ih =>
      obtain ⟨t, ht, hrun⟩ := run_cons hrun
      exact ih (hguard.2 t ht) (hstep hs hguard.1 ht) hrun

theorem Within.mono
    {guard guard' : σ → ε → Prop} (hmono : ∀ s e, guard s e → guard' s e) {es : List ε} {s : σ}
    (h : m.Within guard s es) :
  m.Within guard' s es
  := by
  induction es generalizing s with
  | nil => trivial
  | cons e es ih => exact ⟨hmono s e h.1, fun s' hstep => ih (h.2 s' hstep)⟩

theorem Within.and
    {guard guard' : σ → ε → Prop} {es : List ε} {s : σ} (h : m.Within guard s es)
    (h' : m.Within guard' s es) :
  m.Within (fun s e => guard s e ∧ guard' s e) s es
  := by
  induction es generalizing s with
  | nil => trivial
  | cons e es ih =>
      exact ⟨⟨h.1, h'.1⟩, fun s' hstep => ih (h.2 s' hstep) (h'.2 s' hstep)⟩

theorem Within.append
    {guard : σ → ε → Prop} {s t : σ} {es es' : List ε} (h : m.Within guard s es)
    (hrun : m.run s es = some t) (h' : m.Within guard t es') :
  m.Within guard s (es ++ es')
  := by
  induction es generalizing s with
  | nil =>
      cases hrun
      exact h'
  | cons e es ih =>
      obtain ⟨u, hu, hrun⟩ := run_cons hrun
      refine ⟨h.1, ?_⟩
      intro s' hstep
      obtain rfl := Option.some.inj (hu.symm.trans hstep)
      exact ih (h.2 u hu) hrun

/-- What the steps keep, the runs keep. -/
theorem run_preserves
    {P : σ → Prop} (hstep : ∀ {s e s'}, P s → m.step s e = some s' → P s')
    {es : List ε} {s s' : σ} (hs : P s) (hrun : m.run s es = some s') :
  P s'
  := by
  induction es generalizing s with
  | nil =>
      cases hrun
      exact hs
  | cons e es ih =>
      obtain ⟨t, ht, hrun⟩ := run_cons hrun
      exact ih (hstep hs ht) hrun

/-- Runs from related states end in related states, or both are refused. -/
theorem run_related
    {R : σ → σ → Prop} (hstep : ∀ {s t}, R s t → ∀ e, Option.Rel R (m.step s e) (m.step t e))
    {s t : σ} (h : R s t) (es : List ε) :
  Option.Rel R (m.run s es) (m.run t es)
  := by
  induction es generalizing s t with
  | nil => exact .some h
  | cons e es ih =>
      rw [run, run]
      have hrelated := hstep h e
      generalize m.step s e = s', m.step t e = t' at hrelated
      cases hrelated with
      | none => exact .none
      | some hst => exact ih hst

/-- A rank that the counted steps lower bounds their number in a run. -/
theorem Within.countP_le
    {guard : σ → ε → Prop} {P : σ → Prop} (counted : ε → Bool) (rank : σ → Nat)
    (hstep : ∀ {s e s'}, P s → guard s e → m.step s e = some s' →
      P s' ∧ (counted e).toNat + rank s' ≤ rank s)
    {es : List ε} {s s' : σ} (hguard : m.Within guard s es) (hs : P s)
    (hrun : m.run s es = some s') :
  P s' ∧ es.countP counted + rank s' ≤ rank s
  := by
  induction es generalizing s with
  | nil =>
      cases hrun
      exact ⟨hs, by simp⟩
  | cons e es ih =>
      obtain ⟨t, ht, hrun⟩ := run_cons hrun
      obtain ⟨hpt, hrank⟩ := hstep hs hguard.1 ht
      obtain ⟨hps', hrest⟩ := ih (hguard.2 t ht) hpt hrun
      refine ⟨hps', ?_⟩
      rw [List.countP_cons]
      cases hcounted : counted e with
      | false =>
          rw [hcounted, Bool.toNat_false] at hrank
          simp only [Bool.false_eq_true, if_false]
          omega
      | true =>
          rw [hcounted, Bool.toNat_true] at hrank
          simp only [if_true]
          omega

/-- The same, for steps that are counted in the states in which they are made. -/
theorem Within.countSteps_le
    {guard : σ → ε → Prop} {P : σ → Prop} (counted : σ → ε → Bool) (rank : σ → Nat)
    (hstep : ∀ {s e s'}, P s → guard s e → m.step s e = some s' →
      P s' ∧ (counted s e).toNat + rank s' ≤ rank s)
    {es : List ε} {s s' : σ} (hguard : m.Within guard s es) (hs : P s)
    (hrun : m.run s es = some s') :
  P s' ∧ m.countSteps counted s es + rank s' ≤ rank s
  := by
  induction es generalizing s with
  | nil =>
      cases hrun
      exact ⟨hs, by simp [countSteps]⟩
  | cons e es ih =>
      obtain ⟨t, ht, hrun⟩ := run_cons hrun
      obtain ⟨hpt, hrank⟩ := hstep hs hguard.1 ht
      obtain ⟨hps', hrest⟩ := ih (hguard.2 t ht) hpt hrun
      use hps'
      rw [countSteps, ht, Option.elim_some]
      omega

/-- While a machine is not done, a step is possible that takes the rank down; so some run of such
steps gets it done. -/
theorem exists_run_of_lowers
    {P done : σ → Prop} (counted : ε → Bool) (rank : σ → Nat)
    (hstep : ∀ {s e s'}, P s → counted e = true → m.step s e = some s' → P s' ∧ rank s' < rank s)
    (henabled : ∀ {s}, P s → ¬ done s → ∃ e s', counted e = true ∧ m.step s e = some s') {s : σ}
    (hs : P s) :
  ∃ es s', m.run s es = some s' ∧ P s' ∧ done s' ∧ (∀ e ∈ es, counted e = true)
    ∧ es.length + rank s' ≤ rank s
  := by
  induction hrank : rank s using Nat.strongRecOn generalizing s with
  | ind n ih =>
      by_cases hdone : done s
      · exact ⟨[], s, rfl, hs, hdone, by simp, by simp [hrank]⟩
      · obtain ⟨e, t, hcounted, ht⟩ := henabled hs hdone
        obtain ⟨hpt, hlower⟩ := hstep hs hcounted ht
        obtain ⟨es, s', hrun, hps', hdone', hall, hlength⟩ := ih (rank t) (hrank ▸ hlower) hpt rfl
        refine ⟨e :: es, s', ?_, hps', hdone', ?_, ?_⟩
        · rw [run_of_step ht, hrun]
        · intro e' he'
          rcases List.mem_cons.mp he' with rfl | he'
          · exact hcounted
          · exact hall e' he'
        · rw [List.length_cons]
          omega

theorem within_of_runWithin
    {guard : σ → ε → Bool} {es : List ε} {s s' : σ} (h : m.runWithin guard s es = some s') :
  m.Within (fun s e => guard s e = true) s es ∧ m.run s es = some s'
  := by
  induction es generalizing s with
  | nil => exact ⟨trivial, h⟩
  | cons e es ih =>
      rw [runWithin] at h
      cases hguard : guard s e with
      | false =>
          rw [hguard, if_neg Bool.false_ne_true] at h
          cases h
      | true =>
          rw [hguard, if_pos rfl] at h
          obtain ⟨t, ht, hrest⟩ := Option.bind_eq_some_iff.mp h
          obtain ⟨hwithin, hrun⟩ := ih hrest
          constructor
          · refine ⟨hguard, ?_⟩
            intro t' ht'
            cases ht.symm.trans ht'
            exact hwithin
          · rw [run, ht, Option.bind_some, hrun]

theorem run_append {s t : σ} {es : List ε} (h : m.run s es = some t) (es' : List ε) :
  m.run s (es ++ es') = m.run t es'
  := by
  induction es generalizing s with
  | nil =>
      cases h
      rfl
  | cons e es ih =>
      obtain ⟨t', ht', hrun⟩ := run_cons h
      rw [List.cons_append, run, ht', Option.bind_some, ih hrun]

/-- The last step of a run. -/
theorem run_concat {s s' : σ} {es : List ε} {e : ε} (h : m.run s (es ++ [e]) = some s') :
  ∃ t, m.run s es = some t ∧ m.step t e = some s'
  := by
  induction es generalizing s with
  | nil =>
      obtain ⟨t, ht, hrun⟩ := run_cons h
      cases hrun
      exact ⟨s, rfl, ht⟩
  | cons e' es ih =>
      obtain ⟨t, ht, hrun⟩ := run_cons h
      obtain ⟨t', hrun', hlast⟩ := ih hrun
      use t'
      rw [run, ht, Option.bind_some]
      exact ⟨hrun', hlast⟩

theorem Reachable.step {s s' : σ} {e : ε} (h : m.Reachable s) (hstep : m.step s e = some s') :
  m.Reachable s'
  := by
  obtain ⟨s₀, es, h₀, hrun⟩ := h
  use s₀, es ++ [e], h₀
  rw [run_append hrun, run, hstep]
  rfl

/-- What holds initially and the steps from reachable states keep holds in every reachable
state. -/
theorem Reachable.invariant
    {P : σ → Prop} (hinit : ∀ {s}, m.init s → P s)
    (hstep : ∀ {s e s'}, m.Reachable s → P s → m.step s e = some s' → P s') {s : σ}
    (h : m.Reachable s) :
  P s
  := by
  obtain ⟨s₀, es, h₀, hrun⟩ := h
  have hstart : m.Reachable s₀ ∧ P s₀ := ⟨⟨s₀, [], h₀, rfl⟩, hinit h₀⟩
  refine (run_preserves (P := fun s => m.Reachable s ∧ P s) ?_ hstart hrun).2
  rintro s e s' ⟨hreach, hs⟩ hstep'
  exact ⟨hreach.step hstep', hstep hreach hs hstep'⟩

theorem Reachable.run {s s' : σ} {es : List ε} (h : m.Reachable s) (hrun : m.run s es = some s') :
  m.Reachable s'
  := by
  obtain ⟨s₀, es₀, h₀, hrun₀⟩ := h
  use s₀, es₀ ++ es, h₀
  rw [run_append hrun₀, hrun]

/-! ### Machines with a clock -/

/-- A state, and the last reading of a clock. -/
structure Clocked (σ τ : Type) where
  state : σ
  clock : τ

section

variable {τ : Type} [LE τ] [DecidableLE τ]

/-- The machine whose steps read a clock: a step that reads less than the reading before is
refused. -/
def clocked (m : Machine σ ε) (reading : σ → ε → Option τ) : Machine (Clocked σ τ) ε where
  init c := m.init c.state
  step c e :=
    match reading c.state e with
    | none => (m.step c.state e).map fun s => ⟨s, c.clock⟩
    | some now => if c.clock ≤ now then (m.step c.state e).map fun s => ⟨s, now⟩ else none

variable [Std.IsPreorder τ] {m : Machine σ ε} {reading : σ → ε → Option τ} {c c' : Clocked σ τ}
  {e : ε}

/-- A step of the machine with a clock is a step of the machine, and the clock does not go back. -/
theorem clocked_step (h : (m.clocked reading).step c e = some c') :
  m.step c.state e = some c'.state ∧ c.clock ≤ c'.clock
    ∧ ∀ now, reading c.state e = some now → c'.clock = now
  := by
  simp only [clocked] at h
  split at h
  next hreading =>
    obtain ⟨s, hstep, rfl⟩ := Option.map_eq_some_iff.mp h
    refine ⟨hstep, Std.le_refl _, ?_⟩
    intro now hnow
    rw [hreading] at hnow
    cases hnow
  next now hreading =>
    split_ifs at h with hle
    obtain ⟨s, hstep, rfl⟩ := Option.map_eq_some_iff.mp h
    refine ⟨hstep, hle, ?_⟩
    intro now' hnow
    rw [hreading] at hnow
    exact Option.some.inj hnow

theorem clocked_reachable (h : (m.clocked reading).Reachable c) :
  m.Reachable c.state
  := by
  apply h.invariant
  · intro c hinit
    exact ⟨c.state, [], hinit, rfl⟩
  · intro c e c' _ hreach hstep
    exact hreach.step (clocked_step hstep).1

end

end Machine
