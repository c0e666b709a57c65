import Mathlib.Order.Basic
import Mathlib.Tactic.Use

/-!
# Programs that call what they do not contain

A `Calling C R ε α` calls functions from an interface `C` with replies `R`, and then returns a value
or raises an exception.  A `World` says in which of its states the calls are allowed, and which
replies they may get there.  The program is `Safe` in a state when none of its runs from this state
makes a call that is not allowed, and `Ends` is how its runs end.

The weakest precondition `wp` speaks about both, and it is computed along the program.
-/

/-- A program over an interface: it returns, raises, or makes a call and goes on with the reply. -/
inductive Calling (C : Type) (R : C → Type) (ε α : Type) where
  | pure (a : α)
  | raise (e : ε)
  | call (c : C) (rest : R c → Calling C R ε α)

namespace Calling

variable {C : Type} {R : C → Type} {ε ε' α β : Type}

def bind : Calling C R ε α → (α → Calling C R ε β) → Calling C R ε β
  | .pure a, f => f a
  | .raise e, _ => .raise e
  | .call c rest, f => .call c fun r => (rest r).bind f

instance : Monad (Calling C R ε) where
  pure := .pure
  bind := .bind

/-- One call, with its reply as the value. -/
def ask (c : C) : Calling C R ε (R c) := .call c .pure

/-- The program with a handler of its exceptions. -/
def handle : Calling C R ε α → (ε → Calling C R ε' α) → Calling C R ε' α
  | .pure a, _ => .pure a
  | .raise e, f => f e
  | .call c rest, f => .call c fun r => (rest r).handle f

/-! ### Worlds -/

/-- The calls that are allowed in a state, and the replies that they may get. -/
structure World (σ C : Type) (R : C → Type) where
  allows : σ → C → Prop
  step : σ → (c : C) → R c → σ → Prop

variable {σ : Type} (w : World σ C R)

/-- Every call is allowed, whatever the replies are. -/
def Safe : Calling C R ε α → σ → Prop
  | .pure _, _ => True
  | .raise _, _ => True
  | .call c rest, s => w.allows s c ∧ ∀ r t, w.step s c r t → (rest r).Safe t

/-- A run ends with a value or an exception, in a state. -/
def Ends : Calling C R ε α → σ → Except ε α → σ → Prop
  | .pure a, s, x, s' => x = .ok a ∧ s' = s
  | .raise e, s, x, s' => x = .error e ∧ s' = s
  | .call c rest, s, x, s' => ∃ r t, w.step s c r t ∧ (rest r).Ends t x s'

/-- Every call is allowed, and the runs end with a property. -/
def wp : Calling C R ε α → (Except ε α → σ → Prop) → σ → Prop
  | .pure a, Q, s => Q (.ok a) s
  | .raise e, Q, s => Q (.error e) s
  | .call c rest, Q, s => w.allows s c ∧ ∀ r t, w.step s c r t → (rest r).wp Q t

variable {w}

theorem wp_iff {p : Calling C R ε α} {Q : Except ε α → σ → Prop} {s : σ} :
  p.wp w Q s ↔ p.Safe w s ∧ ∀ x s', p.Ends w s x s' → Q x s'
  := by
  induction p generalizing s with
  | pure a =>
      simp only [wp, Safe, Ends, true_and]
      constructor
      · rintro h _ _ ⟨rfl, rfl⟩
        exact h
      · intro h
        exact h _ _ ⟨rfl, rfl⟩
  | raise e =>
      simp only [wp, Safe, Ends, true_and]
      constructor
      · rintro h _ _ ⟨rfl, rfl⟩
        exact h
      · intro h
        exact h _ _ ⟨rfl, rfl⟩
  | call c rest ih =>
      simp only [wp, Safe, Ends]
      constructor
      · rintro ⟨hallows, hrest⟩
        refine ⟨⟨hallows, fun r t ht => ((ih r).mp (hrest r t ht)).1⟩, ?_⟩
        rintro x s' ⟨r, t, ht, hends⟩
        exact ((ih r).mp (hrest r t ht)).2 x s' hends
      · rintro ⟨⟨hallows, hsafe⟩, hends⟩
        refine ⟨hallows, ?_⟩
        intro r t ht
        apply (ih r).mpr
        exact ⟨hsafe r t ht, fun x s' h => hends x s' ⟨r, t, ht, h⟩⟩

/-! ### The rules -/

theorem wp_mono
    {p : Calling C R ε α} {Q Q' : Except ε α → σ → Prop} {s : σ} (h : p.wp w Q s)
    (hmono : ∀ x s', Q x s' → Q' x s') :
  p.wp w Q' s
  := by
  rw [wp_iff] at h ⊢
  exact ⟨h.1, fun x s' hends => hmono x s' (h.2 x s' hends)⟩

@[simp]
theorem wp_pure (a : α) (Q : Except ε α → σ → Prop) (s : σ) :
  (Pure.pure a : Calling C R ε α).wp w Q s ↔ Q (.ok a) s
  := Iff.rfl

@[simp]
theorem wp_raise (e : ε) (Q : Except ε α → σ → Prop) (s : σ) :
  (raise e : Calling C R ε α).wp w Q s ↔ Q (.error e) s
  := Iff.rfl

@[simp]
theorem wp_ask (c : C) (Q : Except ε (R c) → σ → Prop) (s : σ) :
  (ask c : Calling C R ε (R c)).wp w Q s ↔ w.allows s c ∧ ∀ r t, w.step s c r t → Q (.ok r) t
  := Iff.rfl

/-- The postcondition of a program before another one. -/
def followed (w : World σ C R) (f : α → Calling C R ε β) (Q : Except ε β → σ → Prop) :
    Except ε α → σ → Prop
  | .ok a => (f a).wp w Q
  | .error e => Q (.error e)

@[simp]
theorem followed_ok (f : α → Calling C R ε β) (Q : Except ε β → σ → Prop) (a : α) :
  followed w f Q (.ok a) = (f a).wp w Q
  := rfl

@[simp]
theorem followed_error (f : α → Calling C R ε β) (Q : Except ε β → σ → Prop) (e : ε) :
  followed w f Q (.error e) = Q (.error e)
  := rfl

@[simp]
theorem wp_bind (p : Calling C R ε α) (f : α → Calling C R ε β) (Q : Except ε β → σ → Prop) (s : σ) :
  (p >>= f).wp w Q s ↔ p.wp w (followed w f Q) s
  := by
  induction p generalizing s with
  | pure a => exact Iff.rfl
  | raise e => exact Iff.rfl
  | call c rest ih =>
      apply and_congr_right
      intro _
      exact forall₃_congr fun r t _ => ih r t

/-- The world of a state that the replies change, whatever they are. -/
def World.ofReplies (allows : σ → C → Prop) (after : σ → (c : C) → R c → σ) : World σ C R where
  allows := allows
  step s c r t := t = after s c r

theorem wp_ask_bind
    {allows : σ → C → Prop} {after : σ → (c : C) → R c → σ} (c : C) (f : R c → Calling C R ε β)
    (Q : Except ε β → σ → Prop) (s : σ) :
  (ask c >>= f).wp (.ofReplies allows after) Q s
    ↔ allows s c ∧ ∀ r, (f r).wp (.ofReplies allows after) Q (after s c r)
  := by
  rw [wp_bind, wp_ask]
  apply and_congr_right
  intro _
  simp [World.ofReplies]

/-- The postcondition of a program with a handler. -/
def handled (w : World σ C R) (f : ε → Calling C R ε' α) (Q : Except ε' α → σ → Prop) :
    Except ε α → σ → Prop
  | .ok a => Q (.ok a)
  | .error e => (f e).wp w Q

@[simp]
theorem handled_ok (f : ε → Calling C R ε' α) (Q : Except ε' α → σ → Prop) (a : α) :
  handled w f Q (.ok a) = Q (.ok a)
  := rfl

@[simp]
theorem handled_error (f : ε → Calling C R ε' α) (Q : Except ε' α → σ → Prop) (e : ε) :
  handled w f Q (.error e) = (f e).wp w Q
  := rfl

@[simp]
theorem wp_handle
    (p : Calling C R ε α) (f : ε → Calling C R ε' α) (Q : Except ε' α → σ → Prop) (s : σ) :
  (p.handle f).wp w Q s ↔ p.wp w (handled w f Q) s
  := by
  induction p generalizing s with
  | pure a => exact Iff.rfl
  | raise e => exact Iff.rfl
  | call c rest ih =>
      apply and_congr_right
      intro _
      exact forall₃_congr fun r t _ => ih r t

/-! ### Two interfaces -/

variable {D : Type} {S : D → Type}

/-- A program over one of two interfaces, as a program over both. -/
def inl : Calling C R ε α → Calling (C ⊕ D) (Sum.elim R S) ε α
  | .pure a => .pure a
  | .raise e => .raise e
  | .call c rest => .call (.inl c) fun r => (rest r).inl

/-- What a program promises in the world of its interface, it promises in a world of both whose calls
the states of the first one simulate. -/
theorem wp_inl
    {τ : Type} {v : World τ (C ⊕ D) (Sum.elim R S)} {K : τ → σ → Prop}
    (hallows : ∀ {t s c}, K t s → w.allows s c → v.allows t (.inl c))
    (hstep : ∀ {t s c r t'}, K t s → v.step t (.inl c) r t' → ∃ s', w.step s c r s' ∧ K t' s')
    {p : Calling C R ε α} {Q : Except ε α → σ → Prop} {t : τ} {s : σ} (hk : K t s) (h : p.wp w Q s) :
  (p.inl : Calling (C ⊕ D) (Sum.elim R S) ε α).wp v (fun x t' => ∃ s', K t' s' ∧ Q x s') t
  := by
  induction p generalizing t s with
  | pure a => exact ⟨s, hk, h⟩
  | raise e => exact ⟨s, hk, h⟩
  | call c rest ih =>
      refine ⟨hallows hk h.1, ?_⟩
      intro r t' ht'
      obtain ⟨s', hs', hk'⟩ := hstep hk ht'
      exact ih r hk' (h.2 r s' hs')

/-! ### Libraries that can be run -/

variable {τ υ : Type}

/-- The run of a program with a library that replies to its calls.  It ends early at a call that does
not return. -/
def eval (reply : τ → (c : C) → Option (R c) × τ) :
    Calling C R ε α → τ → Option (Except ε α) × τ
  | .pure a, t => (some (.ok a), t)
  | .raise e, t => (some (.error e), t)
  | .call c rest, t =>
      match reply t c with
      | (some r, t') => (rest r).eval reply t'
      | (none, t') => (none, t')

variable {reply : τ → (c : C) → Option (R c) × τ}

theorem eval_bind (p : Calling C R ε α) (f : α → Calling C R ε β) (t : τ) :
  (p >>= f).eval reply t = match p.eval reply t with
    | (some (.ok a), t') => (f a).eval reply t'
    | (some (.error e), t') => (some (.error e), t')
    | (none, t') => (none, t')
  := by
  induction p generalizing t with
  | pure a => rfl
  | raise e => rfl
  | call c rest ih =>
      have hbind : (Calling.call c rest >>= f) = .call c fun r => rest r >>= f := rfl
      rw [hbind, eval, eval]
      match reply t c with
      | (some r, t') => exact ih r t'
      | (none, t') => rfl

theorem eval_handle (p : Calling C R ε α) (f : ε → Calling C R ε' α) (t : τ) :
  (p.handle f).eval reply t = match p.eval reply t with
    | (some (.ok a), t') => (some (.ok a), t')
    | (some (.error e), t') => (f e).eval reply t'
    | (none, t') => (none, t')
  := by
  induction p generalizing t with
  | pure a => rfl
  | raise e => rfl
  | call c rest ih =>
      rw [handle, eval, eval]
      match reply t c with
      | (some r, t') => exact ih r t'
      | (none, t') => rfl

/-- The run of a program with a library whose calls all return. -/
def run (reply : τ → (c : C) → R c × τ) : Calling C R ε α → τ → Except ε α × τ
  | .pure a, t => (.ok a, t)
  | .raise e, t => (.error e, t)
  | .call c rest, t => (rest (reply t c).1).run reply (reply t c).2

/-- A library whose calls all return. -/
def returning (reply : τ → (c : C) → R c × τ) (t : τ) (c : C) : Option (R c) × τ :=
  (some (reply t c).1, (reply t c).2)

theorem eval_returning (reply : τ → (c : C) → R c × τ) (p : Calling C R ε α) (t : τ) :
  p.eval (returning reply) t = (some (p.run reply t).1, (p.run reply t).2)
  := by
  induction p generalizing t with
  | pure a => rfl
  | raise e => rfl
  | call c rest ih => exact ih _ _

/-- Two libraries side by side. -/
def beside (reply : τ → (c : C) → Option (R c) × τ) (reply' : υ → (d : D) → Option (S d) × υ) :
    τ × υ → (c : C ⊕ D) → Option (Sum.elim R S c) × (τ × υ)
  | (t, u), .inl c => ((reply t c).1, ((reply t c).2, u))
  | (t, u), .inr d => ((reply' u d).1, (t, (reply' u d).2))

theorem eval_inl
    {reply' : υ → (d : D) → Option (S d) × υ} (p : Calling C R ε α) (t : τ) (u : υ) :
  (p.inl : Calling (C ⊕ D) (Sum.elim R S) ε α).eval (beside reply reply') (t, u)
    = ((p.eval reply t).1, ((p.eval reply t).2, u))
  := by
  induction p generalizing t with
  | pure a => rfl
  | raise e => rfl
  | call c rest ih =>
      rw [inl, eval, eval, beside]
      match reply t c with
      | (some r, t') => exact ih r t'
      | (none, t') => rfl

/-- The runs with a library whose replies a world may give are runs in this world. -/
theorem ends_of_eval
    {K : τ → σ → Prop}
    (hreply : ∀ {t s c r t'}, K t s → reply t c = (some r, t') → ∃ s', w.step s c r s' ∧ K t' s')
    {p : Calling C R ε α} {t t' : τ} {s : σ} {x : Except ε α} (hk : K t s)
    (h : p.eval reply t = (some x, t')) :
  ∃ s', p.Ends w s x s' ∧ K t' s'
  := by
  induction p generalizing t s with
  | pure a =>
      cases h
      exact ⟨s, ⟨rfl, rfl⟩, hk⟩
  | raise e =>
      cases h
      exact ⟨s, ⟨rfl, rfl⟩, hk⟩
  | call c rest ih =>
      rw [eval] at h
      split at h
      next r u hr =>
        obtain ⟨v, hstep, hv⟩ := hreply hk hr
        obtain ⟨s', hends, hs'⟩ := ih r hv h
        exact ⟨s', ⟨r, v, hstep, hends⟩, hs'⟩
      next => cases h

end Calling
