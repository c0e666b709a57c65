import Mathlib.Tactic.Use

/-!
# Database sessions with failing statements

A `Session σ ε α` is a program of statements over a database of type `σ`.  Any statement may
fail: a run takes the list of faults that its statements meet, in order, and a statement that
meets a fault raises it and does nothing.  A `transaction` whose body raises, or whose commit
fails, leaves the database as it was.

A run that returns has met no fault, so it is the run without faults: this is the field
`honest`.  A program is `Atomic` when a run that raises leaves the database as it was; a
transaction is atomic whatever its body is.  What every statement of a program preserves or keeps,
the program `Preserves` or `Keeps`; and a program `RaisesOnly` faults and what it raises itself.
-/

/-- A program of statements over a database. -/
structure Session (σ ε α : Type) where
  run : List (Option ε) → σ → Except ε α × σ × List (Option ε)
  honest : ∀ {faults rest s s' a}, run faults s = (.ok a, s', rest) → run [] s = (.ok a, s', [])

/-- How the body of a transaction ends. -/
inductive Ending (α : Type) where
  | commit (value : α)
  | rollback (value : α)

namespace Session

variable {σ ε α β : Type}

/-- One statement, which meets the first fault of the list. -/
def guarded (action : σ → Except ε α × σ) (faults : List (Option ε)) (s : σ) :
    Except ε α × σ × List (Option ε) :=
  match faults with
  | [] => ((action s).1, (action s).2, [])
  | none :: rest => ((action s).1, (action s).2, rest)
  | some e :: rest => (.error e, s, rest)

theorem guarded_honest {action : σ → Except ε α × σ} {faults rest : List (Option ε)} {s s' : σ}
    {a : α} (h : guarded action faults s = (.ok a, s', rest)) :
  guarded action [] s = (.ok a, s', [])
  := by
  match faults with
  | [] => simp_all [guarded]
  | none :: rest => simp_all [guarded]
  | some e :: rest => cases h

/-- A statement that reads the database. -/
def query (f : σ → α) : Session σ ε α :=
  ⟨guarded fun s => (.ok (f s), s), guarded_honest⟩

/-- A statement that changes the database and returns a value. -/
def update (f : σ → α × σ) : Session σ ε α :=
  ⟨guarded fun s => (.ok (f s).1, (f s).2), guarded_honest⟩

/-- A statement that a constraint of the database may refuse. -/
def insert (f : σ → Except ε σ) : Session σ ε Unit :=
  ⟨guarded fun s =>
      match f s with
      | .ok s' => (.ok (), s')
      | .error e => (.error e, s),
    guarded_honest⟩

/-- An exception that the program itself raises. -/
def raise (e : ε) : Session σ ε α :=
  ⟨fun faults s => (.error e, s, faults), by
    rintro faults rest s s' a ⟨⟩⟩

/-- The body of `bind`. -/
def bindRun (p : Session σ ε α) (f : α → Session σ ε β) (faults : List (Option ε)) (s : σ) :
    Except ε β × σ × List (Option ε) :=
  match p.run faults s with
  | (.ok a, s', rest) => (f a).run rest s'
  | (.error e, s', rest) => (.error e, s', rest)

theorem bindRun_honest {p : Session σ ε α} {f : α → Session σ ε β} {faults rest : List (Option ε)}
    {s s' : σ} {b : β} (h : bindRun p f faults s = (.ok b, s', rest)) :
  bindRun p f [] s = (.ok b, s', [])
  := by
  rw [bindRun] at h
  match hp : p.run faults s with
  | (.ok a, s₁, rest₁) =>
      rw [hp] at h
      rw [bindRun, p.honest hp]
      exact (f a).honest h
  | (.error e, s₁, rest₁) =>
      rw [hp] at h
      cases h

instance : Monad (Session σ ε) where
  pure a := ⟨fun faults s => (.ok a, s, faults), by
    rintro faults rest s s' b h
    cases h
    rfl⟩
  bind p f := ⟨bindRun p f, bindRun_honest⟩

/-- The body of `transaction`: its first and last statements can fail as well. -/
def transactionRun (p : Session σ ε (Ending α)) (faults : List (Option ε)) (s : σ) :
    Except ε α × σ × List (Option ε) :=
  match guarded (fun s => (.ok (), s)) faults s with
  | (.error e, _, rest) => (.error e, s, rest)
  | (.ok (), _, rest) =>
      match p.run rest s with
      | (.error e, _, rest') => (.error e, s, rest')
      | (.ok (.commit a), s', rest') =>
          match guarded (fun s' => (.ok a, s')) rest' s' with
          | (.ok a, s', rest'') => (.ok a, s', rest'')
          | (.error e, _, rest'') => (.error e, s, rest'')
      | (.ok (.rollback a), _, rest') => guarded (fun s => (.ok a, s)) rest' s

theorem transactionRun_honest {p : Session σ ε (Ending α)} {faults rest : List (Option ε)}
    {s s' : σ} {a : α} (h : transactionRun p faults s = (.ok a, s', rest)) :
  transactionRun p [] s = (.ok a, s', [])
  := by
  have hend : ∀ {b : α} {t t' : σ} {fs gs : List (Option ε)},
      guarded (fun t => (.ok b, t)) fs t = (.ok a, t', gs) → b = a ∧ t = t' := by
    intro b t t' fs gs hguard
    have := guarded_honest hguard
    simpa [guarded] using this
  rw [transactionRun] at h
  match hbegin : guarded (fun s => (Except.ok (), s)) faults s with
  | (.error e, t, rest₁) => simp [hbegin] at h
  | (.ok (), t, rest₁) =>
      simp only [hbegin] at h
      match hp : p.run rest₁ s with
      | (.error e, t', rest₂) => simp [hp] at h
      | (.ok (.commit b), t', rest₂) =>
          simp only [hp] at h
          match hcommit : guarded (fun t => (Except.ok b, t)) rest₂ t' with
          | (.error e, t'', rest₃) => simp [hcommit] at h
          | (.ok c, t'', rest₃) =>
              simp only [hcommit] at h
              cases h
              obtain ⟨rfl, rfl⟩ := hend hcommit
              simp [transactionRun, guarded, p.honest hp]
      | (.ok (.rollback b), t', rest₂) =>
          simp only [hp] at h
          obtain ⟨rfl, rfl⟩ := hend h
          simp [transactionRun, guarded, p.honest hp]

/-- A transaction: `BEGIN`, the body, and `COMMIT` or `ROLLBACK`. -/
def transaction (p : Session σ ε (Ending α)) : Session σ ε α :=
  ⟨transactionRun p, transactionRun_honest⟩

/-- What a run returns, and the database it leaves. -/
def exec (p : Session σ ε α) (faults : List (Option ε)) (s : σ) : Except ε α × σ :=
  ((p.run faults s).1, (p.run faults s).2.1)

/-- The run without faults. -/
def eval (p : Session σ ε α) (s : σ) : Except ε α × σ := p.exec [] s

/-- A run returns a value: it meets no fault, and raises nothing itself. -/
def returns (p : Session σ ε α) (faults : List (Option ε)) (s : σ) : Bool :=
  (p.exec faults s).1.isOk

theorem returns_of_exec
    {p : Session σ ε α} {faults : List (Option ε)} {s s' : σ} {a : α}
    (h : p.exec faults s = (.ok a, s')) :
  p.returns faults s = true
  := by
  rw [returns, h]
  rfl

/-- A run that returns is the run without faults. -/
theorem eval_of_exec {p : Session σ ε α} {faults : List (Option ε)} {s s' : σ} {a : α}
    (h : p.exec faults s = (.ok a, s')) :
  p.eval s = (.ok a, s')
  := by
  match hp : p.run faults s with
  | (.ok b, t, rest) =>
      rw [exec, hp] at h
      cases h
      rw [eval, exec, p.honest hp]
  | (.error e, t, rest) =>
      rw [exec, hp] at h
      cases h

/-! ### Runs without faults -/

@[simp]
theorem eval_pure (a : α) (s : σ) :
  (pure a : Session σ ε α).eval s = (.ok a, s)
  := rfl

@[simp]
theorem eval_raise (e : ε) (s : σ) :
  (raise e : Session σ ε α).eval s = (.error e, s)
  := rfl

@[simp]
theorem eval_query (f : σ → α) (s : σ) :
  (query f : Session σ ε α).eval s = (.ok (f s), s)
  := rfl

@[simp]
theorem eval_update (f : σ → α × σ) (s : σ) :
  (update f : Session σ ε α).eval s = (.ok (f s).1, (f s).2)
  := rfl

@[simp]
theorem eval_insert (f : σ → Except ε σ) (s : σ) :
  (insert f).eval s = match f s with
    | .ok s' => (.ok (), s')
    | .error e => (.error e, s)
  := by
  simp only [eval, exec, insert, guarded]

@[simp]
theorem eval_bind (p : Session σ ε α) (f : α → Session σ ε β) (s : σ) :
  (p >>= f).eval s = match p.eval s with
    | (.ok a, s') => (f a).eval s'
    | (.error e, s') => (.error e, s')
  := by
  have hbind : (p >>= f).run = bindRun p f := rfl
  simp only [eval, exec, hbind, bindRun]
  match hp : p.run [] s with
  | (.ok a, s', rest) =>
      rw [p.honest hp] at hp
      cases hp
      rfl
  | (.error e, s', rest) => rfl

@[simp]
theorem eval_transaction (p : Session σ ε (Ending α)) (s : σ) :
  (transaction p).eval s = match p.eval s with
    | (.ok (.commit a), s') => (.ok a, s')
    | (.ok (.rollback a), _) => (.ok a, s)
    | (.error e, _) => (.error e, s)
  := by
  simp only [eval, exec, transaction, transactionRun, guarded]
  match hp : p.run [] s with
  | (.ok (.commit a), s', rest) =>
      rw [p.honest hp] at hp
      cases hp
      simp
  | (.ok (.rollback a), s', rest) =>
      rw [p.honest hp] at hp
      cases hp
      simp
  | (.error e, s', rest) => simp

/-! ### Atomicity -/

/-- A run that raises leaves the database as it was. -/
def Atomic (p : Session σ ε α) : Prop :=
  ∀ faults s s' e, p.exec faults s = (.error e, s') → s' = s

theorem guarded_error {action : σ → Except ε α × σ} {faults : List (Option ε)} {s : σ} {e : ε}
    (haction : ∀ e, (action s).1 = .error e → (action s).2 = s)
    (h : (guarded action faults s).1 = .error e) :
  (guarded action faults s).2.1 = s
  := by
  match faults with
  | [] => exact haction e h
  | none :: rest => exact haction e h
  | some e :: rest => rfl

theorem Atomic.query (f : σ → α) :
  Atomic (Session.query f : Session σ ε α)
  := by
  intro faults s s' e h
  rw [exec, Prod.mk.injEq] at h
  rw [← h.2]
  apply guarded_error _ h.1
  rintro e ⟨⟩

theorem Atomic.update (f : σ → α × σ) :
  Atomic (Session.update f : Session σ ε α)
  := by
  intro faults s s' e h
  rw [exec, Prod.mk.injEq] at h
  rw [← h.2]
  apply guarded_error _ h.1
  rintro e ⟨⟩

theorem Atomic.insert (f : σ → Except ε σ) :
  Atomic (Session.insert f)
  := by
  intro faults s s' e h
  rw [exec, Prod.mk.injEq] at h
  rw [← h.2]
  apply guarded_error _ h.1
  intro e he
  cases hf : f s with
  | ok s₁ => simp [hf] at he
  | error e₁ => rfl

theorem Atomic.pure (a : α) :
  Atomic (Pure.pure a : Session σ ε α)
  := by
  rintro faults s s' e ⟨⟩

theorem Atomic.raise (e : ε) :
  Atomic (Session.raise e : Session σ ε α)
  := by
  rintro faults s s' e' ⟨⟩
  rfl

/-- Reading first keeps a program atomic. -/
theorem Atomic.query_bind {f : σ → α} {g : α → Session σ ε β} (h : ∀ a, Atomic (g a)) :
  Atomic (Session.query f >>= g)
  := by
  intro faults s s' e hexec
  have hbind : (Session.query f >>= g).run = bindRun (Session.query f) g := rfl
  simp only [exec, hbind, bindRun] at hexec
  match faults with
  | [] => exact h (f s) _ _ _ _ hexec
  | none :: rest => exact h (f s) _ _ _ _ hexec
  | some e :: rest =>
      cases hexec
      rfl

/-- A transaction is atomic. -/
theorem Atomic.transaction (p : Session σ ε (Ending α)) :
  Atomic (Session.transaction p)
  := by
  intro faults s s' e h
  simp only [exec, Session.transaction, transactionRun] at h
  match hbegin : guarded (fun s => (Except.ok (), s)) faults s with
  | (.error e, t, rest₁) =>
      simp only [hbegin, Prod.mk.injEq] at h
      exact h.2.symm
  | (.ok (), t, rest₁) =>
      simp only [hbegin] at h
      match hp : p.run rest₁ s with
      | (.error e, t', rest₂) =>
          simp only [hp, Prod.mk.injEq] at h
          exact h.2.symm
      | (.ok (.commit b), t', rest₂) =>
          simp only [hp] at h
          match hcommit : guarded (fun t => (Except.ok b, t)) rest₂ t' with
          | (.error e, t'', rest₃) =>
              simp only [hcommit, Prod.mk.injEq] at h
              exact h.2.symm
          | (.ok c, t'', rest₃) => simp [hcommit] at h
      | (.ok (.rollback b), t', rest₂) =>
          simp only [hp, Prod.mk.injEq] at h
          rw [← h.2]
          apply guarded_error _ h.1
          rintro e ⟨⟩

/-- A run of an atomic program raises and leaves the database as it was, or is the run without
faults. -/
theorem Atomic.exec_cases {p : Session σ ε α} (hp : p.Atomic) (faults : List (Option ε)) (s : σ) :
  (∃ e, p.exec faults s = (.error e, s))
    ∨ ∃ a s', p.exec faults s = (.ok a, s') ∧ p.eval s = (.ok a, s')
  := by
  match hexec : p.exec faults s with
  | (.error e, s') =>
      left
      use e
      rw [hp _ _ _ _ hexec]
  | (.ok a, s') =>
      right
      exact ⟨a, s', rfl, eval_of_exec hexec⟩

/-! ### What runs preserve -/

/-- Every run keeps a property of the database, whether it returns or raises. -/
def Preserves (I : σ → Prop) (p : Session σ ε α) : Prop :=
  ∀ faults s, I s → I (p.run faults s).2.1

section

variable {I : σ → Prop}

theorem Preserves.exec {p : Session σ ε α} (h : p.Preserves I) (faults : List (Option ε)) {s : σ}
    (hs : I s) :
  I (p.exec faults s).2
  := h faults s hs

theorem guarded_preserves {action : σ → Except ε α × σ} (h : ∀ s, I s → I (action s).2)
    (faults : List (Option ε)) {s : σ} (hs : I s) :
  I (guarded action faults s).2.1
  := by
  match faults with
  | [] => exact h s hs
  | none :: rest => exact h s hs
  | some e :: rest => exact hs

theorem Preserves.pure (a : α) :
  Preserves I (Pure.pure a : Session σ ε α)
  := fun _ _ hs => hs

theorem Preserves.raise (e : ε) :
  Preserves I (Session.raise e : Session σ ε α)
  := fun _ _ hs => hs

theorem Preserves.query (f : σ → α) :
  Preserves I (Session.query f : Session σ ε α)
  := fun faults _ hs => guarded_preserves (fun _ hs => hs) faults hs

theorem Preserves.update {f : σ → α × σ} (h : ∀ s, I s → I (f s).2) :
  Preserves I (Session.update f : Session σ ε α)
  := fun faults _ hs => guarded_preserves h faults hs

theorem Preserves.insert {f : σ → Except ε σ} (h : ∀ s s', f s = .ok s' → I s → I s') :
  Preserves I (Session.insert f)
  := by
  intro faults s hs
  apply guarded_preserves _ faults hs
  intro s hs
  cases hf : f s with
  | ok s' => exact h s s' hf hs
  | error e => exact hs

theorem Preserves.bind {p : Session σ ε α} {f : α → Session σ ε β} (hp : p.Preserves I)
    (hf : ∀ a, (f a).Preserves I) :
  (p >>= f).Preserves I
  := by
  intro faults s hs
  have hbind : (p >>= f).run = bindRun p f := rfl
  rw [hbind, bindRun]
  have hfirst := hp faults s hs
  split
  next a s' rest hrun =>
    rw [hrun] at hfirst
    exact hf a rest s' hfirst
  next e s' rest hrun =>
    rw [hrun] at hfirst
    exact hfirst

theorem Preserves.transaction {p : Session σ ε (Ending α)} (hp : p.Preserves I) :
  (Session.transaction p).Preserves I
  := by
  intro faults s hs
  simp only [Session.transaction, transactionRun]
  split
  next => exact hs
  next t rest hbegin =>
    have hbody := hp rest s hs
    split
    next => exact hs
    next a s' rest' hrun =>
      rw [hrun] at hbody
      split
      next b s'' rest'' hcommit =>
        have hend : I (guarded (fun t => (Except.ok a, t)) rest' s').2.1 :=
          guarded_preserves (fun _ ht => ht) rest' hbody
        rw [hcommit] at hend
        exact hend
      next => exact hs
    next a s' rest' hrun => exact guarded_preserves (fun _ ht => ht) rest' hs

end

/-- No run changes what is seen of the database, whether it returns or raises. -/
def Keeps {β : Type} (seen : σ → β) (p : Session σ ε α) : Prop :=
  ∀ faults s, seen (p.run faults s).2.1 = seen s

section

variable {γ : Type} {seen : σ → γ}

/-- A program keeps what is seen of the database when it preserves every value of it. -/
theorem keeps_iff {p : Session σ ε α} :
  p.Keeps seen ↔ ∀ v, p.Preserves fun s => seen s = v
  := by
  constructor
  · intro h v faults s hs
    exact (h faults s).trans hs
  · intro h faults s
    exact h (seen s) faults s rfl

theorem Keeps.exec {p : Session σ ε α} (h : p.Keeps seen) (faults : List (Option ε)) (s : σ) :
  seen (p.exec faults s).2 = seen s
  := h faults s

theorem Keeps.pure (a : α) :
  Keeps seen (Pure.pure a : Session σ ε α)
  := fun _ _ => rfl

theorem Keeps.raise (e : ε) :
  Keeps seen (Session.raise e : Session σ ε α)
  := fun _ _ => rfl

theorem Keeps.query (f : σ → α) :
  Keeps seen (Session.query f : Session σ ε α)
  := keeps_iff.mpr fun _ => .query f

theorem Keeps.update {f : σ → α × σ} (h : ∀ s, seen (f s).2 = seen s) :
  Keeps seen (Session.update f : Session σ ε α)
  := keeps_iff.mpr fun _ => .update fun s hs => (h s).trans hs

theorem Keeps.insert {f : σ → Except ε σ} (h : ∀ s s', f s = .ok s' → seen s' = seen s) :
  Keeps seen (Session.insert f)
  := keeps_iff.mpr fun _ => .insert fun s s' hf hs => (h s s' hf).trans hs

theorem Keeps.bind {p : Session σ ε α} {f : α → Session σ ε β} (hp : p.Keeps seen)
    (hf : ∀ a, (f a).Keeps seen) :
  (p >>= f).Keeps seen
  := keeps_iff.mpr fun v => (keeps_iff.mp hp v).bind fun a => keeps_iff.mp (hf a) v

theorem Keeps.transaction {p : Session σ ε (Ending α)} (hp : p.Keeps seen) :
  (Session.transaction p).Keeps seen
  := keeps_iff.mpr fun v => (keeps_iff.mp hp v).transaction

end

/-! ### What runs raise -/

/-- The exceptions of a program are faults of its statements, or have a property. -/
def RaisesOnly (T : ε → Prop) (p : Session σ ε α) : Prop :=
  ∀ faults s, (p.run faults s).2.2 ⊆ faults
    ∧ ∀ e, (p.run faults s).1 = .error e → some e ∈ faults ∨ T e

section

variable {T : ε → Prop}

theorem RaisesOnly.exec {p : Session σ ε α} (h : p.RaisesOnly T) {faults : List (Option ε)}
    {s s' : σ} {e : ε} (hexec : p.exec faults s = (.error e, s')) :
  some e ∈ faults ∨ T e
  := (h faults s).2 e (Prod.mk.inj hexec).1

theorem guarded_raisesOnly {action : σ → Except ε α × σ} {faults : List (Option ε)} {s : σ}
    (h : ∀ e, (action s).1 = .error e → T e) :
  (guarded action faults s).2.2 ⊆ faults
    ∧ ∀ e, (guarded action faults s).1 = .error e → some e ∈ faults ∨ T e
  := by
  match faults with
  | [] => exact ⟨List.Subset.refl _, fun e he => Or.inr (h e he)⟩
  | none :: rest => exact ⟨List.subset_cons_self _ _, fun e he => Or.inr (h e he)⟩
  | some e' :: rest =>
      refine ⟨List.subset_cons_self _ _, ?_⟩
      rintro e ⟨⟩
      exact Or.inl List.mem_cons_self

theorem RaisesOnly.pure (a : α) :
  RaisesOnly T (Pure.pure a : Session σ ε α)
  := by
  intro faults s
  refine ⟨List.Subset.refl _, ?_⟩
  rintro e ⟨⟩

theorem RaisesOnly.raise {e : ε} (h : T e) :
  RaisesOnly T (Session.raise e : Session σ ε α)
  := by
  intro faults s
  refine ⟨List.Subset.refl _, ?_⟩
  rintro e' ⟨⟩
  exact Or.inr h

theorem RaisesOnly.query (f : σ → α) :
  RaisesOnly T (Session.query f : Session σ ε α)
  := by
  intro faults s
  apply guarded_raisesOnly
  rintro e ⟨⟩

theorem RaisesOnly.update (f : σ → α × σ) :
  RaisesOnly T (Session.update f : Session σ ε α)
  := by
  intro faults s
  apply guarded_raisesOnly
  rintro e ⟨⟩

theorem RaisesOnly.bind {p : Session σ ε α} {f : α → Session σ ε β} (hp : p.RaisesOnly T)
    (hf : ∀ a, (f a).RaisesOnly T) :
  (p >>= f).RaisesOnly T
  := by
  intro faults s
  have hbind : (p >>= f).run = bindRun p f := rfl
  rw [hbind, bindRun]
  obtain ⟨hsub, hraise⟩ := hp faults s
  split
  next a s' rest hrun =>
    rw [hrun] at hsub
    obtain ⟨hsub', hraise'⟩ := hf a rest s'
    refine ⟨List.Subset.trans hsub' hsub, ?_⟩
    intro e he
    exact (hraise' e he).imp_left fun hmem => hsub hmem
  next e s' rest hrun =>
    rw [hrun] at hsub hraise
    refine ⟨hsub, ?_⟩
    rintro e' ⟨⟩
    exact hraise e rfl

theorem RaisesOnly.transaction {p : Session σ ε (Ending α)} (hp : p.RaisesOnly T) :
  (Session.transaction p).RaisesOnly T
  := by
  intro faults s
  have hplain : ∀ {β : Type} (b : β) (fs : List (Option ε)) (t : σ),
      (guarded (fun t => (Except.ok b, t)) fs t).2.2 ⊆ fs
        ∧ ∀ e, (guarded (fun t => (Except.ok b, t)) fs t).1 = .error e → some e ∈ fs ∨ T e := by
    intro β b fs t
    apply guarded_raisesOnly
    rintro e ⟨⟩
  simp only [Session.transaction, transactionRun]
  obtain ⟨hsub, hraise⟩ := hplain () faults s
  split
  next e t rest hbegin =>
    rw [hbegin] at hsub hraise
    refine ⟨hsub, ?_⟩
    rintro e' ⟨⟩
    exact hraise e rfl
  next t rest hbegin =>
    rw [hbegin] at hsub
    obtain ⟨hsub', hraise'⟩ := hp rest s
    split
    next e s' rest' hrun =>
      rw [hrun] at hsub' hraise'
      refine ⟨List.Subset.trans hsub' hsub, ?_⟩
      rintro e' ⟨⟩
      exact (hraise' e rfl).imp_left fun hmem => hsub hmem
    next a s' rest' hrun =>
      rw [hrun] at hsub'
      obtain ⟨hsub'', hraise''⟩ := hplain a rest' s'
      have hall := List.Subset.trans hsub' hsub
      split
      next b s'' rest'' hcommit =>
        rw [hcommit] at hsub''
        refine ⟨List.Subset.trans hsub'' hall, ?_⟩
        rintro e' ⟨⟩
      next e s'' rest'' hcommit =>
        rw [hcommit] at hsub'' hraise''
        refine ⟨List.Subset.trans hsub'' hall, ?_⟩
        rintro e' ⟨⟩
        exact (hraise'' e rfl).imp_left fun hmem => hall hmem
    next a s' rest' hrun =>
      rw [hrun] at hsub'
      obtain ⟨hsub'', hraise''⟩ := hplain a rest' s
      have hall := List.Subset.trans hsub' hsub
      refine ⟨List.Subset.trans hsub'' hall, ?_⟩
      intro e he
      exact (hraise'' e he).imp_left fun hmem => hall hmem

end

end Session
