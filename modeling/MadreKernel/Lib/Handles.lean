import Mathlib.Data.List.Perm.Basic

/-!
# Move-only handles

The objects of a class that owns a resource and can be moved but not copied: moving an object
leaves it empty, and an object that is assigned to or destroyed gives up what it owns.  The
objects are numbered in the order of their construction.  Whatever the order of the
operations, what the objects own is what they were given, less what they gave up.
-/

/-- The objects of a move-only class: `none` is an object that has been destroyed, and
`some none` one that is empty. -/
structure Handles (α : Type) where
  objects : List (Option (Option α))

namespace Handles

variable {α : Type}

/-- Before any object is constructed. -/
def empty : Handles α := ⟨[]⟩

/-- What the objects own. -/
def owned (h : Handles α) : List α := h.objects.filterMap Option.join

/-- What a living object owns. -/
def get? (h : Handles α) (i : Nat) : Option (Option α) := h.objects[i]?.join

/-- A new object that owns a resource. -/
def give (h : Handles α) (a : α) : Handles α := ⟨h.objects ++ [some (some a)]⟩

/-- The operations of the class, besides the construction of an object that owns something. -/
inductive Operation where
  | construct
  | moveConstruct (source : Nat)
  | moveAssign (target source : Nat)
  | destroy (object : Nat)

/-- The objects that an operation changes. -/
def Operation.objects : Operation → List Nat
  | .construct => []
  | .moveConstruct source => [source]
  | .moveAssign target source => [target, source]
  | .destroy object => [object]

/-- An operation, and the resource that it gives up.  An operation on an object that does not
live is refused. -/
def step (h : Handles α) : Operation → Option (Handles α × Option α)
  | .construct => some (⟨h.objects ++ [some none]⟩, none)
  | .moveConstruct source =>
      (h.get? source).map fun a => (⟨h.objects.set source (some none) ++ [some a]⟩, none)
  | .moveAssign target source =>
      (h.get? target).bind fun a => (h.get? source).map fun b =>
        if target = source then (h, none)
        else (⟨(h.objects.set target (some b)).set source (some none)⟩, a)
  | .destroy object => (h.get? object).map fun a => (⟨h.objects.set object none⟩, a)

/-! ### What the objects own -/

/-- Replacing an entry of a list exchanges what the entry contributes. -/
theorem perm_filterMap_set
    {β : Type} (f : β → Option α) {l : List β} {i : Nat} {x : β} (h : l[i]? = some x) (y : β) :
  ((f x).toList ++ (l.set i y).filterMap f).Perm ((f y).toList ++ l.filterMap f)
  := by
  induction l generalizing i with
  | nil => simp at h
  | cons z l ih =>
      have hcons : ∀ w t, List.filterMap f (w :: t) = (f w).toList ++ t.filterMap f := by
        intro w t
        cases hw : f w <;> simp [hw]
      cases i with
      | zero =>
          rw [List.getElem?_cons_zero, Option.some_inj] at h
          subst h
          rw [List.set_cons_zero, hcons, hcons]
          apply List.perm_append_comm_assoc
      | succ i =>
          rw [List.getElem?_cons_succ] at h
          rw [List.set_cons_succ, hcons, hcons]
          apply List.Perm.trans (List.perm_append_comm_assoc _ _ _)
          apply List.Perm.trans ((ih h).append_left _)
          apply List.perm_append_comm_assoc

theorem getElem?_of_get? {h : Handles α} {i : Nat} {a : Option α} (hget : h.get? i = some a) :
  h.objects[i]? = some (some a)
  := Option.join_eq_some_iff.mp hget

@[simp]
theorem owned_empty :
  (empty : Handles α).owned = []
  := rfl

theorem owned_give (h : Handles α) (a : α) :
  (h.give a).owned = h.owned ++ [a]
  := by
  rw [owned, give, List.filterMap_append]
  rfl

/-- What an object owns. -/
theorem mem_owned_iff {h : Handles α} {a : α} :
  a ∈ h.owned ↔ ∃ i, h.get? i = some (some a)
  := by
  rw [owned, List.mem_filterMap]
  constructor
  · rintro ⟨x, hx, hjoin⟩
    obtain ⟨i, hi⟩ := List.getElem?_of_mem hx
    use i
    rw [Option.join_eq_some_iff] at hjoin
    rw [get?, hi, hjoin]
    rfl
  · rintro ⟨i, hi⟩
    use some (some a)
    exact ⟨List.mem_of_getElem? (getElem?_of_get? hi), rfl⟩

/-- An operation moves what the objects own, except for what it gives up. -/
theorem step_owned
    {h h' : Handles α} {op : Operation} {released : Option α}
    (hstep : h.step op = some (h', released)) :
  (released.toList ++ h'.owned).Perm h.owned
  := by
  cases op with
  | construct =>
      cases hstep
      simp [owned]
  | moveConstruct source =>
      rw [step, Option.map_eq_some_iff] at hstep
      obtain ⟨a, ha, heq⟩ := hstep
      cases heq
      have hset := perm_filterMap_set Option.join (getElem?_of_get? ha) (some none)
      have hnew : List.filterMap Option.join [some a] = a.toList := by
        cases a <;> rfl
      simp only [Option.toList_none, List.nil_append, owned, List.filterMap_append, hnew]
      apply List.Perm.trans List.perm_append_comm
      simpa using hset
  | moveAssign target source =>
      rw [step, Option.bind_eq_some_iff] at hstep
      obtain ⟨a, ha, hstep⟩ := hstep
      rw [Option.map_eq_some_iff] at hstep
      obtain ⟨b, hb, heq⟩ := hstep
      by_cases hsame : target = source
      · rw [if_pos hsame] at heq
        cases heq
        exact List.Perm.refl _
      · rw [if_neg hsame] at heq
        cases heq
        have htarget := perm_filterMap_set Option.join (getElem?_of_get? ha) (some b)
        have hentry : (h.objects.set target (some b))[source]? = some (some b) := by
          rw [List.getElem?_set_ne hsame]
          apply getElem?_of_get? hb
        have hsource := perm_filterMap_set Option.join hentry (some none)
        -- Both sides with what the source owned in front.
        apply (List.perm_append_left_iff b.toList).mp
        apply List.Perm.trans (List.perm_append_comm_assoc _ _ _)
        apply List.Perm.trans (hsource.append_left _)
        apply htarget
  | destroy object =>
      rw [step, Option.map_eq_some_iff] at hstep
      obtain ⟨a, ha, heq⟩ := hstep
      cases heq
      apply perm_filterMap_set Option.join (getElem?_of_get? ha) none

/-- An operation leaves the other objects alone. -/
theorem step_get?
    {h h' : Handles α} {op : Operation} {released : Option α} {i : Nat} {a : Option α}
    (hstep : h.step op = some (h', released)) (hi : i ∉ op.objects) (hget : h.get? i = some a) :
  h'.get? i = some a
  := by
  have hlt : i < h.objects.length := by
    obtain ⟨hlt, -⟩ := List.getElem?_eq_some_iff.mp (getElem?_of_get? hget)
    exact hlt
  cases op with
  | construct =>
      cases hstep
      rw [get?, List.getElem?_append_left hlt]
      exact hget
  | moveConstruct source =>
      rw [step, Option.map_eq_some_iff] at hstep
      obtain ⟨b, hb, heq⟩ := hstep
      cases heq
      have hne : source ≠ i := fun heq => hi (by simp [Operation.objects, heq])
      rw [get?, List.getElem?_append_left (by rw [List.length_set]; exact hlt),
        List.getElem?_set_ne hne]
      exact hget
  | moveAssign target source =>
      rw [step, Option.bind_eq_some_iff] at hstep
      obtain ⟨b, hb, hstep⟩ := hstep
      rw [Option.map_eq_some_iff] at hstep
      obtain ⟨b', hb', heq⟩ := hstep
      have htarget : target ≠ i := fun heq => hi (by simp [Operation.objects, heq])
      have hsource : source ≠ i := fun heq => hi (by simp [Operation.objects, heq])
      by_cases hsame : target = source
      · rw [if_pos hsame] at heq
        cases heq
        exact hget
      · rw [if_neg hsame] at heq
        cases heq
        rw [get?, List.getElem?_set_ne hsource, List.getElem?_set_ne htarget]
        exact hget
  | destroy object =>
      rw [step, Option.map_eq_some_iff] at hstep
      obtain ⟨b, hb, heq⟩ := hstep
      cases heq
      have hne : object ≠ i := fun heq => hi (by simp [Operation.objects, heq])
      rw [get?, List.getElem?_set_ne hne]
      exact hget

theorem get?_give_of_get?
    {h : Handles α} {i : Nat} {b : Option α} (hget : h.get? i = some b) (a : α) :
  (h.give a).get? i = some b
  := by
  obtain ⟨hlt, -⟩ := List.getElem?_eq_some_iff.mp (getElem?_of_get? hget)
  rw [get?, give, List.getElem?_append_left hlt]
  exact hget

/-- No two objects own the same, when nothing is owned twice. -/
theorem get?_inj
    {h : Handles α} {i j : Nat} {a : α} (hnodup : h.owned.Nodup) (hi : h.get? i = some (some a))
    (hj : h.get? j = some (some a)) :
  i = j
  := by
  by_contra hne
  have hperm := perm_filterMap_set Option.join (getElem?_of_get? hi) none
  have hcons : (a :: (h.objects.set i none).filterMap Option.join).Nodup :=
    hperm.nodup_iff.mpr hnodup
  apply (List.nodup_cons.mp hcons).1
  rw [List.mem_filterMap]
  use some (some a)
  refine ⟨?_, rfl⟩
  apply List.mem_of_getElem? (i := j)
  rw [List.getElem?_set_ne hne]
  exact getElem?_of_get? hj

end Handles
