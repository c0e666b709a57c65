import Mathlib.Data.List.Sort

/-!
# Maps sorted by key

`SortedMap κ ν` is a finite map from `κ` to `ν`, held as the list of its entries in
strictly increasing order of keys.  `emplace` adds an entry for a key that has none and
changes nothing otherwise; `assign` adds or replaces.  A map is determined by its
lookups, and the map emplaced from the entries of a map is that map.
-/

/-- A finite map, as its entries in strictly increasing order of keys. -/
structure SortedMap (κ ν : Type) [LinearOrder κ] where
  entries : List (κ × ν)
  sorted : entries.Pairwise (fun a b => a.1 < b.1)

namespace SortedMap

variable {κ ν : Type} [LinearOrder κ]

instance [DecidableEq ν] : DecidableEq (SortedMap κ ν) :=
  fun a b => decidable_of_iff (a.entries = b.entries) <| by
    constructor
    · intro h
      cases a
      cases b
      cases h
      rfl
    · rintro rfl
      rfl

/-- The map without entries. -/
def empty : SortedMap κ ν := ⟨[], List.Pairwise.nil⟩

instance : EmptyCollection (SortedMap κ ν) := ⟨empty⟩

/-- The value of a key. -/
def find? (m : SortedMap κ ν) (k : κ) : Option ν := m.entries.lookup k

/-- Insertion into a list of entries: `f` changes the value of a key that has one, `v` is
the value of a key that has none. -/
def insertEntry (k : κ) (v : ν) (f : ν → ν) : List (κ × ν) → List (κ × ν)
  | [] => [(k, v)]
  | (k', v') :: rest =>
      if k < k' then (k, v) :: (k', v') :: rest
      else if k' < k then (k', v') :: insertEntry k v f rest
      else (k', f v') :: rest

theorem lookup_cons_of_ne {j k : κ} (h : j ≠ k) (v : ν) (l : List (κ × ν)) :
  ((k, v) :: l).lookup j = l.lookup j
  := by
  have hne : (j == k) = false := by simpa using h
  rw [List.lookup_cons, hne]

theorem key_of_mem_insertEntry
    {k : κ} {v : ν} {f : ν → ν} {l : List (κ × ν)} {e : κ × ν} (h : e ∈ insertEntry k v f l) :
  e.1 = k ∨ e.1 ∈ l.map Prod.fst
  := by
  induction l with
  | nil => simp_all [insertEntry]
  | cons d rest ih =>
      obtain ⟨k', v'⟩ := d
      simp only [insertEntry] at h
      split_ifs at h with h₁ h₂ <;> grind

theorem insertEntry_sorted
    (k : κ) (v : ν) (f : ν → ν) {l : List (κ × ν)}
    (h : l.Pairwise (fun a b => a.1 < b.1)) :
  (insertEntry k v f l).Pairwise (fun a b => a.1 < b.1)
  := by
  induction l with
  | nil => simp [insertEntry]
  | cons d rest ih =>
      obtain ⟨k', v'⟩ := d
      obtain ⟨hhead, htail⟩ := List.pairwise_cons.mp h
      simp only [insertEntry]
      split_ifs with h₁ h₂
      · apply List.pairwise_cons.mpr
        constructor
        · intro e he
          rcases List.mem_cons.mp he with rfl | he
          · exact h₁
          · exact lt_trans h₁ (hhead e he)
        · exact h
      · apply List.pairwise_cons.mpr
        constructor
        · intro e he
          rcases key_of_mem_insertEntry he with hk | hk
          · rw [hk]
            exact h₂
          · obtain ⟨d, hd, hde⟩ := List.mem_map.mp hk
            rw [← hde]
            exact hhead d hd
        · exact ih htail
      · apply List.pairwise_cons.mpr
        exact ⟨hhead, htail⟩

theorem lookup_insertEntry
    (k : κ) (v : ν) (f : ν → ν) {l : List (κ × ν)}
    (h : l.Pairwise (fun a b => a.1 < b.1)) (j : κ) :
  (insertEntry k v f l).lookup j
    = if j = k then some ((l.lookup k).elim v f) else l.lookup j
  := by
  induction l with
  | nil => by_cases hj : j = k <;> simp [insertEntry, hj]
  | cons d rest ih =>
      obtain ⟨k', v'⟩ := d
      obtain ⟨hhead, htail⟩ := List.pairwise_cons.mp h
      have hlater : ∀ i, i < k' → ((k', v') :: rest).lookup i = none := by
        intro i hi
        apply List.lookup_eq_none_iff.mpr
        intro e he
        rcases List.mem_cons.mp he with rfl | he
        · simpa using ne_of_lt hi
        · simpa using ne_of_lt (lt_trans hi (hhead e he))
      rw [insertEntry]
      rcases lt_trichotomy k k' with hlt | heq | hgt
      · rw [if_pos hlt, hlater k hlt]
        by_cases hj : j = k
        · subst hj
          simp
        · rw [if_neg hj, lookup_cons_of_ne hj]
      · subst heq
        by_cases hj : j = k
        · subst hj
          simp
        · simp [hj, lookup_cons_of_ne]
      · rw [if_neg (not_lt_of_gt hgt), if_pos hgt, lookup_cons_of_ne (ne_of_gt hgt)]
        by_cases hj : j = k'
        · subst hj
          simp [ne_of_lt hgt]
        · rw [lookup_cons_of_ne hj, lookup_cons_of_ne hj, ih htail]

/-- Insertion: `f` changes the value of a key that has one, `v` is the value of a key
that has none. -/
def insertWith (m : SortedMap κ ν) (k : κ) (v : ν) (f : ν → ν) : SortedMap κ ν :=
  ⟨insertEntry k v f m.entries, insertEntry_sorted k v f m.sorted⟩

/-- Add an entry for a key that has none. -/
def emplace (m : SortedMap κ ν) (k : κ) (v : ν) : SortedMap κ ν := m.insertWith k v id

/-- Set the value of a key. -/
def assign (m : SortedMap κ ν) (k : κ) (v : ν) : SortedMap κ ν := m.insertWith k v (fun _ => v)

/-- Remove the entry of a key. -/
def erase (m : SortedMap κ ν) (k : κ) : SortedMap κ ν :=
  ⟨m.entries.filter (·.1 ≠ k), m.sorted.filter _⟩

@[simp]
theorem find?_empty (j : κ) :
  (∅ : SortedMap κ ν).find? j = none
  := rfl

theorem find?_emplace (m : SortedMap κ ν) (k : κ) (v : ν) (j : κ) :
  (m.emplace k v).find? j = if j = k then some ((m.find? k).getD v) else m.find? j
  := by
  apply Eq.trans (lookup_insertEntry k v id m.sorted j)
  simp only [find?]
  cases m.entries.lookup k <;> rfl

theorem find?_assign (m : SortedMap κ ν) (k : κ) (v : ν) (j : κ) :
  (m.assign k v).find? j = if j = k then some v else m.find? j
  := by
  apply Eq.trans (lookup_insertEntry k v (fun _ => v) m.sorted j)
  simp only [find?]
  cases m.entries.lookup k <;> rfl

/-- Removing the entries of a key from a list of entries. -/
theorem lookup_filter_ne (k : κ) (l : List (κ × ν)) (j : κ) :
  (l.filter (·.1 ≠ k)).lookup j = if j = k then none else l.lookup j
  := by
  induction l with
  | nil => simp
  | cons e l ih =>
      obtain ⟨k', v'⟩ := e
      by_cases hkey : k' = k
      · subst hkey
        rw [List.filter_cons_of_neg (by simp), ih]
        split_ifs with hj
        · rfl
        · rw [lookup_cons_of_ne hj]
      · rw [List.filter_cons_of_pos (by simpa using hkey)]
        by_cases hj : j = k'
        · subst hj
          rw [if_neg hkey, List.lookup_cons_self, List.lookup_cons_self]
        · rw [lookup_cons_of_ne hj, lookup_cons_of_ne hj, ih]

theorem find?_erase (m : SortedMap κ ν) (k j : κ) :
  (m.erase k).find? j = if j = k then none else m.find? j
  := lookup_filter_ne k m.entries j

/-- In a list whose keys differ, a lookup finds the entry of the key. -/
theorem lookup_eq_some_iff_mem {l : List (κ × ν)} (h : (l.map Prod.fst).Nodup) (k : κ) (v : ν) :
  l.lookup k = some v ↔ (k, v) ∈ l
  := by
  induction l with
  | nil => simp
  | cons d rest ih =>
      obtain ⟨k', v'⟩ := d
      rw [List.map_cons, List.nodup_cons] at h
      by_cases hk : k = k'
      · subst hk
        have hrest : (k, v) ∉ rest := by
          intro hmem
          apply h.1
          apply List.mem_map_of_mem hmem
        simp [hrest, eq_comm]
      · simp [lookup_cons_of_ne, hk, ih h.2]

/-- The keys of a map differ. -/
theorem nodup_keys (m : SortedMap κ ν) :
  (m.entries.map Prod.fst).Nodup
  := by
  apply List.pairwise_map.mpr
  apply List.Pairwise.imp _ m.sorted
  intro a b h
  exact ne_of_lt h

/-- The entries of a map are its lookups. -/
theorem mem_entries_iff (m : SortedMap κ ν) (k : κ) (v : ν) :
  (k, v) ∈ m.entries ↔ m.find? k = some v
  := (lookup_eq_some_iff_mem m.nodup_keys k v).symm

/-- A map is determined by its lookups. -/
theorem ext_find? {m m' : SortedMap κ ν} (h : ∀ k, m.find? k = m'.find? k) :
  m = m'
  := by
  have hmem : ∀ e, e ∈ m.entries ↔ e ∈ m'.entries := by
    rintro ⟨k, v⟩
    rw [mem_entries_iff, mem_entries_iff, h]
  have hlt : Std.Irrefl (fun a b : κ × ν => a.1 < b.1) := ⟨fun a => lt_irrefl a.1⟩
  have hanti : Std.Antisymm (fun a b : κ × ν => a.1 < b.1) :=
    ⟨fun a b hab hba => absurd (lt_trans hab hba) (lt_irrefl a.1)⟩
  have hentries : m.entries = m'.entries := List.Pairwise.eq_of_mem_iff m.sorted m'.sorted hmem
  cases m
  cases m'
  cases hentries
  rfl

/-- The map that the entries of a list are emplaced into, in order. -/
def ofEntries (l : List (κ × ν)) : SortedMap κ ν :=
  l.foldl (fun m e => m.emplace e.1 e.2) ∅

theorem find?_foldl_emplace (l : List (κ × ν)) (m : SortedMap κ ν) (j : κ) :
  (l.foldl (fun m e => m.emplace e.1 e.2) m).find? j = (m.find? j).or (l.lookup j)
  := by
  induction l generalizing m with
  | nil => simp
  | cons d rest ih =>
      obtain ⟨k, v⟩ := d
      rw [List.foldl_cons, ih, find?_emplace]
      by_cases hj : j = k
      · subst hj
        cases m.find? j <;> simp
      · simp [lookup_cons_of_ne, hj]

/-- The first entry of a key is the one that stays. -/
theorem find?_ofEntries (l : List (κ × ν)) (j : κ) :
  (ofEntries l).find? j = l.lookup j
  := by
  rw [ofEntries, find?_foldl_emplace]
  rfl

/-- The map that the entries of a list are assigned in, in order. -/
def ofAssigned (l : List (κ × ν)) : SortedMap κ ν :=
  l.foldl (fun m e => m.assign e.1 e.2) ∅

theorem find?_foldl_assign (l : List (κ × ν)) (m : SortedMap κ ν) (j : κ) :
  (l.foldl (fun m e => m.assign e.1 e.2) m).find? j = (l.reverse.lookup j).or (m.find? j)
  := by
  induction l generalizing m with
  | nil => simp
  | cons d rest ih =>
      obtain ⟨k, v⟩ := d
      rw [List.foldl_cons, ih, find?_assign, List.reverse_cons, List.lookup_append]
      by_cases hj : j = k
      · subst hj
        cases rest.reverse.lookup j <;> simp
      · cases rest.reverse.lookup j <;> simp [lookup_cons_of_ne, hj]

/-- The last entry of a key is the one that stays. -/
theorem find?_ofAssigned (l : List (κ × ν)) (j : κ) :
  (ofAssigned l).find? j = l.reverse.lookup j
  := by
  rw [ofAssigned, find?_foldl_assign, find?_empty, Option.or_none]

/-- The first and the last entry of every key have the same value. -/
def FirstIsLast (l : List (κ × ν)) : Prop := ∀ k, l.lookup k = l.reverse.lookup k

/-- It makes no difference whether the first or the last entries stay exactly when they have the
same values. -/
theorem ofEntries_eq_ofAssigned_iff (l : List (κ × ν)) :
  ofEntries l = ofAssigned l ↔ FirstIsLast l
  := by
  constructor
  · intro h k
    rw [← find?_ofEntries, ← find?_ofAssigned, h]
  · intro h
    apply ext_find?
    intro k
    rw [find?_ofEntries, find?_ofAssigned, h]

/-- The first entry of a key, in a list whose keys are renamed injectively. -/
theorem lookup_map_iff
    {κ' ν' : Type} [LinearOrder κ'] {f : κ → κ'} (hf : Function.Injective f) (g : ν → ν')
    (l : List (κ × ν)) (key : κ') (value : ν') :
  (l.map (Prod.map f g)).lookup key = some value
    ↔ ∃ k v, l.lookup k = some v ∧ f k = key ∧ g v = value
  := by
  induction l with
  | nil => simp
  | cons e l ih =>
      obtain ⟨k, v⟩ := e
      rw [List.map_cons]
      by_cases hkey : key = f k
      · subst hkey
        rw [Prod.map_apply, List.lookup_cons_self, Option.some.injEq]
        constructor
        · intro hv
          use k, v
          simpa using hv
        · rintro ⟨k', v', hlookup, hk, hv⟩
          have hk' := hf hk
          subst hk'
          rw [List.lookup_cons_self] at hlookup
          cases hlookup
          exact hv
      · have hne : ∀ k', f k' = key → k' ≠ k := by
          rintro k' hk rfl
          exact hkey hk.symm
        rw [Prod.map_apply, lookup_cons_of_ne hkey, ih]
        constructor
        · rintro ⟨k', v', hlookup, hk, hv⟩
          use k', v'
          rw [lookup_cons_of_ne (hne k' hk)]
          exact ⟨hlookup, hk, hv⟩
        · rintro ⟨k', v', hlookup, hk, hv⟩
          use k', v'
          rw [lookup_cons_of_ne (hne k' hk)] at hlookup
          exact ⟨hlookup, hk, hv⟩

theorem find?_ofEntries_eq_some_iff
    {l : List (κ × ν)} (h : (l.map Prod.fst).Nodup) (k : κ) (v : ν) :
  (ofEntries l).find? k = some v ↔ (k, v) ∈ l
  := by
  rw [find?_ofEntries, lookup_eq_some_iff_mem h]

theorem find?_ofAssigned_eq_some_iff
    {l : List (κ × ν)} (h : (l.map Prod.fst).Nodup) (k : κ) (v : ν) :
  (ofAssigned l).find? k = some v ↔ (k, v) ∈ l
  := by
  have hreverse : (l.reverse.map Prod.fst).Nodup := by
    rw [List.map_reverse, List.nodup_reverse]
    exact h
  rw [find?_ofAssigned, lookup_eq_some_iff_mem hreverse, List.mem_reverse]

/-- The entries of a map, emplaced in order, give the map. -/
@[simp]
theorem ofEntries_entries (m : SortedMap κ ν) :
  ofEntries m.entries = m
  := by
  apply ext_find?
  intro k
  rw [find?_ofEntries]
  rfl

theorem nodup_entries (m : SortedMap κ ν) :
  m.entries.Nodup
  := m.nodup_keys.of_map

/-- The entries of a map are the pairs that its lookups find, in some order. -/
theorem perm_entries
    {m : SortedMap κ ν} {l : List (κ × ν)} (hl : l.Nodup)
    (h : ∀ k v, m.find? k = some v ↔ (k, v) ∈ l) :
  m.entries.Perm l
  := by
  rw [List.perm_ext_iff_of_nodup m.nodup_entries hl]
  rintro ⟨k, v⟩
  rw [mem_entries_iff, h]

theorem perm_ofEntries {l : List (κ × ν)} (h : (l.map Prod.fst).Nodup) :
  (ofEntries l).entries.Perm l
  := perm_entries h.of_map (find?_ofEntries_eq_some_iff h)

theorem perm_ofAssigned {l : List (κ × ν)} (h : (l.map Prod.fst).Nodup) :
  (ofAssigned l).entries.Perm l
  := perm_entries h.of_map (find?_ofAssigned_eq_some_iff h)

end SortedMap
