import MadreKernel.Kernel.Reservations

/-!
# When a reservation is granted

`can_ever_reserve` compares a requirement with the capacity, and `try_reserve` with what the
recorded use leaves of it.  Whatever reservations and releases came before, `try_reserve` grants a
requirement exactly when it fits the capacity beside the outstanding leases, and `can_ever_reserve`
answers whether it fits beside none.

A call that is refused may leave an entry without use in the map of the GPUs.  No later call answers
otherwise for it.
-/

namespace Kernel

/-- A requirement fits a capacity beside some others. -/
structure FitsBeside (capacity : ResourceCapacity) (rs : List ResourceRequirement)
    (r : ResourceRequirement) : Prop where
  cpu : r.cpuSlots.toInt + (rs.map (·.cpuSlots.toInt)).sum ≤ capacity.cpuSlots.toInt
  ram : r.ramBytes.toNat + (rs.map (·.ramBytes.toNat)).sum ≤ capacity.ramBytes.toNat
  vram : r.gpuId ≠ [] → ∃ vram, capacity.gpuVramBytes.find? r.gpuId = some vram
    ∧ r.gpuVramBytes.toNat + vramOf rs r.gpuId ≤ vram.toNat

/-- What fits beside some requirements fits alone. -/
theorem FitsBeside.alone
    {capacity : ResourceCapacity} {rs : List ResourceRequirement} {r : ResourceRequirement}
    (h : FitsBeside capacity rs r)
    (hvalid : ∀ r ∈ rs, ResourceManager.validateRequirement r = .ok ()) :
  FitsBeside capacity [] r
  := by
  have hcpu := h.cpu
  have hram := h.ram
  have hnonneg := ResourceManager.cpu_sum_nonneg hvalid
  constructor
  · rw [List.map_nil, List.sum_nil]
    omega
  · rw [List.map_nil, List.sum_nil]
    omega
  · intro hgpu
    obtain ⟨vram, hvram, hfits⟩ := h.vram hgpu
    exact ⟨vram, hvram, Nat.le_trans (Nat.le_add_right _ _) hfits⟩

namespace ResourceManager

/-- Whether a valid requirement is granted. -/
def grants (m : ResourceManager) (r : ResourceRequirement) : Bool :=
  r.cpuSlots ≤ m.capacity.cpuSlots - m.cpuUsed && r.ramBytes ≤ m.capacity.ramBytes - m.ramUsed
    && (r.gpuId = [] || (m.capacity.gpuVramBytes.find? r.gpuId).any fun capacity =>
      r.gpuVramBytes ≤ capacity - m.vramUsed r.gpuId)

/-- `try_reserve` grants a requirement that is valid and fits what is free. -/
theorem tryReserve_map_fst (m : ResourceManager) (r : ResourceRequirement) :
  (m.tryReserve r).map Prod.fst = (validateRequirement r).map fun _ => m.grants r
  := by
  have hfull : (decide (r.cpuSlots ≤ m.capacity.cpuSlots - m.cpuUsed)
      && decide (r.ramBytes ≤ m.capacity.ramBytes - m.ramUsed))
      = !(decide (r.cpuSlots > m.capacity.cpuSlots - m.cpuUsed)
        || decide (r.ramBytes > m.capacity.ramBytes - m.ramUsed)) := by
    simp only [gt_iff_lt, ← Int32.not_le, ← UInt64.not_le, decide_not, Bool.not_or, Bool.not_not]
  rw [tryReserve, grants, hfull]
  cases validateRequirement r with
  | error e => rfl
  | ok u =>
      simp only
      split_ifs with hover hgpu
      · rw [hover]
        rfl
      · rw [Bool.not_eq_true] at hover
        rw [hover, decide_eq_true hgpu]
        rfl
      · rw [Bool.not_eq_true] at hover
        rw [hover, decide_eq_false hgpu]
        cases m.capacity.gpuVramBytes.find? r.gpuId with
        | none => rfl
        | some capacity =>
            have hvram : decide (r.gpuVramBytes ≤ capacity - m.vramUsed r.gpuId)
                = !decide (r.gpuVramBytes > capacity - m.vramUsed r.gpuId) := by
              simp only [gt_iff_lt, ← UInt64.not_le, decide_not, Bool.not_not]
            simp only [Option.any_some, hvram]
            rw [vramUsed]
            split_ifs with hlarge
            · rw [decide_eq_true hlarge]
              rfl
            · rw [decide_eq_false hlarge]
              rfl

theorem tryReserve_of_valid
    (m : ResourceManager) {r : ResourceRequirement} (hr : validateRequirement r = .ok ()) :
  ∃ m', m.tryReserve r = .ok (m.grants r, m')
  := by
  have hmap := m.tryReserve_map_fst r
  rw [hr] at hmap
  cases hcall : m.tryReserve r with
  | error e =>
      rw [hcall] at hmap
      cases hmap
  | ok result =>
      rw [hcall] at hmap
      have hgrants : result.1 = m.grants r := Except.ok.inj hmap
      rw [← hgrants]
      exact ⟨result.2, rfl⟩

/-- A valid requirement is granted exactly when it fits beside what is held. -/
theorem Holds.grants_iff
    {m : ResourceManager} {rs : List ResourceRequirement} (h : m.Holds rs)
    (r : ResourceRequirement) :
  m.grants r = true ↔ FitsBeside m.capacity rs r
  := by
  obtain ⟨hcpu, hram, hvram⟩ := h.free
  have hcpuUsed := h.cpu
  have hramUsed := h.ram
  have hramLe := h.ram_le
  have hcpuIff : r.cpuSlots ≤ m.capacity.cpuSlots - m.cpuUsed
      ↔ r.cpuSlots.toInt + (rs.map (·.cpuSlots.toInt)).sum ≤ m.capacity.cpuSlots.toInt := by
    rw [Int32.le_iff_toInt_le, hcpu]
    omega
  have hramIff : r.ramBytes ≤ m.capacity.ramBytes - m.ramUsed
      ↔ r.ramBytes.toNat + (rs.map (·.ramBytes.toNat)).sum ≤ m.capacity.ramBytes.toNat := by
    rw [UInt64.le_iff_toNat_le, hram]
    omega
  have hvramIff : ∀ capacity, m.capacity.gpuVramBytes.find? r.gpuId = some capacity →
      (r.gpuVramBytes ≤ capacity - m.vramUsed r.gpuId
        ↔ r.gpuVramBytes.toNat + vramOf rs r.gpuId ≤ capacity.toNat) := by
    intro capacity hcapacity
    have hnamed : m.vramCapacity r.gpuId = capacity := by
      rw [vramCapacity, hcapacity, Option.getD_some]
    have hfree := hvram r.gpuId
    have hle := h.vram_le r.gpuId
    have hused := h.vram r.gpuId
    rw [hnamed] at hfree hle
    rw [UInt64.le_iff_toNat_le, hfree]
    omega
  simp only [grants, Bool.and_eq_true, Bool.or_eq_true, decide_eq_true_eq, Option.any_eq_true]
  constructor
  · rintro ⟨⟨hcpuFits, hramFits⟩, hgpu⟩
    constructor
    · exact hcpuIff.mp hcpuFits
    · exact hramIff.mp hramFits
    · intro hne
      obtain ⟨capacity, hcapacity, hfits⟩ := hgpu.resolve_left hne
      exact ⟨capacity, hcapacity, (hvramIff capacity hcapacity).mp hfits⟩
  · intro hfits
    refine ⟨⟨hcpuIff.mpr hfits.cpu, hramIff.mpr hfits.ram⟩, ?_⟩
    by_cases hgpu : r.gpuId = []
    · exact Or.inl hgpu
    · obtain ⟨capacity, hcapacity, hvramFits⟩ := hfits.vram hgpu
      exact Or.inr ⟨capacity, hcapacity, (hvramIff capacity hcapacity).mpr hvramFits⟩

/-- `can_ever_reserve` is `try_reserve` of a manager without reservations. -/
theorem canEverReserve_eq (m : ResourceManager) (r : ResourceRequirement) :
  m.canEverReserve r = ((ofCapacity m.capacity).tryReserve r).map Prod.fst
  := by
  rw [canEverReserve, tryReserve]
  cases validateRequirement r with
  | error e => rfl
  | ok u =>
      simp only [ofCapacity, Int32.sub_zero, UInt64.sub_zero]
      split_ifs with hover hgpu
      · rfl
      · rfl
      · cases m.capacity.gpuVramBytes.find? r.gpuId with
        | none => rfl
        | some capacity =>
            simp only [SortedMap.find?_empty, Option.getD_none, UInt64.sub_zero]
            split_ifs with hlarge
            · rw [decide_eq_false (UInt64.not_le.mpr hlarge)]
              rfl
            · rw [decide_eq_true (UInt64.not_lt.mp hlarge)]
              rfl

theorem Holds.ofCapacity {m : ResourceManager} {rs : List ResourceRequirement} (h : m.Holds rs) :
  (ofCapacity m.capacity).Holds []
  := by
  have hnonneg := Int.le_trans h.cpu_nonneg h.cpu_le
  constructor
  · rfl
  · exact hnonneg
  · rfl
  · exact Nat.zero_le _
  · exact fun _ => rfl
  · exact fun _ => Nat.zero_le _
  · exact List.forall_mem_nil _

/-- `can_ever_reserve` answers whether a valid requirement fits the capacity. -/
theorem Holds.canEverReserve
    {m : ResourceManager} {rs : List ResourceRequirement} (h : m.Holds rs)
    {r : ResourceRequirement} (hr : validateRequirement r = .ok ()) :
  ∃ fits, m.canEverReserve r = .ok fits ∧ (fits = true ↔ FitsBeside m.capacity [] r)
  := by
  refine ⟨_, ?_, h.ofCapacity.grants_iff r⟩
  rw [canEverReserve_eq, tryReserve_map_fst, hr]
  rfl

end ResourceManager

namespace Reservations

/-! ### Managers that answer alike -/

/-- Two states with the same leases, whose managers record the same use. -/
structure Alike (capacity : ResourceCapacity) (s t : Reservations) : Prop where
  left : s.Conserved capacity
  right : t.Conserved capacity
  cpuUsed : t.manager.cpuUsed = s.manager.cpuUsed
  ramUsed : t.manager.ramUsed = s.manager.ramUsed
  vramUsed : ∀ gpu, t.manager.vramUsed gpu = s.manager.vramUsed gpu
  leases : t.leases = s.leases
  granted : t.granted = s.granted
  released : t.released = s.released

variable {capacity : ResourceCapacity} {s t : Reservations}

theorem Alike.grants (h : Alike capacity s t) (r : ResourceRequirement) :
  t.manager.grants r = s.manager.grants r
  := by
  simp only [ResourceManager.grants, h.cpuUsed, h.ramUsed, h.vramUsed, h.left.capacity_eq,
    h.right.capacity_eq]

/-- A call that both managers answer alike leaves them alike. -/
theorem Alike.tryReserve (h : Alike capacity s t) (r : ResourceRequirement) :
  Option.Rel (Alike capacity) (s.step (.tryReserve r)) (t.step (.tryReserve r))
  := by
  have hmap : (t.manager.tryReserve r).map Prod.fst = (s.manager.tryReserve r).map Prod.fst := by
    rw [ResourceManager.tryReserve_map_fst, ResourceManager.tryReserve_map_fst, h.grants]
  cases hs : s.manager.tryReserve r with
  | error e =>
      cases ht : t.manager.tryReserve r with
      | error e' =>
          simp only [step, hs, ht]
          exact .some h
      | ok result =>
          rw [hs, ht] at hmap
          cases hmap
  | ok result =>
      cases ht : t.manager.tryReserve r with
      | error e' =>
          rw [hs, ht] at hmap
          cases hmap
      | ok result' =>
          obtain ⟨granted, m⟩ := result
          obtain ⟨granted', m'⟩ := result'
          rw [hs, ht] at hmap
          obtain rfl : granted' = granted := Except.ok.inj hmap
          cases granted' with
          | false =>
              have hs' : s.step (.tryReserve r) = some { s with manager := m } := by
                rw [step, hs]
              have ht' : t.step (.tryReserve r) = some { t with manager := m' } := by
                rw [step, ht]
              obtain ⟨-, hcpu, hram, hvram⟩ := ResourceManager.tryReserve_false hs
              obtain ⟨-, hcpu', hram', hvram'⟩ := ResourceManager.tryReserve_false ht
              rw [hs', ht']
              apply Option.Rel.some
              constructor
              · exact h.left.step hs'
              · exact h.right.step ht'
              · exact hcpu'.trans (h.cpuUsed.trans hcpu.symm)
              · exact hram'.trans (h.ramUsed.trans hram.symm)
              · exact fun gpu => (hvram' gpu).trans ((h.vramUsed gpu).trans (hvram gpu).symm)
              · exact h.leases
              · exact h.granted
              · exact h.released
          | true =>
              have hs' := h.left.grant hs
              have ht' := h.right.grant ht
              obtain ⟨-, -, -, -, -, hcpu, hram, hvram⟩ := ResourceManager.tryReserve_true hs
              obtain ⟨-, -, -, -, -, hcpu', hram', hvram'⟩ := ResourceManager.tryReserve_true ht
              simp only [step, hs, ht]
              apply Option.Rel.some
              constructor
              · exact hs'
              · exact ht'
              · rw [hcpu, hcpu', h.cpuUsed]
              · rw [hram, hram', h.ramUsed]
              · intro gpu
                rw [hvram, hvram', h.vramUsed]
              · simp only [h.leases, h.granted]
              · simp only [h.granted]
              · exact h.released

/-- An operation on the leases leaves both managers alike. -/
theorem Alike.lease (h : Alike capacity s t) (operation : Handles.Operation) :
  Option.Rel (Alike capacity) (s.step (.lease operation)) (t.step (.lease operation))
  := by
  rw [step, step, h.leases]
  cases hstep : s.leases.step operation with
  | none => exact .none
  | some result =>
      obtain ⟨leases, given⟩ := result
      have hstep' : t.leases.step operation = some (leases, given) := by
        rw [h.leases, hstep]
      have hleft := h.left.reset hstep
      have hright := h.right.reset hstep'
      apply Option.Rel.some
      cases given with
      | none => exact ⟨hleft, hright, h.cpuUsed, h.ramUsed, h.vramUsed, rfl, h.granted, h.released⟩
      | some reservation =>
          have hperm := (Handles.step_owned hstep).map (·.requirement)
          have hperm' := (Handles.step_owned hstep').map (·.requirement)
          constructor
          · exact hleft
          · exact hright
          · simp only [reset, ResourceManager.release, h.cpuUsed]
          · simp only [reset, ResourceManager.release, h.ramUsed]
          · intro gpu
            -- both find the entry of the GPU, since both hold the requirement
            have hholds := (h.left.holds.perm hperm.symm).release_vramUsed gpu
            have hholds' := (h.right.holds.perm hperm'.symm).release_vramUsed gpu
            simp only [reset]
            rw [hholds, hholds', h.vramUsed]
          · rfl
          · exact h.granted
          · simp only [reset, h.released]

theorem Alike.step (h : Alike capacity s t) (call : Call) :
  Option.Rel (Alike capacity) (s.step call) (t.step call)
  := by
  cases call with
  | tryReserve r => exact h.tryReserve r
  | lease operation => exact h.lease operation

/-- What the two calls would answer about a requirement. -/
def answers (s : Reservations) (r : ResourceRequirement) : Except Bytes Bool × Except Bytes Bool :=
  ((s.manager.tryReserve r).map Prod.fst, s.manager.canEverReserve r)

theorem Alike.answers (h : Alike capacity s t) :
  t.answers = s.answers
  := by
  funext r
  rw [Reservations.answers, Reservations.answers, ResourceManager.tryReserve_map_fst,
    ResourceManager.tryReserve_map_fst, h.grants, ResourceManager.canEverReserve_eq,
    ResourceManager.canEverReserve_eq, h.left.capacity_eq, h.right.capacity_eq]

/-- A call that is refused leaves the state alike. -/
theorem Conserved.alike_of_refused
    (h : s.Conserved capacity) {r : ResourceRequirement} {manager : ResourceManager}
    (hrefused : s.manager.tryReserve r = .ok (false, manager)) :
  Alike capacity s { s with manager }
  := by
  have hstep : s.step (.tryReserve r) = some { s with manager } := by
    rw [Reservations.step, hrefused]
  obtain ⟨-, hcpu, hram, hvram⟩ := ResourceManager.tryReserve_false hrefused
  exact ⟨h, h.step hstep, hcpu, hram, hvram, rfl, rfl, rfl⟩

/-- In every reachable state `can_ever_reserve` answers whether a valid requirement fits the
capacity, and `try_reserve` whether it fits beside the outstanding leases; and a call that is
refused can be left out of any history. -/
theorem can_ever_reserve_exact
    (h : (reservations capacity).Reachable s) {r : ResourceRequirement}
    (hr : ResourceManager.validateRequirement r = .ok ()) :
  (s.manager.canEverReserve r = .ok false → ∃ m, s.manager.tryReserve r = .ok (false, m))
    ∧ (s.manager.canEverReserve r = .ok true → s.outstanding = [] →
      ∃ m, s.manager.tryReserve r = .ok (true, m))
    ∧ (∃ fits, s.manager.canEverReserve r = .ok fits
      ∧ (fits = true ↔ FitsBeside capacity [] r))
    ∧ (∃ granted m, s.manager.tryReserve r = .ok (granted, m)
      ∧ (granted = true ↔ FitsBeside capacity s.outstanding r))
    ∧ ∀ m, s.manager.tryReserve r = .ok (false, m) → ∀ calls,
      ((reservations capacity).run s (.tryReserve r :: calls)).map answers
        = ((reservations capacity).run s calls).map answers
  := by
  have hconserved := reachable_conserved h
  obtain ⟨fits, hever, hfits⟩ := hconserved.holds.canEverReserve hr
  obtain ⟨m, hcall⟩ := s.manager.tryReserve_of_valid hr
  have hgrants := hconserved.holds.grants_iff r
  rw [hconserved.capacity_eq] at hfits hgrants
  refine ⟨?_, ?_, ⟨fits, hever, hfits⟩, ⟨_, m, hcall, hgrants⟩, ?_⟩
  · intro hnever
    rw [hever] at hnever
    cases hnever
    have hrefused : s.manager.grants r = false := by
      rw [← Bool.not_eq_true, hgrants]
      intro hbeside
      cases hfits.mpr (hbeside.alone hconserved.holds.valid)
    rw [hrefused] at hcall
    exact ⟨m, hcall⟩
  · intro halways hnone
    rw [hever] at halways
    cases halways
    rw [hnone] at hgrants
    rw [hgrants.mpr (hfits.mp rfl)] at hcall
    exact ⟨m, hcall⟩
  · intro manager hrefused calls
    have hstep : (reservations capacity).step s (.tryReserve r) = some { s with manager } := by
      simp only [reservations, Reservations.step, hrefused]
    have hrelated := Machine.run_related (m := reservations capacity) (fun h call => h.step call)
      (hconserved.alike_of_refused hrefused) calls
    rw [Machine.run, hstep, Option.bind_some]
    generalize (reservations capacity).run s calls = s',
      (reservations capacity).run { s with manager } calls = t' at hrelated
    cases hrelated with
    | none => rfl
    | some halike => exact congrArg some halike.answers

/-- A requirement that fits the sample machine, but not beside the reservation that is left. -/
theorem can_ever_reserve_exact_beside :
  ∃ s₀ s m, (reservations sampleCapacity).init s₀
    ∧ (reservations sampleCapacity).run s₀ sampleCalls = some s
    ∧ FitsBeside sampleCapacity [] ⟨1, 100, Bytes.ofString "gpu0", 60⟩
    ∧ ¬ FitsBeside sampleCapacity s.outstanding ⟨1, 100, Bytes.ofString "gpu0", 60⟩
    ∧ s.manager.tryReserve ⟨1, 100, Bytes.ofString "gpu0", 60⟩ = .ok (false, m)
    ∧ ∀ calls, ((reservations sampleCapacity).run s
          (.tryReserve ⟨1, 100, Bytes.ofString "gpu0", 60⟩ :: calls)).map answers
        = ((reservations sampleCapacity).run s calls).map answers
  := by
  have hinit : (reservations sampleCapacity).init
      ⟨.ofCapacity sampleCapacity, Handles.empty, 0, []⟩ := ⟨_, rfl, rfl⟩
  obtain ⟨s, hrun⟩ : ∃ s, (reservations sampleCapacity).run
      ⟨.ofCapacity sampleCapacity, Handles.empty, 0, []⟩ sampleCalls = some s := ⟨_, rfl⟩
  have hvalid : ResourceManager.validateRequirement ⟨1, 100, Bytes.ofString "gpu0", 60⟩ = .ok () :=
    rfl
  obtain ⟨-, -, ⟨fits, hever, hfits⟩, ⟨granted, m, hcall, hgranted⟩, hlater⟩ :=
    can_ever_reserve_exact ⟨_, _, hinit, hrun⟩ hvalid
  cases hrun
  cases hever
  cases hcall
  refine ⟨_, _, _, hinit, rfl, hfits.mp rfl, ?_, rfl, hlater _ rfl⟩
  intro hbeside
  cases hgranted.mpr hbeside

end Reservations

end Kernel
