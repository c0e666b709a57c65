import MadreKernel.Kernel.Resources
import MadreKernel.Lib.Handles
import MadreKernel.Lib.Machine
import Mathlib.Algebra.Order.BigOperators.Group.List

/-!
# Reservations

A `ResourceManager` with the `Lease` objects that its reservations live in.  Whatever the order
in which requirements are reserved and leases are moved, assigned and destroyed, the accounting
is the exact sum of what the outstanding leases hold, and it stays within the capacity.
-/

namespace Kernel

namespace ResourceManager

/-- The constructor of `ResourceManager`. -/
def create (capacity : ResourceCapacity) : Except Bytes ResourceManager :=
  if capacity.cpuSlots < 1 || capacity.ramBytes = 0 then
    .error (Bytes.ofString "resource capacity must provide positive CPU and RAM")
  else .ok (ofCapacity capacity)

/-- The recorded VRAM use of a GPU, which is 0 when there is no entry. -/
def vramUsed (m : ResourceManager) (gpu : Bytes) : UInt64 := (m.gpuVramUsed.find? gpu).getD 0

/-- The VRAM of a GPU, which is 0 when the capacity does not name it. -/
def vramCapacity (m : ResourceManager) (gpu : Bytes) : UInt64 :=
  (m.capacity.gpuVramBytes.find? gpu).getD 0

end ResourceManager

/-- The VRAM that a list of requirements declares for a GPU. -/
def vramOf (rs : List ResourceRequirement) (gpu : Bytes) : Nat :=
  ((rs.filter (·.gpuId = gpu)).map (·.gpuVramBytes.toNat)).sum

namespace ResourceManager

/-- The accounting is the sum of a list of requirements, within the capacity. -/
structure Holds (m : ResourceManager) (rs : List ResourceRequirement) : Prop where
  cpu : m.cpuUsed.toInt = (rs.map (·.cpuSlots.toInt)).sum
  cpu_le : m.cpuUsed.toInt ≤ m.capacity.cpuSlots.toInt
  ram : m.ramUsed.toNat = (rs.map (·.ramBytes.toNat)).sum
  ram_le : m.ramUsed.toNat ≤ m.capacity.ramBytes.toNat
  vram : ∀ gpu, (m.vramUsed gpu).toNat = vramOf rs gpu
  vram_le : ∀ gpu, (m.vramUsed gpu).toNat ≤ (m.vramCapacity gpu).toNat
  valid : ∀ r ∈ rs, validateRequirement r = .ok ()

/-- The arithmetic of `try_reserve` does not wrap. -/
structure ReserveExact (m : ResourceManager) (r : ResourceRequirement) : Prop where
  cpu_free : (m.capacity.cpuSlots - m.cpuUsed).toInt
    = m.capacity.cpuSlots.toInt - m.cpuUsed.toInt
  ram_free : ((m.capacity.ramBytes - m.ramUsed).toNat : Int)
    = m.capacity.ramBytes.toNat - m.ramUsed.toNat
  vram_free : ∀ capacity, m.capacity.gpuVramBytes.find? r.gpuId = some capacity →
    ((capacity - m.vramUsed r.gpuId).toNat : Int)
      = capacity.toNat - (m.vramUsed r.gpuId).toNat
  added : ∀ m', m.tryReserve r = .ok (true, m') →
    m'.cpuUsed.toInt = m.cpuUsed.toInt + r.cpuSlots.toInt
      ∧ m'.ramUsed.toNat = m.ramUsed.toNat + r.ramBytes.toNat
      ∧ (m'.vramUsed r.gpuId).toNat = (m.vramUsed r.gpuId).toNat + r.gpuVramBytes.toNat

/-- The arithmetic of `release` does not wrap, and it finds the entry of the GPU. -/
structure ReleaseExact (m : ResourceManager) (r : ResourceRequirement) : Prop where
  cpu : (m.cpuUsed - r.cpuSlots).toInt = m.cpuUsed.toInt - r.cpuSlots.toInt
  ram : ((m.ramUsed - r.ramBytes).toNat : Int) = m.ramUsed.toNat - r.ramBytes.toNat
  vram : r.gpuId ≠ [] → ∃ used, m.gpuVramUsed.find? r.gpuId = some used
    ∧ ((used - r.gpuVramBytes).toNat : Int) = used.toNat - r.gpuVramBytes.toNat

/-! ### What a requirement adds -/

theorem valid_cpu_pos {r : ResourceRequirement} (h : validateRequirement r = .ok ()) :
  0 < r.cpuSlots.toInt
  := by
  rw [validateRequirement] at h
  split_ifs at h with hpos
  simp only [Bool.or_eq_true, decide_eq_true_eq, not_or, Int32.not_lt,
    Int32.le_iff_toInt_le] at hpos
  have hone : (1 : Int32).toInt = 1 := rfl
  omega

/-- A requirement names a GPU when it declares VRAM. -/
theorem valid_vram {r : ResourceRequirement} (h : validateRequirement r = .ok ()) :
  r.gpuId = [] ↔ r.gpuVramBytes = 0
  := by
  rw [validateRequirement] at h
  split_ifs at h with hpos hgpu
  simpa using hgpu

theorem vramOf_cons (r : ResourceRequirement) (rs : List ResourceRequirement) (gpu : Bytes) :
  vramOf (r :: rs) gpu = (if r.gpuId = gpu then r.gpuVramBytes.toNat else 0) + vramOf rs gpu
  := by
  by_cases h : r.gpuId = gpu
  · simp [vramOf, h]
  · simp [vramOf, h]

theorem vramOf_perm {rs rs' : List ResourceRequirement} (h : rs.Perm rs') (gpu : Bytes) :
  vramOf rs gpu = vramOf rs' gpu
  := ((h.filter _).map _).sum_eq

theorem Holds.perm
    {m : ResourceManager} {rs rs' : List ResourceRequirement} (h : m.Holds rs)
    (hperm : rs.Perm rs') :
  m.Holds rs'
  where
  cpu := h.cpu.trans (hperm.map _).sum_eq
  cpu_le := h.cpu_le
  ram := h.ram.trans (hperm.map _).sum_eq
  ram_le := h.ram_le
  vram gpu := (h.vram gpu).trans (vramOf_perm hperm gpu)
  vram_le := h.vram_le
  valid r hr := h.valid r (hperm.mem_iff.mpr hr)

theorem cpu_sum_nonneg
    {rs : List ResourceRequirement} (h : ∀ r ∈ rs, validateRequirement r = .ok ()) :
  0 ≤ (rs.map (·.cpuSlots.toInt)).sum
  := by
  apply List.sum_nonneg
  intro x hx
  obtain ⟨r, hr, rfl⟩ := List.mem_map.mp hx
  exact (valid_cpu_pos (h r hr)).le

theorem Holds.cpu_nonneg {m : ResourceManager} {rs : List ResourceRequirement} (h : m.Holds rs) :
  0 ≤ m.cpuUsed.toInt
  := by
  rw [h.cpu]
  apply cpu_sum_nonneg h.valid

/-- Nothing is held before the first reservation. -/
theorem holds_create
    {capacity : ResourceCapacity} {m : ResourceManager} (h : create capacity = .ok m) :
  m.Holds []
  := by
  rw [create] at h
  split_ifs at h with hpos
  cases h
  simp only [Bool.or_eq_true, decide_eq_true_eq, not_or, Int32.not_lt,
    Int32.le_iff_toInt_le] at hpos
  have hone : (1 : Int32).toInt = 1 := rfl
  constructor
  · rfl
  · have hzero : (ofCapacity capacity).cpuUsed.toInt = 0 := rfl
    simp only [ofCapacity] at hzero ⊢
    omega
  · rfl
  · apply Nat.zero_le
  · intro gpu
    rfl
  · intro gpu
    apply Nat.zero_le
  · simp

/-! ### Reserving -/

/-- A reservation that is refused changes no recorded use. -/
theorem tryReserve_false
    {m m' : ResourceManager} {r : ResourceRequirement} (h : m.tryReserve r = .ok (false, m')) :
  m'.capacity = m.capacity ∧ m'.cpuUsed = m.cpuUsed ∧ m'.ramUsed = m.ramUsed
    ∧ ∀ gpu, m'.vramUsed gpu = m.vramUsed gpu
  := by
  have hlooked : ∀ gpu, ((m.gpuVramUsed.emplace r.gpuId 0).find? gpu).getD 0
      = m.vramUsed gpu := by
    intro gpu
    rw [SortedMap.find?_emplace, vramUsed]
    split_ifs with hgpu
    · rw [hgpu, Option.getD_some]
    · rfl
  rw [tryReserve] at h
  split at h
  · cases h
  · split_ifs at h with hfull hgpu
    · cases h
      exact ⟨rfl, rfl, rfl, fun _ => rfl⟩
    · cases h
    · split at h
      · cases h
        exact ⟨rfl, rfl, rfl, fun _ => rfl⟩
      · simp only at h
        split_ifs at h
        · cases h
          exact ⟨rfl, rfl, rfl, hlooked⟩
        · cases h

/-- A reservation that is granted fits what is free, and is added to the recorded use. -/
theorem tryReserve_true
    {m m' : ResourceManager} {r : ResourceRequirement} (h : m.tryReserve r = .ok (true, m')) :
  validateRequirement r = .ok ()
    ∧ r.cpuSlots ≤ m.capacity.cpuSlots - m.cpuUsed
    ∧ r.ramBytes ≤ m.capacity.ramBytes - m.ramUsed
    ∧ (r.gpuId ≠ [] → ∃ capacity, m.capacity.gpuVramBytes.find? r.gpuId = some capacity
      ∧ r.gpuVramBytes ≤ capacity - m.vramUsed r.gpuId)
    ∧ m'.capacity = m.capacity ∧ m'.cpuUsed = m.cpuUsed + r.cpuSlots
    ∧ m'.ramUsed = m.ramUsed + r.ramBytes
    ∧ ∀ gpu, m'.vramUsed gpu
      = if gpu = r.gpuId then m.vramUsed gpu + r.gpuVramBytes else m.vramUsed gpu
  := by
  rw [tryReserve] at h
  split at h
  · cases h
  next hvalid =>
    split_ifs at h with hfull hgpu
    · cases h
    · simp only [Bool.or_eq_true, decide_eq_true_eq, not_or, gt_iff_lt, Int32.not_lt,
        UInt64.not_lt] at hfull
      cases h
      refine ⟨hvalid, hfull.1, hfull.2, fun hne => absurd hgpu hne, rfl, rfl, rfl, ?_⟩
      intro gpu
      rw [(valid_vram hvalid).mp hgpu, UInt64.add_zero, ite_self, vramUsed, reserve, if_pos hgpu]
      rfl
    · simp only [Bool.or_eq_true, decide_eq_true_eq, not_or, gt_iff_lt, Int32.not_lt,
        UInt64.not_lt] at hfull
      split at h
      · cases h
      next capacity hcapacity =>
        simp only at h
        split_ifs at h with hvram
        · cases h
        cases h
        rw [gt_iff_lt, UInt64.not_lt] at hvram
        refine ⟨hvalid, hfull.1, hfull.2, fun _ => ⟨capacity, hcapacity, hvram⟩, rfl, rfl, rfl, ?_⟩
        intro gpu
        simp only [vramUsed, reserve, if_neg hgpu, SortedMap.find?_assign,
          SortedMap.find?_emplace, if_true, Option.getD_some]
        split_ifs with hsame
        · rw [hsame, Option.getD_some]
        · rfl

/-- The subtractions of `try_reserve` do not wrap. -/
theorem Holds.free
    {m : ResourceManager} {rs : List ResourceRequirement} (h : m.Holds rs) :
  (m.capacity.cpuSlots - m.cpuUsed).toInt = m.capacity.cpuSlots.toInt - m.cpuUsed.toInt
    ∧ (m.capacity.ramBytes - m.ramUsed).toNat = m.capacity.ramBytes.toNat - m.ramUsed.toNat
    ∧ ∀ gpu, (m.vramCapacity gpu - m.vramUsed gpu).toNat
      = (m.vramCapacity gpu).toNat - (m.vramUsed gpu).toNat
  := by
  refine ⟨?_, ?_, ?_⟩
  · have hle := h.cpu_le
    have hnonneg := h.cpu_nonneg
    have hbound := Int32.toInt_lt m.capacity.cpuSlots
    rw [Int32.toInt_sub]
    apply Int.bmod_eq_of_le
    · omega
    · omega
  · apply UInt64.toNat_sub_of_le
    apply UInt64.le_iff_toNat_le.mpr h.ram_le
  · intro gpu
    apply UInt64.toNat_sub_of_le
    apply UInt64.le_iff_toNat_le.mpr (h.vram_le gpu)

/-- What a granted reservation adds, without wrapping. -/
theorem Holds.added
    {m m' : ResourceManager} {rs : List ResourceRequirement} {r : ResourceRequirement}
    (h : m.Holds rs) (hgrant : m.tryReserve r = .ok (true, m')) :
  m'.cpuUsed.toInt = m.cpuUsed.toInt + r.cpuSlots.toInt
    ∧ m'.cpuUsed.toInt ≤ m.capacity.cpuSlots.toInt
    ∧ m'.ramUsed.toNat = m.ramUsed.toNat + r.ramBytes.toNat
    ∧ m'.ramUsed.toNat ≤ m.capacity.ramBytes.toNat
  := by
  obtain ⟨hvalid, hcpu, hram, -, -, hcpu', hram', -⟩ := tryReserve_true hgrant
  obtain ⟨hcpuFree, hramFree, -⟩ := h.free
  rw [Int32.le_iff_toInt_le, hcpuFree] at hcpu
  rw [UInt64.le_iff_toNat_le, hramFree] at hram
  have hnonneg := h.cpu_nonneg
  have hpos := valid_cpu_pos hvalid
  have hcpuBound := Int32.toInt_lt m.capacity.cpuSlots
  have hramBound := UInt64.toNat_lt m.capacity.ramBytes
  have hramLe := h.ram_le
  have hcpuSum : m'.cpuUsed.toInt = m.cpuUsed.toInt + r.cpuSlots.toInt := by
    rw [hcpu', Int32.toInt_add]
    apply Int.bmod_eq_of_le
    · omega
    · omega
  have hramSum : m'.ramUsed.toNat = m.ramUsed.toNat + r.ramBytes.toNat := by
    rw [hram', UInt64.toNat_add]
    apply Nat.mod_eq_of_lt
    omega
  omega

/-- What a granted reservation adds to the use of a GPU, without wrapping. -/
theorem Holds.added_vram
    {m m' : ResourceManager} {rs : List ResourceRequirement} {r : ResourceRequirement}
    (h : m.Holds rs) (hgrant : m.tryReserve r = .ok (true, m')) (gpu : Bytes) :
  (m'.vramUsed gpu).toNat
      = (if r.gpuId = gpu then r.gpuVramBytes.toNat else 0) + (m.vramUsed gpu).toNat
    ∧ (m'.vramUsed gpu).toNat ≤ (m.vramCapacity gpu).toNat
  := by
  obtain ⟨hvalid, -, -, hgpu, -, -, -, hvram⟩ := tryReserve_true hgrant
  have hle := h.vram_le gpu
  by_cases hsame : r.gpuId = gpu
  · subst hsame
    rw [hvram, if_pos rfl, if_pos rfl]
    by_cases hnone : r.gpuId = []
    · rw [(valid_vram hvalid).mp hnone, UInt64.add_zero]
      exact ⟨by simp, hle⟩
    · obtain ⟨capacity, hcapacity, hfits⟩ := hgpu hnone
      have hnamed : m.vramCapacity r.gpuId = capacity := by
        rw [vramCapacity, hcapacity, Option.getD_some]
      rw [← hnamed, UInt64.le_iff_toNat_le, h.free.2.2] at hfits
      have hbound := UInt64.toNat_lt (m.vramCapacity r.gpuId)
      have hsum : (m.vramUsed r.gpuId + r.gpuVramBytes).toNat
          = r.gpuVramBytes.toNat + (m.vramUsed r.gpuId).toNat := by
        rw [UInt64.toNat_add, Nat.add_comm]
        apply Nat.mod_eq_of_lt
        omega
      omega
  · rw [hvram, if_neg (Ne.symm hsame), if_neg hsame, Nat.zero_add]
    exact ⟨rfl, hle⟩

theorem Holds.reserveExact
    {m : ResourceManager} {rs : List ResourceRequirement} (h : m.Holds rs)
    (r : ResourceRequirement) :
  m.ReserveExact r
  := by
  obtain ⟨hcpu, hram, hvram⟩ := h.free
  constructor
  · exact hcpu
  · have hle := h.ram_le
    omega
  · intro capacity hcapacity
    have hnamed : m.vramCapacity r.gpuId = capacity := by
      rw [vramCapacity, hcapacity, Option.getD_some]
    have hle := h.vram_le r.gpuId
    have hfree := hvram r.gpuId
    rw [hnamed] at hle hfree
    omega
  · intro m' hgrant
    obtain ⟨hcpuSum, -, hramSum, -⟩ := h.added hgrant
    have hsum := (h.added_vram hgrant r.gpuId).1
    rw [if_pos rfl, Nat.add_comm] at hsum
    exact ⟨hcpuSum, hramSum, hsum⟩

/-- A call of `try_reserve` adds the requirement that it grants. -/
theorem Holds.tryReserve
    {m m' : ResourceManager} {rs : List ResourceRequirement} {r : ResourceRequirement}
    {granted : Bool} (h : m.Holds rs) (hcall : m.tryReserve r = .ok (granted, m')) :
  m'.Holds (if granted then r :: rs else rs)
  := by
  cases granted with
  | false =>
      obtain ⟨hcapacity, hcpu, hram, hvram⟩ := tryReserve_false hcall
      constructor
      · rw [hcpu]
        apply h.cpu
      · rw [hcpu, hcapacity]
        apply h.cpu_le
      · rw [hram]
        apply h.ram
      · rw [hram, hcapacity]
        apply h.ram_le
      · intro gpu
        rw [hvram]
        apply h.vram
      · intro gpu
        rw [hvram, vramCapacity, hcapacity]
        apply h.vram_le
      · apply h.valid
  | true =>
      obtain ⟨hvalid, -, -, -, hcapacity, -⟩ := tryReserve_true hcall
      obtain ⟨hcpu, hcpuLe, hram, hramLe⟩ := h.added hcall
      rw [if_pos rfl]
      constructor
      · rw [hcpu, h.cpu, List.map_cons, List.sum_cons, Int.add_comm]
      · rw [hcapacity]
        apply hcpuLe
      · rw [hram, h.ram, List.map_cons, List.sum_cons, Nat.add_comm]
      · rw [hcapacity]
        apply hramLe
      · intro gpu
        rw [(h.added_vram hcall gpu).1, h.vram, vramOf_cons]
      · intro gpu
        rw [vramCapacity, hcapacity]
        apply (h.added_vram hcall gpu).2
      · intro r' hr'
        obtain rfl | hr' := List.mem_cons.mp hr'
        · exact hvalid
        · exact h.valid r' hr'

/-! ### Releasing -/

/-- The entry of the GPU of a requirement that is held. -/
theorem Holds.entry
    {m : ResourceManager} {rs : List ResourceRequirement} {r : ResourceRequirement}
    (h : m.Holds (r :: rs)) (hgpu : r.gpuId ≠ []) :
  m.gpuVramUsed.find? r.gpuId = some (m.vramUsed r.gpuId)
  := by
  have hvalid := h.valid r List.mem_cons_self
  have hpos : r.gpuVramBytes.toNat ≠ 0 := by
    intro hzero
    apply hgpu
    apply (valid_vram hvalid).mpr
    apply UInt64.toNat_inj.mp hzero
  have hsum := h.vram r.gpuId
  rw [vramOf_cons, if_pos rfl] at hsum
  cases hfound : m.gpuVramUsed.find? r.gpuId with
  | none =>
      rw [vramUsed, hfound, Option.getD_none, UInt64.toNat_zero] at hsum
      omega
  | some used => rw [vramUsed, hfound, Option.getD_some]

/-- The use of a GPU after a requirement that is held is released. -/
theorem Holds.release_vramUsed
    {m : ResourceManager} {rs : List ResourceRequirement} {r : ResourceRequirement}
    (h : m.Holds (r :: rs)) (gpu : Bytes) :
  (m.release r).vramUsed gpu
    = if gpu = r.gpuId then m.vramUsed gpu - r.gpuVramBytes else m.vramUsed gpu
  := by
  by_cases hgpu : r.gpuId = []
  · have hzero := (valid_vram (h.valid r List.mem_cons_self)).mp hgpu
    rw [hzero, UInt64.sub_zero, ite_self, vramUsed, release, if_pos hgpu]
    rfl
  · rw [vramUsed, release, if_neg hgpu, h.entry hgpu]
    simp only
    split_ifs with hlast hsame hsame
    · rw [SortedMap.find?_erase, if_pos hsame, hsame, hlast]
      rfl
    · rw [SortedMap.find?_erase, if_neg hsame]
      rfl
    · rw [hsame, SortedMap.find?_assign, if_pos rfl]
      rfl
    · rw [SortedMap.find?_assign, if_neg hsame]
      rfl

/-- What the release of a requirement that is held leaves, without wrapping. -/
theorem Holds.removed
    {m : ResourceManager} {rs : List ResourceRequirement} {r : ResourceRequirement}
    (h : m.Holds (r :: rs)) :
  (m.cpuUsed - r.cpuSlots).toInt = m.cpuUsed.toInt - r.cpuSlots.toInt
    ∧ (m.ramUsed - r.ramBytes).toNat = m.ramUsed.toNat - r.ramBytes.toNat
    ∧ r.ramBytes.toNat ≤ m.ramUsed.toNat
    ∧ (m.vramUsed r.gpuId - r.gpuVramBytes).toNat
      = (m.vramUsed r.gpuId).toNat - r.gpuVramBytes.toNat
    ∧ r.gpuVramBytes.toNat ≤ (m.vramUsed r.gpuId).toNat
  := by
  have hcpu := h.cpu
  have hram := h.ram
  have hvram := h.vram r.gpuId
  rw [List.map_cons, List.sum_cons] at hcpu hram
  rw [vramOf_cons, if_pos rfl] at hvram
  have hrest := cpu_sum_nonneg fun r' hr' => h.valid r' (List.mem_cons_of_mem r hr')
  have hpos := valid_cpu_pos (h.valid r List.mem_cons_self)
  have hbound := Int32.toInt_lt m.cpuUsed
  have hramLe : r.ramBytes.toNat ≤ m.ramUsed.toNat := by omega
  have hvramLe : r.gpuVramBytes.toNat ≤ (m.vramUsed r.gpuId).toNat := by omega
  refine ⟨?_, ?_, hramLe, ?_, hvramLe⟩
  · rw [Int32.toInt_sub]
    apply Int.bmod_eq_of_le
    · omega
    · omega
  · apply UInt64.toNat_sub_of_le
    apply UInt64.le_iff_toNat_le.mpr hramLe
  · apply UInt64.toNat_sub_of_le
    apply UInt64.le_iff_toNat_le.mpr hvramLe

theorem Holds.releaseExact
    {m : ResourceManager} {rs : List ResourceRequirement} {r : ResourceRequirement}
    (h : m.Holds (r :: rs)) :
  m.ReleaseExact r
  := by
  obtain ⟨hcpu, hram, hramLe, hvram, hvramLe⟩ := h.removed
  constructor
  · exact hcpu
  · omega
  · intro hgpu
    use m.vramUsed r.gpuId, h.entry hgpu
    omega

/-- The release of a requirement that is held takes it out of the accounting. -/
theorem Holds.release
    {m : ResourceManager} {rs : List ResourceRequirement} {r : ResourceRequirement}
    (h : m.Holds (r :: rs)) :
  (m.release r).Holds rs
  := by
  obtain ⟨hcpu, hram, hramLe, hvram, hvramLe⟩ := h.removed
  have hcpuSum := h.cpu
  have hramSum := h.ram
  rw [List.map_cons, List.sum_cons] at hcpuSum hramSum
  have hpos := valid_cpu_pos (h.valid r List.mem_cons_self)
  have hcpuLe := h.cpu_le
  have hcapacity := h.ram_le
  have hgpu : ∀ gpu, ((m.release r).vramUsed gpu).toNat = vramOf rs gpu
      ∧ ((m.release r).vramUsed gpu).toNat ≤ (m.vramUsed gpu).toNat := by
    intro gpu
    have hsum := h.vram gpu
    rw [h.release_vramUsed]
    rw [vramOf_cons] at hsum
    by_cases hsame : r.gpuId = gpu
    · subst hsame
      rw [if_pos rfl] at hsum ⊢
      omega
    · rw [if_neg hsame] at hsum
      rw [if_neg (Ne.symm hsame)]
      omega
  constructor
  · rw [ResourceManager.release]
    simp only
    omega
  · rw [ResourceManager.release]
    simp only
    omega
  · rw [ResourceManager.release]
    simp only
    omega
  · rw [ResourceManager.release]
    simp only
    omega
  · intro gpu
    apply (hgpu gpu).1
  · intro gpu
    apply (hgpu gpu).2.trans (h.vram_le gpu)
  · intro r' hr'
    apply h.valid r' (List.mem_cons_of_mem r hr')

end ResourceManager

/-! ### Leases -/

/-- What a lease owns: a requirement, and its number in the order of the granted ones. -/
structure Reservation where
  ticket : Nat
  requirement : ResourceRequirement

/-- A `ResourceManager` and its leases.  The numbers of the reservations that were granted and
released are recorded; no step reads them. -/
structure Reservations where
  manager : ResourceManager
  leases : Handles Reservation
  granted : Nat
  released : List Nat

namespace Reservations

/-- A call of `try_reserve`, or an operation on the lease objects. -/
inductive Call where
  | tryReserve (r : ResourceRequirement)
  | lease (operation : Handles.Operation)

/-- The requirements of the outstanding leases. -/
def outstanding (s : Reservations) : List ResourceRequirement :=
  s.leases.owned.map (·.requirement)

/-- The accounting after an operation on leases: `reset` releases what an object gives up. -/
def reset (s : Reservations) (leases : Handles Reservation) : Option Reservation → Reservations
  | none => { s with leases }
  | some reservation =>
      { manager := s.manager.release reservation.requirement
        leases
        granted := s.granted
        released := s.released ++ [reservation.ticket] }

def step (s : Reservations) : Call → Option Reservations
  | .tryReserve r =>
      match s.manager.tryReserve r with
      | .error _ => some s
      | .ok (false, manager) => some { s with manager }
      | .ok (true, manager) =>
          some { s with
            manager
            leases := s.leases.give ⟨s.granted, r⟩
            granted := s.granted + 1 }
  | .lease operation => (s.leases.step operation).map fun (leases, given) => s.reset leases given

end Reservations

/-- The calls on the manager that the constructor makes of a capacity. -/
def reservations (capacity : ResourceCapacity) : Machine Reservations Reservations.Call where
  init s := ∃ manager, ResourceManager.create capacity = .ok manager
    ∧ s = ⟨manager, Handles.empty, 0, []⟩
  step := Reservations.step

namespace Reservations

/-- The accounting is exact, and each granted reservation is outstanding or was released. -/
structure Conserved (capacity : ResourceCapacity) (s : Reservations) : Prop where
  capacity_eq : s.manager.capacity = capacity
  holds : s.manager.Holds s.outstanding
  tickets : (s.released ++ s.leases.owned.map (·.ticket)).Perm (List.range s.granted)

theorem Conserved.grant
    {capacity : ResourceCapacity} {s : Reservations} (h : s.Conserved capacity)
    {r : ResourceRequirement} {manager : ResourceManager}
    (hgrant : s.manager.tryReserve r = .ok (true, manager)) :
  Conserved capacity { s with
    manager
    leases := s.leases.give ⟨s.granted, r⟩
    granted := s.granted + 1 }
  := by
  constructor
  · obtain ⟨-, -, -, -, hcapacity, -⟩ := ResourceManager.tryReserve_true hgrant
    rw [hcapacity, h.capacity_eq]
  · apply (h.holds.tryReserve hgrant).perm
    simp only [if_true, outstanding, Handles.owned_give, List.map_append]
    apply (List.perm_append_singleton _ _).symm
  · rw [Handles.owned_give, List.map_append, ← List.append_assoc, List.range_succ]
    apply h.tickets.append_right

theorem Conserved.reset
    {capacity : ResourceCapacity} {s : Reservations} (h : s.Conserved capacity)
    {operation : Handles.Operation} {leases : Handles Reservation} {given : Option Reservation}
    (hstep : s.leases.step operation = some (leases, given)) :
  (s.reset leases given).Conserved capacity
  := by
  have hperm := Handles.step_owned hstep
  have htickets := (hperm.map (·.ticket)).symm
  have hrequirements := (hperm.map (·.requirement)).symm
  cases given with
  | none => exact ⟨h.capacity_eq, h.holds.perm hrequirements,
      (htickets.symm.append_left _).trans h.tickets⟩
  | some reservation =>
      constructor
      · exact h.capacity_eq
      · exact (h.holds.perm hrequirements).release
      · apply List.Perm.trans _ h.tickets
        apply List.Perm.trans _ (htickets.symm.append_left _)
        simp only [Reservations.reset, List.append_assoc]
        apply List.Perm.refl

theorem Conserved.step
    {capacity : ResourceCapacity} {s s' : Reservations} {call : Call} (h : s.Conserved capacity)
    (hstep : s.step call = some s') :
  s'.Conserved capacity
  := by
  cases call with
  | tryReserve r =>
      rw [Reservations.step] at hstep
      split at hstep
      · cases hstep
        exact h
      next manager hcall =>
        cases hstep
        obtain ⟨hcapacity, -⟩ := ResourceManager.tryReserve_false hcall
        constructor
        · rw [hcapacity, h.capacity_eq]
        · exact h.holds.tryReserve hcall
        · exact h.tickets
      next manager hcall =>
        cases hstep
        apply h.grant hcall
  | lease operation =>
      rw [Reservations.step, Option.map_eq_some_iff] at hstep
      obtain ⟨⟨leases, given⟩, hlease, rfl⟩ := hstep
      apply h.reset hlease

/-- Every state that is reached is conserved. -/
theorem reachable_conserved
    {capacity : ResourceCapacity} {s : Reservations} (h : (reservations capacity).Reachable s) :
  s.Conserved capacity
  := by
  apply h.invariant
  · rintro s₀ ⟨manager, hcreate, rfl⟩
    refine ⟨?_, ResourceManager.holds_create hcreate, List.Perm.refl _⟩
    rw [ResourceManager.create] at hcreate
    split_ifs at hcreate
    cases hcreate
    rfl
  · intro s e s' _ hs hstep
    apply hs.step hstep

/-- Whatever the order of reservations and of operations on leases, the recorded use is the sum
over the outstanding leases and within the capacity, no arithmetic of the manager wraps, and
each granted reservation is either outstanding or was released exactly once. -/
theorem resource_conservation
    {capacity : ResourceCapacity} {s : Reservations} (h : (reservations capacity).Reachable s) :
  s.manager.capacity = capacity
    ∧ s.manager.Holds s.outstanding
    ∧ (∀ r, s.manager.ReserveExact r)
    ∧ (∀ r ∈ s.outstanding, s.manager.ReleaseExact r)
    ∧ (s.released ++ s.leases.owned.map (·.ticket)).Perm (List.range s.granted)
  := by
  have hconserved := reachable_conserved h
  refine ⟨hconserved.capacity_eq, hconserved.holds, hconserved.holds.reserveExact, ?_,
    hconserved.tickets⟩
  intro r hr
  apply ResourceManager.Holds.releaseExact
  apply hconserved.holds.perm
  apply List.perm_cons_erase hr

/-- A machine with four CPU slots and one GPU. -/
def sampleCapacity : ResourceCapacity :=
  ⟨4, 1000, SortedMap.empty.assign (Bytes.ofString "gpu0") 80⟩

/-- Two reservations of the same GPU; the first lease is moved and destroyed. -/
def sampleCalls : List Call :=
  [.tryReserve ⟨1, 400, Bytes.ofString "gpu0", 50⟩, .tryReserve ⟨2, 500, Bytes.ofString "gpu0", 30⟩,
    .lease (.moveConstruct 0), .lease (.destroy 0), .lease (.destroy 2)]

theorem resource_conservation_moved :
  ∃ s₀ s, (reservations sampleCapacity).init s₀
    ∧ (reservations sampleCapacity).run s₀ sampleCalls = some s
    ∧ s.released = [0] ∧ s.granted = 2
    ∧ s.manager.Holds [⟨2, 500, Bytes.ofString "gpu0", 30⟩]
  := by
  have hinit : (reservations sampleCapacity).init
      ⟨.ofCapacity sampleCapacity, Handles.empty, 0, []⟩ := ⟨_, rfl, rfl⟩
  obtain ⟨s, hrun⟩ : ∃ s, (reservations sampleCapacity).run
      ⟨.ofCapacity sampleCapacity, Handles.empty, 0, []⟩ sampleCalls = some s := ⟨_, rfl⟩
  refine ⟨_, s, hinit, hrun, ?_⟩
  have hconserved := resource_conservation ⟨_, _, hinit, hrun⟩
  cases hrun
  exact ⟨rfl, rfl, hconserved.2.1⟩

end Reservations

end Kernel
