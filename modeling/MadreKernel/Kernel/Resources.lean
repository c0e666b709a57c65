import MadreKernel.Lib.Bytes
import MadreKernel.Lib.SortedMap

/-!
# Resources

The accounting of `ResourceManager`: the CPU slots, the RAM and the VRAM of each GPU that the
outstanding reservations hold.  A requirement that does not pass `validateRequirement` makes
`canEverReserve` and `tryReserve` throw.
-/

namespace Kernel

structure ResourceRequirement where
  cpuSlots : Int32
  ramBytes : UInt64
  gpuId : Bytes
  gpuVramBytes : UInt64
  deriving DecidableEq

structure ResourceCapacity where
  cpuSlots : Int32
  ramBytes : UInt64
  gpuVramBytes : SortedMap Bytes UInt64

/-- The accounting of the reservations that are out. -/
structure ResourceManager where
  capacity : ResourceCapacity
  cpuUsed : Int32
  ramUsed : UInt64
  gpuVramUsed : SortedMap Bytes UInt64

namespace ResourceManager

/-- The accounting before any reservation. -/
def ofCapacity (capacity : ResourceCapacity) : ResourceManager := ⟨capacity, 0, 0, ∅⟩

def validateRequirement (r : ResourceRequirement) : Except Bytes Unit :=
  if r.cpuSlots < 1 || r.ramBytes = 0 then
    .error (Bytes.ofString "engine resource requirement must provide positive CPU and RAM")
  else if decide (r.gpuId = []) != decide (r.gpuVramBytes = 0) then
    .error (Bytes.ofString "GPU identity and VRAM requirement must be declared together")
  else .ok ()

def canEverReserve (m : ResourceManager) (r : ResourceRequirement) : Except Bytes Bool :=
  match validateRequirement r with
  | .error e => .error e
  | .ok () =>
      if r.cpuSlots > m.capacity.cpuSlots || r.ramBytes > m.capacity.ramBytes then .ok false
      else if r.gpuId = [] then .ok true
      else
        match m.capacity.gpuVramBytes.find? r.gpuId with
        | none => .ok false
        | some capacity => .ok (r.gpuVramBytes ≤ capacity)

/-- The accounting after a reservation that fits. -/
def reserve (m : ResourceManager) (r : ResourceRequirement) : ResourceManager where
  capacity := m.capacity
  cpuUsed := m.cpuUsed + r.cpuSlots
  ramUsed := m.ramUsed + r.ramBytes
  gpuVramUsed :=
    if r.gpuId = [] then m.gpuVramUsed
    else m.gpuVramUsed.assign r.gpuId ((m.gpuVramUsed.find? r.gpuId).getD 0 + r.gpuVramBytes)

/-- `try_reserve`: whether the requirement is reserved, and the accounting after it.  Looking
up the use of a GPU makes an entry for it. -/
def tryReserve (m : ResourceManager) (r : ResourceRequirement) :
    Except Bytes (Bool × ResourceManager) :=
  match validateRequirement r with
  | .error e => .error e
  | .ok () =>
      if r.cpuSlots > m.capacity.cpuSlots - m.cpuUsed
          || r.ramBytes > m.capacity.ramBytes - m.ramUsed then .ok (false, m)
      else if r.gpuId = [] then .ok (true, m.reserve r)
      else
        match m.capacity.gpuVramBytes.find? r.gpuId with
        | none => .ok (false, m)
        | some capacity =>
            let used := (m.gpuVramUsed.find? r.gpuId).getD 0
            let looked := { m with gpuVramUsed := m.gpuVramUsed.emplace r.gpuId 0 }
            if r.gpuVramBytes > capacity - used then .ok (false, looked)
            else .ok (true, looked.reserve r)

/-- `release`: the entry of a GPU that nothing uses is erased. -/
def release (m : ResourceManager) (r : ResourceRequirement) : ResourceManager where
  capacity := m.capacity
  cpuUsed := m.cpuUsed - r.cpuSlots
  ramUsed := m.ramUsed - r.ramBytes
  gpuVramUsed :=
    if r.gpuId = [] then m.gpuVramUsed
    else
      match m.gpuVramUsed.find? r.gpuId with
      | none => m.gpuVramUsed
      | some used =>
          if used - r.gpuVramBytes = 0 then m.gpuVramUsed.erase r.gpuId
          else m.gpuVramUsed.assign r.gpuId (used - r.gpuVramBytes)

end ResourceManager

end Kernel
