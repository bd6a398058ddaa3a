import DreamCore.Backend.StoreWait
import DreamCore.Component.Bus
import DreamCore.Component.DataBus

/-!
# The core with its memory

The cacheable bus and the memory slave behind the core. Three parties use the
bus: the retired store buffer writes, the load unit reads and takes reads back,
and fetch reads instructions, which leaves no trace in the slave. What the load
unit does is an input: every pattern of its requests is a run.
-/

namespace DreamCore

open Ring

/-- The cacheable bus and the memory slave. -/
structure MemorySystem where
  slave : MemorySlave Word
  bus : DataBus Word

/-- What the load unit does on the cacheable bus in one cycle. -/
structure LoadUse where
  /-- The second level takes its request back. -/
  revoke : Bool := false
  /-- The address and the size the first level reads. -/
  read : Option (Word × Nat) := none

/-- The write `retired_store_buffer::run` sends, if any. -/
def retiredStoreBufferWrite (cur new : RetiredStoreBuffer) (ack : Bool) :
    Option RetiredStoreBufferItem :=
  let new :=
    if new.isWaitingAck && ack then
      { ring := Fifo.drop cur.ring new.ring, isWaitingAck := false }
    else new
  if !new.isWaitingAck && !Fifo.customerIsEmpty cur.ring new.ring then
    some (cur.ring.buffer new.ring.rptr.id)
  else none

namespace MemorySystem

/-- The system after reset, the memory loaded. -/
def reset (mem : Mem) (latency : Nat) : MemorySystem := ⟨.reset mem latency, {}⟩

/-- The load unit's turn. -/
def load (sys : MemorySystem) (use : LoadUse) : MemorySlave Word × DataBus Word :=
  let bus := if use.revoke then DataBus.revokeDataRequest sys.bus sys.bus.start else sys.bus.start
  match use.read with
  | some (addr, size) => cacheableRead id sys.slave bus addr size
  | none => (sys.slave, bus)

/-- A cycle: the load unit, `run_post` of the memory, the retired store buffer. -/
def act (sys : MemorySystem) (use : LoadUse) (write : Option RetiredStoreBufferItem) :
    MemorySystem :=
  let (slave, bus) := sys.load use
  let (slave, bus) := slave.runPost bus
  match write with
  | some item =>
      let (slave, bus) := cacheableWrite slave bus item.addr item.size.toNat item.data
      ⟨slave, bus⟩
  | none => ⟨slave, bus⟩

end MemorySystem

/-- The core, its memory, and what has retired. -/
structure MemoryWorld where
  world : World
  system : MemorySystem
  /-- The cacheable stores that have retired, oldest first. -/
  stored : List RetiredStoreBufferItem

namespace MemoryWorld

/-- After reset, with the memory loaded. -/
def init (mem : Mem) (latency : Nat) : MemoryWorld := ⟨.init, .reset mem latency, []⟩

/-- What one cycle brings. -/
structure Input where
  cycle : CycleInput := {}
  use : LoadUse := {}

/-- What a cycle can be asked to do. -/
structure Legal (d : MemoryWorld) (inp : Input) : Prop where
  cycle : inp.cycle.Legal d.world
  timely : inp.cycle.Timely d.world
  /-- The retired store buffer reads the acknowledgement off the bus. -/
  drainAck : inp.cycle.drainAck = d.system.bus.dataWriteAck.isSome

/-- The world after a cycle. -/
def act (d : MemoryWorld) (inp : Input) (r : CycleResult) : MemoryWorld where
  world := d.world.act r
  system := d.system.act inp.use (retiredStoreBufferWrite d.world.core.retiredStoreBuffer
    r.rename.new.retiredStoreBuffer inp.cycle.drainAck)
  stored := d.stored ++ d.world.core.retiredStores r.commit.retired

end MemoryWorld

/-- **The worlds that runs from reset reach**, with a memory of any contents and any latency. -/
inductive MemoryReachable (mem : Mem) (latency : Nat) : MemoryWorld → Prop where
  | init : MemoryReachable mem latency (.init mem latency)
  | cycle {d : MemoryWorld} (inp : MemoryWorld.Input) (r : CycleResult) :
      MemoryReachable mem latency d → d.Legal inp → d.world.core.cycle inp.cycle = some r →
      MemoryReachable mem latency (d.act inp r)

variable {mem : Mem} {latency : Nat} {d : MemoryWorld}

/-- The core sees a run of its own. -/
theorem MemoryReachable.world (h : MemoryReachable mem latency d) : Reachable d.world := by
  induction h with
  | init => exact .init
  | cycle inp r _ hl hr ih => exact .cycle inp.cycle r ih hl.cycle trivial hr

/-- **The owners of the store buffer, in every reachable world.** -/
theorem storesOk_reachable (h : MemoryReachable mem latency d) : StoresOk d.world := by
  induction h with
  | init => exact storesOk_init
  | cycle inp r hd hl hr ih =>
    obtain ⟨g₀, hg₀⟩ := hd.world.holds
    obtain ⟨g, hg, -⟩ := cycle_effect hg₀ hl.cycle hr
    exact storesOk_step hg₀ ih hl.cycle hl.timely hr hg

/-! ## Which stores reach the memory -/

/-- **The store lands in the memory**: it is naturally aligned and lies inside. -/
def RetiredStoreBufferItem.Lands (e : RetiredStoreBufferItem) : Prop :=
  e.addr.toNat % e.size.toNat = 0 ∧ memoryBase.toNat ≤ e.addr.toNat
    ∧ e.addr.toNat + e.size.toNat ≤ memoryBase.toNat + memorySize

instance (e : RetiredStoreBufferItem) : Decidable e.Lands := by
  unfold RetiredStoreBufferItem.Lands
  exact inferInstance

/-- What a store does to the memory. -/
def Mem.store (m : Mem) (e : RetiredStoreBufferItem) : Mem :=
  if e.Lands then m.write (e.addr.toNat - memoryBase.toNat) e.size.toNat e.data else m

/-- **A store done twice is the store done once.** -/
theorem Mem.store_store (m : Mem) (e : RetiredStoreBufferItem) : (m.store e).store e = m.store e := by
  unfold Mem.store
  split
  · exact Mem.write_write ..
  · rfl

/-- The access size is one the bus has a call for. -/
def RetiredStoreBufferItem.Sized (e : RetiredStoreBufferItem) : Prop :=
  e.size = 1 ∨ e.size = 2 ∨ e.size = 4

/-- What the bus finds of the address. -/
theorem memorySlave_maps_data (addr : Word) : memorySlave.maps addr false = true
    ↔ memoryBase.toNat ≤ addr.toNat ∧ addr.toNat < memoryBase.toNat + memorySize :=
  memorySlave_maps addr

/-- **The bus and the slave let through exactly the stores that land.** -/
theorem lands_iff {e : RetiredStoreBufferItem} (hs : e.Sized)
    (hm : memorySlave.maps e.addr false = true) :
    memorySlave.check (memorySlave.offset e.addr) e.size.toNat = true ↔ e.Lands := by
  obtain ⟨hlo, hhi⟩ := (memorySlave_maps_data e.addr).mp hm
  have hoffset : (memorySlave.offset e.addr).toNat = e.addr.toNat - memoryBase.toNat := by
    unfold SlaveInfo.offset
    exact BitVec.toNat_sub_of_le hlo
  obtain ⟨k, hk, hsize⟩ : ∃ k, k ≤ 2 ∧ e.size.toNat = 2 ^ k := by
    rcases hs with h | h | h
    · exact ⟨0, by decide, by rw [h]; rfl⟩
    · exact ⟨1, by decide, by rw [h]; rfl⟩
    · exact ⟨2, by decide, by rw [h]; rfl⟩
  unfold SlaveInfo.check RetiredStoreBufferItem.Lands
  rw [Bool.and_eq_true, Bool.and_eq_true, decide_eq_true_eq, decide_eq_true_eq, hoffset, hsize,
    checkAlign_pow _ k (by omega), hoffset]
  have hbase : memoryBase.toNat = 0x80000000 := rfl
  have hmem : memorySlave.size = 0x100000 := rfl
  have hmem' : memorySize = 0x100000 := rfl
  rw [hbase, hmem'] at hhi
  rw [hbase] at hlo
  rw [hbase, hmem, hmem']
  have hmod : (e.addr.toNat - 0x80000000) % 2 ^ k = 0 ↔ e.addr.toNat % 2 ^ k = 0 := by
    rcases (by omega : k = 0 ∨ k = 1 ∨ k = 2) with rfl | rfl | rfl
    · omega
    · omega
    · omega
  rw [hmod]
  constructor
  · rintro ⟨⟨h₁, h₂⟩, h₃⟩
    exact ⟨h₁, hlo, by omega⟩
  · rintro ⟨h₁, -, h₃⟩
    have hpos : 0 < 2 ^ k := Nat.two_pow_pos k
    exact ⟨⟨h₁, by omega⟩, by omega⟩

theorem not_lands_of_unmapped {e : RetiredStoreBufferItem} (hs : e.Sized)
    (hm : memorySlave.maps e.addr false = false) : ¬ e.Lands := by
  rintro ⟨-, hlo, hhi⟩
  have hpos : 0 < e.size.toNat := by
    rcases hs with h | h | h <;> rw [h] <;> decide
  rw [(memorySlave_maps_data e.addr).mpr ⟨hlo, by omega⟩] at hm
  cases hm

end DreamCore
