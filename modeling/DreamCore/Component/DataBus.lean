import DreamCore.Component.AddressMap
import DreamCore.Component.Clint
import DreamCore.Component.Memory

/-!
# The data side of the bus

The data registers of `bus`, and the memory slave of the cacheable bus. A request
carries no name: its answer is known by the order in which answers come, and a
request nobody waits for any more is only counted, so that its answer can be
swallowed.

`run` drops at the end of a cycle what was not set in it. The model drops it at
the start, and lets the cycle set it: `start` is the `new` the stages begin with.

What a read brings back is of any type, because the bus only passes it on; the
code's choice is `Word`.
-/

namespace DreamCore

/-- The data registers of `bus`, one snapshot. The revoke count is no register, only its newest
value exists. -/
structure DataBus (α : Type) where
  /-- `data_value`, where `data_value_valid` is set. -/
  dataValue : Option α := none
  /-- `data_write_errno`, where `data_write_ack` is set. -/
  dataWriteAck : Option BusErrno := none
  revokeDataCnt : Nat := 0

namespace DataBus

variable {α : Type}

/-- What the stages of a cycle begin with. -/
def start (cur : DataBus α) : DataBus α := { cur with dataValue := none, dataWriteAck := none }

/-- `set_data_value`. -/
def setDataValue (new : DataBus α) (value : α) : DataBus α :=
  if new.revokeDataCnt > 0 then { new with revokeDataCnt := new.revokeDataCnt - 1 }
  else { new with dataValue := some value }

/-- `revoke_data_request`. -/
def revokeDataRequest (cur new : DataBus α) : DataBus α :=
  if cur.dataValue.isNone then { new with revokeDataCnt := new.revokeDataCnt + 1 } else new

/-- `set_data_write_ack`. -/
def setDataWriteAck (new : DataBus α) (errno : BusErrno) : DataBus α :=
  { new with dataWriteAck := some errno }

@[simp] theorem start_dataWriteAck (cur : DataBus α) : cur.start.dataWriteAck = none := rfl

@[simp] theorem setDataValue_dataWriteAck (new : DataBus α) (value : α) :
    (new.setDataValue value).dataWriteAck = new.dataWriteAck := by
  unfold setDataValue
  split <;> rfl

@[simp] theorem revokeDataRequest_dataWriteAck (cur new : DataBus α) :
    (revokeDataRequest cur new).dataWriteAck = new.dataWriteAck := by
  unfold revokeDataRequest
  split <;> rfl

end DataBus

/-- A write the memory has accepted. The address is the offset in the slave. -/
structure MemWrite where
  addr : Nat
  size : Nat
  value : Word

/-- The memory after a write. -/
def MemWrite.apply (m : Mem) (w : MemWrite) : Mem := m.write w.addr w.size w.value

/-- `slave::memory`: the bytes, and the two arrays in which requests wait for their latency, the
youngest first. Each has one place more than the latency. -/
structure MemorySlave (α : Type) where
  mem : Mem
  reads : List (Option α)
  writes : List (Option MemWrite)

namespace MemorySlave

variable {α : Type}

/-- The slave after `load` has filled it: nothing is waiting. -/
def reset (mem : Mem) (latency : Nat) : MemorySlave α :=
  ⟨mem, List.replicate (latency + 1) none, List.replicate (latency + 1) none⟩

/-- `_read8`, `_read16`, `_read32`: the value is that of now. `tag` makes of it what the bus
passes on. -/
def read (s : MemorySlave α) (tag : Word → α) (addr size : Nat) : MemorySlave α :=
  { s with reads := some (tag (s.mem.read addr size)) :: s.reads.tail }

/-- `_write8`, `_write16`, `_write32`. -/
def write (s : MemorySlave α) (w : MemWrite) : MemorySlave α :=
  { s with writes := some w :: s.writes.tail }

/-- The request that has waited long enough. -/
def due {β : Type} (pipe : List (Option β)) : Option β := pipe.getLast?.join

/-- Every request moves on by one place. -/
def shift {β : Type} (pipe : List (Option β)) : List (Option β) := none :: pipe.dropLast

/-- `run_post`. -/
def runPost (s : MemorySlave α) (bus : DataBus α) : MemorySlave α × DataBus α :=
  let bus := match due s.reads with
    | some value => bus.setDataValue value
    | none => bus
  let reads := shift s.reads
  match due s.writes with
  | some w => (⟨w.apply s.mem, reads, shift s.writes⟩, bus.setDataWriteAck .none)
  | none => (⟨s.mem, reads, shift s.writes⟩, bus)

/-- The writes the memory has accepted and not performed, oldest first. -/
def pending (s : MemorySlave α) : List MemWrite := s.writes.reverse.filterMap id

end MemorySlave

/-- `bus::read8`, `read16` and `read32` of the cacheable bus. -/
def cacheableRead {α : Type} (tag : Word → α) (s : MemorySlave α) (bus : DataBus α) (addr : Word)
    (size : Nat) : MemorySlave α × DataBus α :=
  if memorySlave.maps addr false then
    if memorySlave.check (memorySlave.offset addr) size then
      (s.read tag (memorySlave.offset addr).toNat size, bus)
    else (s, bus)
  else (s, { bus with dataValue := some (tag 0) })

/-- `bus::read8`, `read16` and `read32` of the noncacheable bus. The CLINT answers within the
call, and `_read8` and `_read16` are empty. -/
def noncacheableRead {α : Type} (tag : Word → α) (clint : Clint) (bus : DataBus α) (addr : Word)
    (size : Nat) : DataBus α :=
  if clintSlave.maps addr false then
    if clintSlave.check (clintSlave.offset addr) size && size == 4 then
      bus.setDataValue (tag (clint.read32 (clintSlave.offset addr).toNat))
    else bus
  else { bus with dataValue := some (tag 0) }

/-- `bus::write8`, `write16` and `write32` of the cacheable bus. -/
def cacheableWrite {α : Type} (s : MemorySlave α) (bus : DataBus α) (addr : Word) (size : Nat)
    (value : Word) : MemorySlave α × DataBus α :=
  if memorySlave.maps addr false then
    if memorySlave.check (memorySlave.offset addr) size then
      (s.write ⟨(memorySlave.offset addr).toNat, size, value⟩, bus)
    else (s, bus)
  else (s, bus.setDataWriteAck .error)

/-- `bus::write8`, `write16` and `write32` of the noncacheable bus. The CLINT answers within the
call; it has no registers but words. -/
def noncacheableWrite {α : Type} (clint : Clint) (bus : DataBus α) (addr : Word) (size : Nat)
    (value : Word) : Clint × DataBus α :=
  if clintSlave.maps addr false then
    if clintSlave.check (clintSlave.offset addr) size then
      if size = 4 then
        match clint.write32 (clintSlave.offset addr).toNat value with
        | some clint => (clint, bus.setDataWriteAck .none)
        | none => (clint, bus.setDataWriteAck .error)
      else (clint, bus.setDataWriteAck .error)
    else (clint, bus)
  else (clint, bus.setDataWriteAck .error)

end DreamCore
