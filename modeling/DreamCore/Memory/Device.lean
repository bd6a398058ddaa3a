import DreamCore.Backend.DeviceWrite
import DreamCore.Lib.Exchange
import DreamCore.Memory.System

/-!
# The core and its devices

The noncacheable bus with the CLINT behind it. Commit hands the write of a
noncacheable store to `write8_sync`, `write16_sync` or `write32_sync`; the bus
performs it at the end of the cycle, and commit reads the answer in the next. The
cacheable stores drain over the other bus, so that no answer of theirs shows here.

The loads of devices, the registers of the CLINT, the interrupt lines and the
acknowledgements the drain gets are inputs. A log keeps what there is to see: the
writes, the answers, and what leaves the ROB at its front.
-/

namespace DreamCore

open Exchange

/-- An entry that leaves the ROB at its front. -/
structure Leaving where
  /-- The instruction. -/
  op : Option OpInfo
  /-- What it stores, as the store buffer has it. -/
  store : Option RetiredStoreBufferItem
  /-- The CSRs commit leaves, when the instruction raises an exception instead of retiring. -/
  trap : Option CsrFile

/-- A write on the noncacheable bus, and the instruction at the front then. -/
structure DeviceWrite where
  op : Option OpInfo
  store : RetiredStoreBufferItem

abbrev DeviceEvent := Event DeviceWrite BusErrno Leaving

/-- What leaves the ROB in a cycle, oldest first. The last entry of `rob_retire_queue` is the one
that raises the exception. -/
def World.leavings (w : World) (c : CommitState) : List Leaving :=
  c.retireQueue.mapIdx fun i e =>
    { op := w.flight[i]?.map Flight.info
      store := if e.2.storeBufferIdValid then some (w.core.storeOf e.2) else none
      trap := if c.feedback.hasException && i + 1 == c.retireQueue.length then
          some c.new.csrFile
        else none }

/-- The core, the noncacheable bus, and what there was to see. -/
structure DeviceWorld where
  world : World
  bus : DataBus Word
  log : List DeviceEvent

namespace DeviceWorld

/-- After reset. -/
def init : DeviceWorld := ⟨.init, {}, []⟩

/-- What one cycle brings. -/
structure Input where
  cycle : CycleInput := {}
  /-- What the load unit does on the noncacheable bus. -/
  use : LoadUse := {}
  clint : Clint := {}

/-- What a cycle can be asked to do. -/
structure Legal (d : DeviceWorld) (inp : Input) : Prop where
  cycle : inp.cycle.Legal d.world
  timely : inp.cycle.Timely d.world
  /-- Commit reads the acknowledgement off the bus. -/
  writeAck : inp.cycle.commit.writeAck = d.bus.dataWriteAck

/-- The bus after the load unit's turn. -/
def load (d : DeviceWorld) (inp : Input) : DataBus Word :=
  let bus := if inp.use.revoke then DataBus.revokeDataRequest d.bus d.bus.start else d.bus.start
  match inp.use.read with
  | some (addr, size) => noncacheableRead id inp.clint bus addr size
  | none => bus

/-- `sync` of the bus: it performs the write commit has queued, if any. -/
def sync (d : DeviceWorld) (inp : Input) (write : Option (Word × Word × Word)) : DataBus Word :=
  match write with
  | some (addr, size, data) =>
      (noncacheableWrite inp.clint (d.load inp) addr size.toNat data).2
  | none => d.load inp

/-- A write and its answer, as events of turn `n`. -/
def asks (n : Nat) (op : Option OpInfo) (write : Option (Word × Word × Word))
    (ack : Option BusErrno) : List DeviceEvent :=
  match write with
  | some (addr, size, data) =>
      .sent n ⟨op, addr, size, data⟩ :: (ack.map fun b => .answered n b).toList
  | none => []

/-- The world after a cycle. What leaves the ROB is counted from the reset on. -/
def act (d : DeviceWorld) (inp : Input) (r : CycleResult) : DeviceWorld :=
  let left := d.world.leavings r.commit
  let n := turns d.log
  { world := d.world.act r
    bus := d.sync inp r.commit.busWrite
    log := d.log ++ ended n left
      ++ asks (n + left.length) (d.world.flight[left.length]?.map Flight.info) r.commit.busWrite
        (d.sync inp r.commit.busWrite).dataWriteAck }

end DeviceWorld

/-- **The worlds that runs from reset reach.** -/
inductive DeviceReachable : DeviceWorld → Prop where
  | init : DeviceReachable .init
  | cycle {d : DeviceWorld} (inp : DeviceWorld.Input) (r : CycleResult) :
      DeviceReachable d → d.Legal inp → d.world.core.cycle inp.cycle = some r →
      DeviceReachable (d.act inp r)

/-- The store goes to a device. -/
def RetiredStoreBufferItem.Device (e : RetiredStoreBufferItem) : Prop := isCacheable e.addr = false

/-- **Noncacheable stores, from the first cycle on.** An instruction is known by its number, the
count of those that left the ROB before it. -/
structure DeviceWorld.Orderly (d : DeviceWorld) : Prop where
  /-- A retired store to a device was sent just once, as what retires it, and answered; both right
  before it retired. -/
  retired : ∀ l₁ n op e l₂, d.log = l₁ ++ .left n ⟨op, some e, none⟩ :: l₂ → e.Device →
    ∃ l, l₁ = l ++ [.sent n ⟨op, e⟩, .answered n .none]
      ∧ ∀ q, .sent n q ∉ l ∧ .sent n q ∉ l₂
  /-- An error is the next thing to be seen: the store it answers to raises the exception, with
  its own pc and address. -/
  failed : ∀ l₁ n l₂, d.log = l₁ ++ .answered n .error :: l₂ →
    ∃ l op e, l₁ = l ++ [.sent n ⟨some op, e⟩] ∧ (l₂ = [] ∨ ∃ csr l₃,
      l₂ = .left n ⟨some op, some e, some csr⟩ :: l₃ ∧ csr.readSys csrMepc = op.pc &&& ~~~3
        ∧ csr.readSys csrMtval = e.addr
        ∧ csr.readSys csrMcause = RiscvException.storeAmoAccessFault.toWord)
  /-- What is sent is a store to a device that everything older has left; nothing else leaves
  before it does, and as long as it has not left it is the oldest in flight. -/
  sent : ∀ l₁ n q l₂, d.log = l₁ ++ .sent n q :: l₂ → q.store.Device ∧ turns l₁ = n
    ∧ ((turns l₂ = 0 ∧ q.op.isSome = true ∧ q.op = d.world.flight.head?.map Flight.info)
      ∨ ∃ b trap l₃, l₂ = .answered n b :: .left n ⟨q.op, some q.store, trap⟩ :: l₃)
  /-- Commit sends the store of the oldest instruction in flight, out of the entry rename gave
  it. -/
  sends : ∀ inp r, d.Legal inp → d.world.core.cycle inp.cycle = some r →
    ∀ write, r.commit.busWrite = some write → ∃ f rest, d.world.flight = f :: rest
      ∧ f.info.takesStoreBuffer = true ∧ write = (d.world.core.storeBuffer.itemAddr
        f.info.storeBufferId, d.world.core.storeBuffer.itemSize f.info.storeBufferId,
        (d.world.core.storeBuffer.ring.buffer f.info.storeBufferId).data)

end DreamCore
