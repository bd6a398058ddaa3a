import DreamCore.Component.DataBus
import DreamCore.Pipeline.Lu

/-!
# Loads and the answers they get

The load unit between its two buses. A request carries no name on its way, so the
model gives each a number, which only the slaves' side passes along: the answer to
a load is its own when the number that comes back is the number that went out.

Everything else is an input: which loads come, what the flushes squash, what the
stores say, what the CLINT holds and what is written to the memory meanwhile.
Instruction fetches go over the same buses, but neither read nor write what is
kept for data.
-/

namespace DreamCore

open Ring

/-- What the model lets the buses pass on: the number of the request, and the value. -/
abbrev Answer := Nat × Word

/-- The request of the load in the second level. -/
structure LiveRequest where
  id : Nat
  request : LuRequest
  /-- What the slave held when it was asked. -/
  value : Word
  /-- How many cycles ago it was asked. -/
  age : Nat

/-- What the bus has to bring for `q`. -/
def LiveRequest.answer (q : LiveRequest) : Answer := (q.id, q.value)

/-- The load unit, the data sides of the two buses, the memory. -/
structure LoadSystem where
  lu : LuState
  memory : MemorySlave Answer
  cacheable : DataBus Answer
  noncacheable : DataBus Answer
  /-- How many requests there have been. -/
  issued : Nat
  live : Option LiveRequest

/-- What one cycle brings. -/
structure LoadInput where
  lu : LuInput := {}
  clint : Clint := {}
  /-- What the retired store buffer writes. -/
  write : Option (Word × Nat × Word) := none

/-- What the slave answers to a request, if it does. -/
def LuRequest.asks (q : LuRequest) (mem : Mem) (clint : Clint) : Word :=
  if q.cacheable then
    if memorySlave.maps q.addr false then mem.read (memorySlave.offset q.addr).toNat q.size else 0
  else
    if clintSlave.maps q.addr false then clint.read32 (clintSlave.offset q.addr).toNat else 0

/-- For how long a slave may take: only the memory takes any time. -/
def LuRequest.wait (q : LuRequest) (latency : Nat) : Nat :=
  if q.cacheable && memorySlave.maps q.addr false then latency else 0

/-- A byte or a halfword of the CLINT. -/
def LuRequest.NarrowClint (q : LuRequest) : Prop :=
  q.cacheable = false ∧ clintSlave.maps q.addr false = true ∧ q.size ≠ 4

instance (q : LuRequest) : Decidable q.NarrowClint := by
  unfold LuRequest.NarrowClint
  exact inferInstance

namespace LoadSystem

/-- After reset, with the memory loaded. -/
def init (mem : Mem) (latency : Nat) : LoadSystem := ⟨{}, .reset mem latency, {}, {}, 0, none⟩

/-- One of the two buses. -/
def bus (sys : LoadSystem) (cacheable : Bool) : DataBus Answer :=
  if cacheable then sys.cacheable else sys.noncacheable

/-- The value the second level finds on the bus of its load. -/
def shown (sys : LoadSystem) : Option Word := (sys.bus sys.lu.l2IsCacheable).dataValue.map (·.2)

/-- What the load unit does in a cycle. -/
def turn (sys : LoadSystem) (inp : LoadInput) : LuResult := luRun sys.lu inp.lu sys.shown

/-- A bus after the second level's turn. -/
def revoked (sys : LoadSystem) (inp : LoadInput) (cacheable : Bool) : DataBus Answer :=
  if (sys.turn inp).revoke && sys.lu.l2IsCacheable == cacheable then
    (sys.bus cacheable).revokeDataRequest (sys.bus cacheable).start
  else (sys.bus cacheable).start

/-- The memory and the two buses after the first level's turn. -/
def asked (sys : LoadSystem) (inp : LoadInput) :
    MemorySlave Answer × DataBus Answer × DataBus Answer :=
  match (sys.turn inp).request with
  | some q =>
      if q.cacheable then
        let (memory, bus) := cacheableRead (sys.issued, ·) sys.memory (sys.revoked inp true) q.addr
          q.size
        (memory, bus, sys.revoked inp false)
      else
        (sys.memory, sys.revoked inp true,
          noncacheableRead (sys.issued, ·) inp.clint (sys.revoked inp false) q.addr q.size)
  | none => (sys.memory, sys.revoked inp true, sys.revoked inp false)

/-- The request of the load that is in the second level after the cycle. -/
def liveAfter (sys : LoadSystem) (inp : LoadInput) : Option LiveRequest :=
  match (sys.turn inp).request with
  | some q => some ⟨sys.issued, q, q.asks sys.memory.mem inp.clint, 0⟩
  | none =>
      if (sys.turn inp).next.l2Stall then sys.live.map fun q => { q with age := q.age + 1 }
      else none

/-- A cycle: the load unit, `run_post` of the memory, the retired store buffer. -/
def act (sys : LoadSystem) (inp : LoadInput) : LoadSystem :=
  let (memory, cacheable, noncacheable) := sys.asked inp
  let (memory, cacheable) := memory.runPost cacheable
  let (memory, cacheable) := match inp.write with
    | some (addr, size, value) => cacheableWrite memory cacheable addr size value
    | none => (memory, cacheable)
  { lu := (sys.turn inp).next
    memory := memory
    cacheable := cacheable
    noncacheable := noncacheable
    issued := sys.issued + (sys.turn inp).request.isSome.toNat
    live := sys.liveAfter inp }

end LoadSystem

/-- **The systems that runs from reset reach**, when every cycle of the run meets `P`. -/
inductive LoadRun (P : LoadSystem → LoadInput → Prop) (mem : Mem) (latency : Nat) :
    LoadSystem → Prop where
  | init : LoadRun P mem latency (.init mem latency)
  | cycle {sys : LoadSystem} (inp : LoadInput) :
      LoadRun P mem latency sys → P sys inp → LoadRun P mem latency (sys.act inp)

/-- **Every load gets its own answer.** -/
structure LoadSystem.Paired (latency : Nat) (sys : LoadSystem) : Prop where
  /-- The load in the second level is known by its request. -/
  known : sys.lu.l2RevPack.enable = true → sys.lu.l2RevPack.hasException = false →
    ∃ q, sys.live = some q
      ∧ q.request = ⟨sys.lu.l2IsCacheable, sys.lu.l2Addr, luSize sys.lu.l2RevPack⟩
  /-- What its bus shows is the answer to it. -/
  own : ∀ q, sys.live = some q → ∀ a, (sys.bus q.request.cacheable).dataValue = some a →
    a = q.answer
  /-- What it writes back is made of that answer. -/
  sent : ∀ inp, (luSend sys.lu inp sys.shown).enable = true →
    (luSend sys.lu inp sys.shown).hasException = false →
    ∃ q, sys.live = some q ∧ (luSend sys.lu inp sys.shown).rdValue = luValue sys.lu q.value
  /-- The answers to swallow are answers to come. Only the memory keeps requests. -/
  bounded : sys.cacheable.revokeDataCnt ≤ (sys.memory.reads.filterMap id).length
    ∧ sys.noncacheable.revokeDataCnt ≤ 0
  /-- The answer is there as soon as the slave's latency has elapsed. -/
  answered : ∀ q, sys.live = some q → q.request.wait latency ≤ q.age →
    (sys.bus q.request.cacheable).dataValue.isSome = true

end DreamCore
