import DreamCore.Component.Clint
import DreamCore.Component.DataBus
import DreamCore.Memory.Ranges

/-!
# The slaves of a bus, with their bounds

`bus` with any slaves behind it, down to the array of bytes of the memory slave.
An access outside the array has no meaning, and nothing computed from one has:
that is `none` here.

The bus looks at the first address of an access and the slave at its offset and
size; the memory then takes as many bytes as it likes, and writes those of a store
only when its latency has passed. A bus is safe when none of that leaves the
array.
-/

namespace DreamCore

/-! ## Bytes -/

/-- The array `mem` of a memory slave of `n` bytes. -/
def RawMem (n : Nat) : Type := Fin n → BitVec 8

/-- The value of some bytes, the low one first. -/
def littleEndian : List (BitVec 8) → Word
  | [] => 0
  | b :: bs => littleEndian bs <<< 8 ||| b.setWidth 32

namespace RawMem

variable {n : Nat}

/-- `mem[addr]`. -/
def get (m : RawMem n) (addr : Nat) : Option (BitVec 8) :=
  if h : addr < n then some (m ⟨addr, h⟩) else none

/-- A load through a pointer to a value of `size` bytes. -/
def load (m : RawMem n) (addr size : Nat) : Option Word :=
  ((List.range' addr size).mapM m.get).map littleEndian

/-- A store through such a pointer. -/
def store (m : RawMem n) (addr size : Nat) (value : Word) : Option (RawMem n) :=
  if addr + size ≤ n then
    some fun i =>
      if addr ≤ i.1 ∧ i.1 < addr + size then value.extractLsb' (8 * (i.1 - addr)) 8 else m i
  else none

theorem mapM_get (m : RawMem n) (size : Nat) : ∀ addr, addr + size ≤ n →
    ∃ bytes, (List.range' addr size).mapM m.get = some bytes := by
  induction size with
  | zero => exact fun _ _ => ⟨[], rfl⟩
  | succ size ih =>
      intro addr hle
      obtain ⟨bytes, hbytes⟩ := ih (addr + 1) (by omega)
      have hget : m.get addr = some (m ⟨addr, by omega⟩) := dif_pos (by omega)
      exact ⟨m ⟨addr, by omega⟩ :: bytes, by
        rw [List.range'_succ, List.mapM_cons, hget, hbytes]; rfl⟩

/-- **A load has a value when its bytes are in the array.** -/
theorem load_of_le (m : RawMem n) {addr size : Nat} (h : addr + size ≤ n) :
    ∃ v, m.load addr size = some v := by
  obtain ⟨bytes, hbytes⟩ := mapM_get m size addr h
  exact ⟨littleEndian bytes, by rw [load, hbytes]; rfl⟩

theorem store_of_le (m : RawMem n) {addr size : Nat} (value : Word) (h : addr + size ≤ n) :
    ∃ m', m.store addr size value = some m' :=
  ⟨_, if_pos h⟩

theorem le_of_load {m : RawMem n} {addr size : Nat} {v : Word} (hsize : 0 < size)
    (h : m.load addr size = some v) : addr + size ≤ n := by
  have hmem (bytes : List (BitVec 8)) (k : Nat) :
      ∀ addr, (List.range' addr k).mapM m.get = some bytes → 0 < k → addr + k ≤ n := by
    induction k generalizing bytes with
    | zero => exact fun _ _ hk => absurd hk (Nat.lt_irrefl 0)
    | succ k ih =>
        intro addr hsome _
        rw [List.range'_succ, List.mapM_cons] at hsome
        obtain ⟨b, hget, hrest⟩ := Option.bind_eq_some_iff.mp hsome
        obtain ⟨bs, hbs, -⟩ := Option.bind_eq_some_iff.mp hrest
        have hlt : addr < n := by
          unfold get at hget
          split at hget
          · assumption
          · cases hget
        rcases Nat.eq_zero_or_pos k with rfl | hk
        · omega
        · have hle := ih bs (addr + 1) hbs hk
          omega
  obtain ⟨bytes, hbytes, -⟩ := Option.map_eq_some_iff.mp h
  exact hmem bytes size addr hbytes hsize

end RawMem

/-! ## The slaves -/

/-- `slave::memory` of `n` bytes. The two arrays in which requests wait have one place more than
the latency. -/
structure MemoryDevice (n : Nat) where
  mem : RawMem n
  reads : List (Option Word)
  writes : List (Option MemWrite)

namespace MemoryDevice

variable {n : Nat}

/-- `_read8`, `_read16`, `_read32`. -/
def read (d : MemoryDevice n) (addr size : Nat) : Option (MemoryDevice n) :=
  (d.mem.load addr size).map fun v => { d with reads := some v :: d.reads.tail }

/-- `_write8`, `_write16`, `_write32`. -/
def write (d : MemoryDevice n) (w : MemWrite) : MemoryDevice n :=
  { d with writes := some w :: d.writes.tail }

/-- `_read_instruction`: `set_instruction_value` takes a whole group from the pointer it gets. -/
def readInstruction (d : MemoryDevice n) (addr : Nat) : Option (List Word) :=
  (List.range fetchWidth).mapM fun i => d.mem.load (addr + 4 * i) 4

/-- `run_post`. -/
def runPost (d : MemoryDevice n) (bus : DataBus Word) : Option (MemoryDevice n × DataBus Word) :=
  let bus := match MemorySlave.due d.reads with
    | some value => bus.setDataValue value
    | none => bus
  let reads := MemorySlave.shift d.reads
  match MemorySlave.due d.writes with
  | some w =>
      (d.mem.store w.addr w.size w.value).map fun mem =>
        (⟨mem, reads, MemorySlave.shift d.writes⟩, bus.setDataWriteAck .none)
  | none => some (⟨d.mem, reads, MemorySlave.shift d.writes⟩, bus)

end MemoryDevice

/-- The slaves there are, by their size. Of the CLINT the registers are kept as they are after the
last event, and whether `mtime` was set in this cycle. -/
inductive Slave (n : Nat) where
  | memory (d : MemoryDevice n)
  | clint (c : Clint) (mtimeSet : Bool)

namespace Slave

variable {n : Nat}

/-- `_read8`, `_read16` and `_read32` of either slave. The CLINT has empty ones for the narrow
accesses. -/
def read (s : Slave n) (bus : DataBus Word) (addr size : Nat) :
    Option (Slave n × DataBus Word) :=
  match s with
  | .memory d => (d.read addr size).map fun d => (.memory d, bus)
  | .clint c _ => some (s, if size = 4 then bus.setDataValue (c.read32 addr) else bus)

/-- `_write8`, `_write16` and `_write32` of either slave. -/
def write (s : Slave n) (bus : DataBus Word) (w : MemWrite) : Slave n × DataBus Word :=
  match s with
  | .memory d => (.memory (d.write w), bus)
  | .clint c mtimeSet =>
      match if w.size = 4 then c.write32 w.addr w.value else none with
      | some c =>
          let time := w.addr = Clint.mtimeAddr || w.addr = Clint.mtimeAddr + 4
          (.clint c (mtimeSet || time), bus.setDataWriteAck .none)
      | none => (.clint c mtimeSet, bus.setDataWriteAck .error)

/-- `_read_instruction`, which the CLINT does not have. -/
def readInstruction (s : Slave n) (addr : Nat) : Option (Option (List Word)) :=
  match s with
  | .memory d => (d.readInstruction addr).map some
  | .clint _ _ => some none

/-- `run_post`. -/
def runPost (s : Slave n) (bus : DataBus Word) : Option (Slave n × DataBus Word) :=
  match s with
  | .memory d => (d.runPost bus).map fun r => (.memory r.1, r.2)
  | .clint c mtimeSet =>
      some (.clint (if mtimeSet then c else { c with mtime := c.mtime + 1 }) false, bus)

/-- The slave holds bytes. -/
def isMemory : Slave n → Bool
  | .memory _ => true
  | .clint _ _ => false

end Slave

/-! ## The bus -/

/-- A slave and the range it is mapped to. -/
structure Device where
  range : BusRange
  slave : Slave range.size.toNat

/-- A bus with its slaves. -/
structure SlaveBus where
  devices : List Device
  data : DataBus Word := {}
  /-- `instruction_value`, where `instruction_value_valid` is set. -/
  instruction : Option (List Word) := none

namespace SlaveBus

/-- `slave_info_list`, but for the slaves. -/
def ranges (b : SlaveBus) : List BusRange := b.devices.map Device.range

/-- The slave `find_slave_info` names. -/
def find (b : SlaveBus) (addr : Word) (isFetch : Bool) : Option (Nat × Device) :=
  (BusRange.findSlaveInfo b.ranges addr isFetch).bind fun i =>
    b.devices[i]?.map fun d => (i, d)

/-- The slave at place `i` is now `s`. -/
def put (b : SlaveBus) (i : Nat) (d : Device) (s : Slave d.range.size.toNat)
    (data : DataBus Word) : SlaveBus :=
  { b with
    devices := b.devices.set i ⟨d.range, s⟩
    data := data }

/-- `read8`, `read16` and `read32`. -/
def read (b : SlaveBus) (addr : Word) (size : Nat) : Option SlaveBus :=
  match b.find addr false with
  | some (i, d) =>
      let offset := d.range.slave.offset addr
      if d.range.slave.check offset size then
        (d.slave.read b.data offset.toNat size).map fun r => b.put i d r.1 r.2
      else some b
  | none => some { b with data := { b.data with dataValue := some 0 } }

/-- `write8`, `write16` and `write32`. -/
def write (b : SlaveBus) (addr : Word) (size : Nat) (value : Word) : SlaveBus :=
  match b.find addr false with
  | some (i, d) =>
      let offset := d.range.slave.offset addr
      if d.range.slave.check offset size then
        let r := d.slave.write b.data ⟨offset.toNat, size, value⟩
        b.put i d r.1 r.2
      else b
  | none => { b with data := b.data.setDataWriteAck .error }

/-- `read_instruction`. -/
def readInstruction (b : SlaveBus) (addr : Word) : Option SlaveBus :=
  match b.find addr true with
  | some (_, d) =>
      let offset := d.range.slave.offset addr
      if d.range.slave.check offset 4 then
        (d.slave.readInstruction offset.toNat).map fun words =>
          { b with instruction := words.or b.instruction }
      else some b
  | none => some { b with instruction := some (List.replicate fetchWidth 0) }

/-- `run_post` of every slave, in the order in which they were mapped. -/
def runPostAll : List Device → DataBus Word → Option (List Device × DataBus Word)
  | [], bus => some ([], bus)
  | d :: ds, bus =>
      (d.slave.runPost bus).bind fun r =>
        (runPostAll ds r.2).map fun rest => (⟨d.range, r.1⟩ :: rest.1, rest.2)

/-- What happens to a bus. -/
inductive Event where
  | read (addr : Word) (size : Nat)
  | write (addr : Word) (size : Nat) (value : Word)
  | fetch (addr : Word)
  | runPost
  /-- `bus::run` and the end of the cycle. -/
  | sync

/-- One event. -/
def step (b : SlaveBus) : Event → Option SlaveBus
  | .read addr size => b.read addr size
  | .write addr size value => some (b.write addr size value)
  | .fetch addr => b.readInstruction addr
  | .runPost =>
      (runPostAll b.devices b.data).map fun r =>
        { b with
          devices := r.1
          data := r.2 }
  | .sync =>
      some { b with
        data := b.data.start
        instruction := none }

/-- Events, one after the other; `none` when one of them leaves an array. -/
def run : SlaveBus → List Event → Option SlaveBus
  | b, [] => some b
  | b, e :: es => (b.step e).bind fun b => run b es

end SlaveBus

/-- A slave as it is mapped: nothing waits in it. The bytes of a memory are those `load` has put
there. -/
inductive SlaveInit (n : Nat) where
  | memory (mem : RawMem n) (readLatency writeLatency : Nat)
  | clint

def SlaveInit.slave {n : Nat} : SlaveInit n → Slave n
  | .memory mem readLatency writeLatency =>
      .memory ⟨mem, List.replicate (readLatency + 1) none, List.replicate (writeLatency + 1) none⟩
  | .clint => .clint {} false

/-- A bus after its slaves were mapped, in whatever ranges. -/
def SlaveBus.mapped (l : List ((r : BusRange) × SlaveInit r.size.toNat)) : SlaveBus :=
  { devices := l.map fun m => ⟨m.1, m.2.slave⟩ }

/-! ## What an access can reach -/

theorem SlaveInfo.le_of_check {s : SlaveInfo} {offset : Word} {size : Nat}
    (h : s.check offset size = true) : offset.toNat + size ≤ s.size := by
  unfold SlaveInfo.check at h
  simp only [Bool.and_eq_true, decide_eq_true_eq] at h
  omega

namespace Slave

variable {n : Nat}

/-- The writes that wait stay inside the array. -/
def InBounds : Slave n → Prop
  | .memory d => ∀ w, some w ∈ d.writes → w.addr + w.size ≤ n
  | .clint _ _ => True

theorem inBounds_init (s : SlaveInit n) : s.slave.InBounds := by
  cases s with
  | memory mem r w =>
      intro wr hmem
      exact absurd (List.eq_of_mem_replicate hmem) (by simp)
  | clint => trivial

/-- What an operation on a slave leaves as it is. -/
structure Kept (s s' : Slave n) : Prop where
  inBounds : s'.InBounds
  isMemory : s'.isMemory = s.isMemory

theorem read_kept {s : Slave n} (h : s.InBounds) (bus : DataBus Word) {addr size : Nat}
    (hle : addr + size ≤ n) : ∃ r, s.read bus addr size = some r ∧ Kept s r.1 := by
  cases s with
  | memory d =>
      obtain ⟨v, hv⟩ := d.mem.load_of_le hle
      exact ⟨_, by rw [read, MemoryDevice.read, hv]; rfl, ⟨h, rfl⟩⟩
  | clint c mtimeSet => exact ⟨_, rfl, ⟨trivial, rfl⟩⟩

theorem write_kept {s : Slave n} (h : s.InBounds) (bus : DataBus Word) {w : MemWrite}
    (hle : w.addr + w.size ≤ n) : Kept s (s.write bus w).1 := by
  cases s with
  | memory d =>
      refine ⟨fun wr hmem => ?_, rfl⟩
      rcases List.mem_cons.mp hmem with heq | hold
      · obtain rfl := Option.some.inj heq
        exact hle
      · exact h wr (List.mem_of_mem_tail hold)
  | clint c mtimeSet =>
      unfold write
      dsimp only
      split <;> exact ⟨trivial, rfl⟩

theorem runPost_kept {s : Slave n} (h : s.InBounds) (bus : DataBus Word) :
    ∃ r, s.runPost bus = some r ∧ Kept s r.1 := by
  cases s with
  | memory d =>
      have hshift (w : MemWrite) (hmem : some w ∈ MemorySlave.shift d.writes) :
          w.addr + w.size ≤ n := by
        rcases List.mem_cons.mp hmem with heq | hold
        · cases heq
        · exact h w (List.dropLast_subset _ hold)
      unfold runPost MemoryDevice.runPost
      dsimp only
      cases hdue : MemorySlave.due d.writes with
      | none => exact ⟨_, rfl, ⟨hshift, rfl⟩⟩
      | some w =>
          -- the write was checked when it was accepted
          have hmem : some w ∈ d.writes := by
            obtain ⟨o, ho, how⟩ := Option.bind_eq_some_iff.mp hdue
            exact List.mem_of_getLast? (how ▸ ho)
          obtain ⟨mem, hstore⟩ := d.mem.store_of_le w.value (h w hmem)
          simp only [hstore, Option.map_some]
          exact ⟨_, rfl, ⟨hshift, rfl⟩⟩
  | clint c mtimeSet => exact ⟨_, rfl, ⟨trivial, rfl⟩⟩

/-- **A fetch stays inside when the whole group does**: the slave has checked one word. -/
theorem readInstruction_iff (s : Slave n) (addr : Nat) :
    (∃ r, s.readInstruction addr = some r) ↔
      (s.isMemory = true → addr + 4 * fetchWidth ≤ n) := by
  cases s with
  | memory d =>
      constructor
      · rintro ⟨r, hr⟩ -
        obtain ⟨words, hwords, -⟩ := Option.map_eq_some_iff.mp hr
        rw [MemoryDevice.readInstruction, show List.range fetchWidth = [0, 1, 2, 3] from rfl] at hwords
        simp only [List.mapM_cons, Option.bind_eq_bind, Option.bind_eq_some_iff] at hwords
        obtain ⟨-, -, -, ⟨-, -, -, ⟨-, -, -, ⟨v, hlast, -⟩, -⟩, -⟩, -⟩ := hwords
        have hle := RawMem.le_of_load (by omega) hlast
        rw [show fetchWidth = 4 from rfl]
        omega
      · intro hle
        have hgroup := hle rfl
        rw [show fetchWidth = 4 from rfl] at hgroup
        obtain ⟨v0, h0⟩ := d.mem.load_of_le (show addr + 4 * 0 + 4 ≤ n by omega)
        obtain ⟨v1, h1⟩ := d.mem.load_of_le (show addr + 4 * 1 + 4 ≤ n by omega)
        obtain ⟨v2, h2⟩ := d.mem.load_of_le (show addr + 4 * 2 + 4 ≤ n by omega)
        obtain ⟨v3, h3⟩ := d.mem.load_of_le (show addr + 4 * 3 + 4 ≤ n by omega)
        refine ⟨some [v0, v1, v2, v3], ?_⟩
        rw [readInstruction, MemoryDevice.readInstruction,
          show List.range fetchWidth = [0, 1, 2, 3] from rfl]
        simp only [List.mapM_cons, List.mapM_nil, h0, h1, h2, h3]
        rfl
  | clint c mtimeSet => exact iff_of_true ⟨_, rfl⟩ (fun hm => by cases hm)

end Slave

namespace SlaveBus

variable {b : SlaveBus} {addr : Word}

/-- Nothing that waits reaches outside. -/
def InBounds (b : SlaveBus) : Prop := ∀ d ∈ b.devices, d.slave.InBounds

/-- What stays the same: the ranges, and which of them hold bytes. -/
def layout (b : SlaveBus) : List (BusRange × Bool) :=
  b.devices.map fun d => (d.range, d.slave.isMemory)

/-- **A fetch group that stays inside the memory that answers**, or that no memory answers. -/
def FetchFits (layout : List (BusRange × Bool)) (addr : Word) : Prop :=
  ∀ i r, BusRange.findSlaveInfo (layout.map Prod.fst) addr true = some i →
    layout[i]? = some (r, true) → r.slave.check (r.slave.offset addr) 4 = true →
    (r.slave.offset addr).toNat + 4 * fetchWidth ≤ r.size.toNat

theorem layout_ranges (b : SlaveBus) : b.layout.map Prod.fst = b.ranges := by
  rw [layout, ranges, List.map_map]
  rfl

theorem find_iff {i : Nat} {d : Device} {isFetch : Bool} : b.find addr isFetch = some (i, d) ↔
    BusRange.findSlaveInfo b.ranges addr isFetch = some i ∧ b.devices[i]? = some d := by
  unfold find
  constructor
  · intro h
    obtain ⟨j, hj, hd⟩ := Option.bind_eq_some_iff.mp h
    obtain ⟨d', hd', heq⟩ := Option.map_eq_some_iff.mp hd
    cases heq
    exact ⟨hj, hd'⟩
  · rintro ⟨hi, hd⟩
    rw [hi, Option.bind_some, hd]
    rfl

theorem find_mem {i : Nat} {d : Device} {isFetch : Bool} (h : b.find addr isFetch = some (i, d)) :
    d ∈ b.devices := List.mem_of_getElem? (find_iff.mp h).2

/-- A bus after an event: still in bounds, with the same layout. -/
structure Kept (b b' : SlaveBus) : Prop where
  inBounds : b'.InBounds
  layout : b'.layout = b.layout

theorem put_kept (h : b.InBounds) {i : Nat} {d : Device} (hd : b.devices[i]? = some d)
    {s : Slave d.range.size.toNat} (hs : d.slave.Kept s) (data : DataBus Word) :
    b.Kept (b.put i d s data) := by
  refine ⟨fun d' hd' => ?_, ?_⟩
  · rcases List.mem_or_eq_of_mem_set hd' with hold | rfl
    · exact h d' hold
    · exact hs.inBounds
  · obtain ⟨hi, rfl⟩ := List.getElem?_eq_some_iff.mp hd
    change (b.devices.set i ⟨_, s⟩).map _ = _
    rw [List.map_set, hs.isMemory]
    have hlen : i < b.layout.length := by rwa [SlaveBus.layout, List.length_map]
    have hself := List.set_getElem_self hlen
    simp only [SlaveBus.layout, List.getElem_map] at hself ⊢
    exact hself

/-- **A load or store stays inside**, whatever the range and wherever it starts. -/
theorem read_kept (h : b.InBounds) (addr : Word) (size : Nat) :
    ∃ b', b.read addr size = some b' ∧ b.Kept b' := by
  unfold read
  cases hfind : b.find addr false with
  | none => exact ⟨_, rfl, ⟨h, rfl⟩⟩
  | some f =>
      obtain ⟨i, d⟩ := f
      dsimp only
      by_cases hcheck : d.range.slave.check (d.range.slave.offset addr) size = true
      · obtain ⟨r, hr, hkept⟩ := Slave.read_kept (h d (find_mem hfind)) b.data
          (SlaveInfo.le_of_check hcheck)
        rw [if_pos hcheck]
        refine ⟨_, by rw [hr]; rfl, ?_⟩
        exact put_kept h (find_iff.mp hfind).2 hkept _
      · rw [if_neg hcheck]
        exact ⟨b, rfl, ⟨h, rfl⟩⟩

theorem write_kept (h : b.InBounds) (addr : Word) (size : Nat) (value : Word) :
    b.Kept (b.write addr size value) := by
  unfold write
  cases hfind : b.find addr false with
  | none => exact ⟨h, rfl⟩
  | some f =>
      obtain ⟨i, d⟩ := f
      dsimp only
      by_cases hcheck : d.range.slave.check (d.range.slave.offset addr) size = true
      · rw [if_pos hcheck]
        have hle := SlaveInfo.le_of_check hcheck
        exact put_kept h (find_iff.mp hfind).2
          (Slave.write_kept (h d (find_mem hfind)) b.data hle) _
      · rw [if_neg hcheck]
        exact ⟨h, rfl⟩

theorem runPostAll_kept : ∀ (ds : List Device) (data : DataBus Word),
    (∀ d ∈ ds, d.slave.InBounds) → ∃ r, runPostAll ds data = some r ∧
      (∀ d ∈ r.1, d.slave.InBounds) ∧
      r.1.map (fun d => (d.range, d.slave.isMemory))
        = ds.map fun d => (d.range, d.slave.isMemory) := by
  intro ds
  induction ds with
  | nil => exact fun data _ => ⟨([], data), rfl, (fun d hd => by cases hd), rfl⟩
  | cons d ds ih =>
      intro data h
      obtain ⟨r, hr, hkept⟩ := Slave.runPost_kept (h d List.mem_cons_self) data
      obtain ⟨rest, hrest, hbounds, hlayout⟩ := ih r.2 fun d hd => h d (List.mem_cons_of_mem _ hd)
      refine ⟨(⟨d.range, r.1⟩ :: rest.1, rest.2), ?_, fun d' hd' => ?_, ?_⟩
      · rw [runPostAll, hr, Option.bind_some, hrest]
        rfl
      · rcases List.mem_cons.mp hd' with rfl | hd'
        · exact hkept.inBounds
        · exact hbounds d' hd'
      · rw [List.map_cons, List.map_cons, hlayout, hkept.isMemory]

/-- **A fetch stays inside exactly when its whole group does.** -/
theorem fetch_iff (b : SlaveBus) (addr : Word) :
    (∃ b', b.readInstruction addr = some b') ↔ FetchFits b.layout addr := by
  unfold readInstruction FetchFits
  rw [layout_ranges]
  cases hfind : b.find addr true with
  | none =>
      refine iff_of_true ⟨_, rfl⟩ fun i r hi hr => ?_
      rw [layout, List.getElem?_map] at hr
      obtain ⟨d, hd, -⟩ := Option.map_eq_some_iff.mp hr
      rw [find_iff.mpr ⟨hi, hd⟩] at hfind
      cases hfind
  | some f =>
      obtain ⟨i, d⟩ := f
      obtain ⟨hi, hd⟩ := find_iff.mp hfind
      have hlayout : b.layout[i]? = some (d.range, d.slave.isMemory) := by
        rw [layout, List.getElem?_map, hd]
        rfl
      dsimp only
      by_cases hcheck : d.range.slave.check (d.range.slave.offset addr) 4 = true
      · rw [if_pos hcheck]
        have hslave := d.slave.readInstruction_iff (d.range.slave.offset addr).toNat
        constructor
        · rintro ⟨b', hb'⟩ j r hj hr -
          obtain ⟨words, hwords, -⟩ := Option.map_eq_some_iff.mp hb'
          obtain rfl := Option.some.inj (hi.symm.trans hj)
          obtain ⟨rfl, hmem⟩ := Prod.mk.inj (Option.some.inj (hlayout.symm.trans hr))
          exact hslave.mp ⟨words, hwords⟩ hmem
        · intro hfits
          obtain ⟨words, hwords⟩ := hslave.mpr fun hmem =>
            hfits i d.range hi (hlayout.trans (by rw [hmem])) hcheck
          exact ⟨_, by rw [hwords]; rfl⟩
      · rw [if_neg hcheck]
        refine iff_of_true ⟨b, rfl⟩ fun j r hj hr hc => ?_
        obtain rfl := Option.some.inj (hi.symm.trans hj)
        obtain ⟨rfl, -⟩ := Prod.mk.inj (Option.some.inj (hlayout.symm.trans hr))
        exact absurd hc hcheck

theorem readInstruction_kept (h : b.InBounds) {b' : SlaveBus}
    (hfetch : b.readInstruction addr = some b') : b.Kept b' := by
  unfold readInstruction at hfetch
  split at hfetch
  · dsimp only at hfetch
    split at hfetch
    · obtain ⟨words, -, rfl⟩ := Option.map_eq_some_iff.mp hfetch
      exact ⟨h, rfl⟩
    · cases hfetch
      exact ⟨h, rfl⟩
  · cases hfetch
    exact ⟨h, rfl⟩

/-- **One event.** Only a fetch can leave an array. -/
theorem step_iff (h : b.InBounds) (e : Event) :
    (∃ b', b.step e = some b') ↔ ∀ addr, e = .fetch addr → FetchFits b.layout addr := by
  cases e with
  | read addr size =>
      obtain ⟨b', hb', -⟩ := read_kept h addr size
      exact iff_of_true ⟨b', hb'⟩ fun _ he => by cases he
  | write addr size value => exact iff_of_true ⟨_, rfl⟩ fun _ he => by cases he
  | fetch addr =>
      refine (fetch_iff b addr).trans ⟨fun hf a ha => ?_, fun hf => hf addr rfl⟩
      cases ha
      exact hf
  | runPost =>
      obtain ⟨r, hr, -⟩ := runPostAll_kept b.devices b.data h
      exact iff_of_true ⟨_, by rw [step, hr]; rfl⟩ fun _ he => by cases he
  | sync => exact iff_of_true ⟨_, rfl⟩ fun _ he => by cases he

theorem step_kept (h : b.InBounds) {e : Event} {b' : SlaveBus} (hstep : b.step e = some b') :
    b.Kept b' := by
  cases e with
  | read addr size =>
      obtain ⟨b₁, hb₁, hkept⟩ := read_kept h addr size
      cases hb₁.symm.trans hstep
      exact hkept
  | write addr size value =>
      cases hstep
      exact write_kept h addr size value
  | fetch addr => exact readInstruction_kept h hstep
  | runPost =>
      obtain ⟨r, hr, hbounds, hlayout⟩ := runPostAll_kept b.devices b.data h
      rw [step, hr] at hstep
      cases hstep
      exact ⟨hbounds, hlayout⟩
  | sync =>
      cases hstep
      exact ⟨h, rfl⟩

/-- **Runs.** -/
theorem run_iff (h : b.InBounds) (es : List Event) :
    (∃ b', b.run es = some b') ↔ ∀ addr, .fetch addr ∈ es → FetchFits b.layout addr := by
  induction es generalizing b with
  | nil => exact iff_of_true ⟨b, rfl⟩ fun _ hmem => by cases hmem
  | cons e es ih =>
      constructor
      · rintro ⟨b', hb'⟩ addr hmem
        obtain ⟨b₁, hstep, hrest⟩ := Option.bind_eq_some_iff.mp hb'
        have hkept := step_kept h hstep
        rcases List.mem_cons.mp hmem with rfl | hmem
        · exact (step_iff h _).mp ⟨b₁, hstep⟩ addr rfl
        · exact hkept.layout ▸ (ih hkept.inBounds).mp ⟨b', hrest⟩ addr hmem
      · intro hfits
        obtain ⟨b₁, hstep⟩ := (step_iff h e).mpr fun addr he =>
          hfits addr (he ▸ List.mem_cons_self)
        have hkept := step_kept h hstep
        obtain ⟨b', hrest⟩ := (ih hkept.inBounds).mpr fun addr hmem =>
          hkept.layout.symm ▸ hfits addr (List.mem_cons_of_mem _ hmem)
        exact ⟨b', by rw [run, hstep]; exact hrest⟩

theorem mapped_inBounds (l : List ((r : BusRange) × SlaveInit r.size.toNat)) :
    (mapped l).InBounds := by
  intro d hd
  obtain ⟨m, -, rfl⟩ := List.mem_map.mp hd
  exact Slave.inBounds_init m.2

/-- **Which runs stay inside the slaves.** Whatever slaves are mapped to whatever ranges and
whatever is asked of the bus, no load or store ever leaves the slave that was selected, neither
when it is accepted nor when its latency has passed; and a run leaves one exactly when it fetches
a group that begins in a memory and ends behind it. -/
theorem inside_iff (l : List ((r : BusRange) × SlaveInit r.size.toNat)) (es : List Event) :
    (∃ b, (mapped l).run es = some b) ↔
      ∀ addr, .fetch addr ∈ es → FetchFits (mapped l).layout addr :=
  run_iff (mapped_inBounds l) es

/-- The last word of the memory, fetched. -/
theorem inside_lastWord :
    ¬ ∃ b, (mapped [⟨⟨0x80000000, 0x100000, true⟩, .memory (fun _ => 0) 10 10⟩]).run
      [.fetch 0x800FFFFC] = some b := by
  rintro ⟨b, hb⟩
  let range : BusRange := ⟨0x80000000, 0x100000, true⟩
  let bus := mapped [⟨range, .memory (fun _ => 0) 10 10⟩]
  obtain ⟨b', hfetch, -⟩ := Option.bind_eq_some_iff.mp hb
  have hfits := (fetch_iff bus 0x800FFFFC).mp ⟨b', hfetch⟩ 0 range (by decide) rfl (by decide)
  revert hfits
  decide

end SlaveBus

end DreamCore
