import DreamCore.Memory.Slaves

/-!
# System access to the slaves of a bus

`write8_sys` to `read32_sys`: the loader and the debugger go past the latencies.
There is a function for each size on three levels, the bus, `slave_base` and the
memory, and what a read returns passes through the return type of each. On the
bus `read32_sys` returns a `uint16_t`.

Seen from outside a bus is a byte at every address. A write that a slave admits
changes the bytes it covers, and a read puts bytes together.
-/

namespace DreamCore

/-! ## The three levels -/

/-- `_write8_sys`, `_write16_sys` and `_write32_sys`; `slave_base` has empty ones, and the CLINT
no others. -/
def Slave.storeSys {n : Nat} (s : Slave n) (addr size : Nat) (value : Word) : Option (Slave n) :=
  match s with
  | .memory d => (d.mem.store addr size value).map fun mem => .memory { d with mem := mem }
  | .clint _ _ => some s

/-- `_read8_sys`, `_read16_sys` and `_read32_sys`. -/
def Slave.loadSys {n : Nat} (s : Slave n) (addr size : Nat) : Option Word :=
  match s with
  | .memory d => d.mem.load addr size
  | .clint _ _ => some 0

/-- `slave_base::write8_sys`, `write16_sys` and `write32_sys`. -/
def Device.writeSys (d : Device) (offset : Word) (size : Nat) (value : Word) : Option Device :=
  if d.range.slave.check offset size then
    (d.slave.storeSys offset.toNat size value).map fun s => ⟨d.range, s⟩
  else some d

/-- `slave_base::read8_sys`, `read16_sys` and `read32_sys`. -/
def Device.readSys (d : Device) (offset : Word) (size : Nat) : Option Word :=
  if d.range.slave.check offset size then d.slave.loadSys offset.toNat size else some 0

namespace SlaveBus

/-- The frame of the writes of the bus. -/
def writeSys (b : SlaveBus) (addr : Word) (size : Nat) (value : Word) : Option SlaveBus :=
  match b.find addr false with
  | some (i, d) =>
      (d.writeSys (d.range.slave.offset addr) size value).map fun d' =>
        { b with devices := b.devices.set i d' }
  | none => some b

/-- The frame of the reads of the bus. -/
def readSys (b : SlaveBus) (addr : Word) (size : Nat) : Option Word :=
  match b.find addr false with
  | some (_, d) => d.readSys (d.range.slave.offset addr) size
  | none => some 0

def write8Sys (b : SlaveBus) (addr : Word) (value : BitVec 8) : Option SlaveBus :=
  b.writeSys addr 1 (value.setWidth 32)

def write16Sys (b : SlaveBus) (addr : Word) (value : BitVec 16) : Option SlaveBus :=
  b.writeSys addr 2 (value.setWidth 32)

def write32Sys (b : SlaveBus) (addr : Word) (value : BitVec 32) : Option SlaveBus :=
  b.writeSys addr 4 value

def read8Sys (b : SlaveBus) (addr : Word) : Option (BitVec 8) :=
  (b.readSys addr 1).map fun v => v.setWidth 8

def read16Sys (b : SlaveBus) (addr : Word) : Option (BitVec 16) :=
  (b.readSys addr 2).map fun v => v.setWidth 16

/-- The return type is `uint16_t` here, too. -/
def read32Sys (b : SlaveBus) (addr : Word) : Option (BitVec 16) :=
  (b.readSys addr 4).map fun v => v.setWidth 16

/-- A memory gets the access: it is mapped there, and its `slave_base` admits offset and size. -/
def admits (b : SlaveBus) (addr : Word) (size : Nat) : Bool :=
  match b.find addr false with
  | some (_, d) => d.slave.isMemory && d.range.slave.check (d.range.slave.offset addr) size
  | none => false

end SlaveBus

/-- A call of one of the write functions. -/
inductive SysWrite where
  | write8 (addr : Word) (value : BitVec 8)
  | write16 (addr : Word) (value : BitVec 16)
  | write32 (addr : Word) (value : BitVec 32)

namespace SysWrite

def addr : SysWrite → Word
  | .write8 addr _ | .write16 addr _ | .write32 addr _ => addr

def size : SysWrite → Nat
  | .write8 _ _ => 1
  | .write16 _ _ => 2
  | .write32 _ _ => 4

def value : SysWrite → Word
  | .write8 _ value => value.setWidth 32
  | .write16 _ value => value.setWidth 32
  | .write32 _ value => value

/-- The call. -/
def call (w : SysWrite) (b : SlaveBus) : Option SlaveBus :=
  match w with
  | .write8 addr value => b.write8Sys addr value
  | .write16 addr value => b.write16Sys addr value
  | .write32 addr value => b.write32Sys addr value

theorem call_eq (w : SysWrite) (b : SlaveBus) : w.call b = b.writeSys w.addr w.size w.value := by
  cases w <;> rfl

end SysWrite

/-- Calls, one after the other. -/
def SlaveBus.sysWrites : SlaveBus → List SysWrite → Option SlaveBus
  | b, [] => some b
  | b, w :: ws => (w.call b).bind fun b => sysWrites b ws

/-! ## Bytes at addresses -/

/-- The byte last written to an address by calls that a memory admits, `v` if there is none. -/
def lastByte (b : SlaveBus) : List SysWrite → Word → BitVec 8 → BitVec 8
  | [], _, v => v
  | w :: ws, a, v =>
      lastByte b ws a
        (if b.admits w.addr w.size ∧ w.addr.toNat ≤ a.toNat ∧ a.toNat < w.addr.toNat + w.size then
          w.value.extractLsb' (8 * (a.toNat - w.addr.toNat)) 8
        else v)

/-- The calls of `map` that made the bus. -/
def BusRange.mapAll : List BusRange → List BusRange → Option (List BusRange)
  | l, [] => some l
  | l, req :: reqs => (map l req).bind fun l => mapAll l reqs

/-- Two ranges of a bus in which addresses are found have none in common. -/
def BusRange.Separate (l : List BusRange) : Prop :=
  l.Pairwise fun s t => s.Ends → t.Ends → Disjoint s.cover t.cover

namespace BusRange

theorem separate_map {l l' : List BusRange} {req : BusRange} (h : Separate l)
    (hmap : map l req = some l') : Separate l' := by
  unfold map at hmap
  split at hmap
  · cases hmap
  · rename_i hover
    cases hmap
    refine List.pairwise_append.mpr ⟨h, List.pairwise_singleton _ _, fun s hs t ht => ?_⟩
    obtain rfl := List.mem_singleton.mp ht
    intro hends hreq
    by_contra hoverlap
    exact hover (List.any_eq_true.mpr ⟨s, hs, overrides_of_overlap hends hreq hoverlap⟩)

/-- **What `map` refuses keeps the ranges separate**, whatever is asked for. -/
theorem separate_mapAll {reqs l l' : List BusRange} (h : Separate l)
    (hmap : mapAll l reqs = some l') : Separate l' := by
  induction reqs generalizing l with
  | nil =>
      cases hmap
      exact h
  | cons req reqs ih =>
      obtain ⟨l₁, hone, hrest⟩ := Option.bind_eq_some_iff.mp hmap
      exact ih (separate_map h hone) hrest

/-- An address that is found lies in a range that ends below 2^32. -/
theorem ends_of_find {s : BusRange} {a : Word} (h : s.slave.maps a false = true) :
    s.Ends ∧ a ∈ s.cover := by
  obtain ⟨hlo, hhi⟩ := ((maps_iff s a false).mp h).1
  rw [BitVec.le_def] at hlo
  rw [BitVec.lt_def] at hhi
  have hends : s.Ends := by
    have ha := a.isLt
    have hs := s.size.isLt
    have := end_toNat s.base s.size
    unfold Ends
    omega
  have hmem := (hends.maps_iff a false).mp h
  rw [coverFor_false] at hmem
  exact ⟨hends, hmem⟩

/-- The address and all others of the range are found in the same place. -/
theorem find_of_cover {l : List BusRange} (h : Separate l) {a a' : Word} {i : Nat} {s : BusRange}
    (hfind : findSlaveInfo l a false = some i) (hs : l[i]? = some s) (ha' : a' ∈ s.cover) :
    findSlaveInfo l a' false = some i := by
  obtain ⟨hi, htest, -⟩ := List.findIdx?_eq_some_iff_getElem.mp hfind
  obtain ⟨hi', rfl⟩ := List.getElem?_eq_some_iff.mp hs
  obtain ⟨hends, -⟩ := ends_of_find htest
  refine List.findIdx?_eq_some_iff_getElem.mpr ⟨hi, ?_, fun j hji hj => ?_⟩
  · rw [hends.maps_iff, coverFor_false]
    exact ha'
  · have hjl : j < l.length := Nat.lt_trans hji hi
    obtain ⟨hends', hmem⟩ := ends_of_find hj
    have hdisjoint := List.pairwise_iff_getElem.mp h j i hjl hi hji hends' hends
    exact Set.disjoint_left.mp hdisjoint hmem ha'

end BusRange

namespace RawMem

variable {n : Nat}

/-- The byte at an offset, where there is one. -/
def byte (m : RawMem n) (addr : Nat) : BitVec 8 := (m.get addr).getD 0

theorem get_of_lt (m : RawMem n) {addr : Nat} (h : addr < n) : m.get addr = some (m.byte addr) := by
  have hget : m.get addr = some (m ⟨addr, h⟩) := dif_pos h
  rw [byte, hget]
  rfl

/-- **A load puts the bytes together.** -/
theorem load_bytes (m : RawMem n) {addr size : Nat} (h : addr + size ≤ n) :
    m.load addr size = some (littleEndian ((List.range' addr size).map m.byte)) := by
  have hbytes (k : Nat) : ∀ addr, addr + k ≤ n →
      (List.range' addr k).mapM m.get = some ((List.range' addr k).map m.byte) := by
    induction k with
    | zero => exact fun _ _ => rfl
    | succ k ih =>
        intro addr hle
        rw [List.range'_succ, List.mapM_cons, m.get_of_lt (by omega), ih (addr + 1) (by omega)]
        rfl
  rw [load, hbytes size addr h]
  rfl

/-- **A store changes the bytes it covers.** -/
theorem store_bytes {m m' : RawMem n} {addr size : Nat} {value : Word}
    (h : m.store addr size value = some m') (k : Nat) :
    m'.byte k = if addr ≤ k ∧ k < addr + size then value.extractLsb' (8 * (k - addr)) 8
      else m.byte k := by
  unfold store at h
  split at h
  · cases h
    unfold byte get
    by_cases hk : k < n
    · rw [dif_pos hk, dif_pos hk]
      by_cases hin : addr ≤ k ∧ k < addr + size <;> simp [hin]
    · have hout : ¬ (addr ≤ k ∧ k < addr + size) := by omega
      rw [dif_neg hk, dif_neg hk, if_neg hout]
  · cases h

end RawMem

namespace SlaveBus

variable {b : SlaveBus} {addr a : Word} {size : Nat}

/-- What a system access to a memory comes to. -/
structure Admitted (b : SlaveBus) (addr : Word) (size : Nat) (i : Nat) (r : BusRange)
    (d : MemoryDevice r.size.toNat) : Prop where
  found : b.find addr false = some (i, ⟨r, .memory d⟩)
  check : r.slave.check (r.slave.offset addr) size = true

theorem admits_iff : b.admits addr size = true ↔ ∃ i r d, b.Admitted addr size i r d := by
  unfold admits
  constructor
  · intro h
    split at h
    · rename_i i d hfind
      obtain ⟨r, s⟩ := d
      cases s with
      | memory d => exact ⟨i, r, d, hfind, by simpa [Slave.isMemory] using h⟩
      | clint c m => simp [Slave.isMemory] at h
    · cases h
  · rintro ⟨i, r, d, hfind, hcheck⟩
    rw [hfind]
    simpa [Slave.isMemory] using hcheck

/-- The offset of an address that is found. -/
theorem offset_of_cover {r : BusRange} (h : a ∈ r.cover) :
    (r.slave.offset a).toNat = a.toNat - r.base.toNat := by
  unfold SlaveInfo.offset
  exact BitVec.toNat_sub_of_le (show r.base ≤ a from h.1)

theorem find_cover {i : Nat} {d : Device} (h : b.find a false = some (i, d)) :
    d.range.Ends ∧ a ∈ d.range.cover := by
  obtain ⟨hidx, hdev⟩ := find_iff.mp h
  obtain ⟨hi, htest, -⟩ := List.findIdx?_eq_some_iff_getElem.mp hidx
  have hget : b.ranges[i]? = some d.range := by
    rw [ranges, List.getElem?_map, hdev]
    rfl
  rw [(List.getElem?_eq_some_iff.mp hget).2] at htest
  exact BusRange.ends_of_find htest

section Admitted

variable {i : Nat} {r : BusRange} {d : MemoryDevice r.size.toNat}

/-- **The bytes of an access lie in one array**, one behind the other. -/
theorem Admitted.byte (h : b.Admitted addr size i r d) (hsep : BusRange.Separate b.ranges)
    (hlo : addr.toNat ≤ a.toNat) (hhi : a.toNat < addr.toNat + size) :
    b.find a false = some (i, ⟨r, .memory d⟩) ∧
      (r.slave.offset a).toNat = (r.slave.offset addr).toNat + (a.toNat - addr.toNat) ∧
      (r.slave.offset a).toNat < r.size.toNat := by
  obtain ⟨hidx, hdev⟩ := find_iff.mp h.found
  have hmem : addr ∈ r.cover := (find_cover h.found).2
  have hle := SlaveInfo.le_of_check h.check
  have hoff := offset_of_cover hmem
  change _ ≤ r.size.toNat at hle
  obtain ⟨hbase, -⟩ := hmem
  have hcover : a ∈ r.cover := ⟨by omega, by omega⟩
  have hget : b.ranges[i]? = some r := by
    rw [ranges, List.getElem?_map, hdev]
    rfl
  have hfind := BusRange.find_of_cover hsep hidx hget hcover
  have hoff' := offset_of_cover hcover
  exact ⟨find_iff.mpr ⟨hfind, hdev⟩, by omega, by omega⟩

end Admitted

/-- The byte at an address. -/
def byteAt (b : SlaveBus) (a : Word) : BitVec 8 :=
  match b.find a false with
  | some (_, ⟨r, .memory d⟩) => (d.mem.get (r.slave.offset a).toNat).getD 0
  | _ => 0

/-- Any offset inside is aligned to a byte. -/
theorem check_one {r : BusRange} (h : a ∈ r.cover) : r.slave.check (r.slave.offset a) 1 = true := by
  have hoff := offset_of_cover h
  obtain ⟨hlo, hhi⟩ := h
  have hlt : (r.slave.offset a).toNat < r.slave.size := by
    change _ < r.size.toNat
    omega
  have halign : checkAlign (r.slave.offset a) 1 = true :=
    (checkAlign_pow (r.slave.offset a) 0 (by omega)).mpr (Nat.mod_one _)
  unfold SlaveInfo.check
  rw [halign, decide_eq_true hlt, decide_eq_true (by omega)]
  rfl

theorem littleEndian_one (v : BitVec 8) : (littleEndian [v]).setWidth 8 = v := by
  simp [littleEndian]

/-- **Every address can be read as a byte.** -/
theorem read8Sys_eq (b : SlaveBus) (a : Word) : b.read8Sys a = some (b.byteAt a) := by
  unfold read8Sys readSys byteAt
  cases hfind : b.find a false with
  | none => rfl
  | some f =>
      obtain ⟨i, r, s⟩ := f
      have hcover : a ∈ r.cover := (find_cover hfind).2
      dsimp only
      unfold Device.readSys
      dsimp only
      rw [if_pos (check_one hcover)]
      cases s with
      | clint c m => rfl
      | memory d =>
          have hle := SlaveInfo.le_of_check (check_one hcover)
          have hload := d.mem.load_bytes hle
          dsimp only [Slave.loadSys]
          rw [hload, Option.map_some, List.range'_one, List.map_singleton, littleEndian_one]
          rfl

/-- **An admitted read** puts together the bytes at its addresses. -/
theorem readSys_eq (hsep : BusRange.Separate b.ranges) (h : b.admits addr size = true) :
    b.readSys addr size = some (littleEndian
      ((List.range' addr.toNat size).map fun k => b.byteAt (BitVec.ofNat 32 k))) := by
  obtain ⟨i, r, d, hadm⟩ := admits_iff.mp h
  have hle := SlaveInfo.le_of_check hadm.check
  have hmem : addr ∈ r.cover := (find_cover hadm.found).2
  have hends : r.base.toNat + r.size.toNat < 2 ^ 32 := (find_cover hadm.found).1
  have hoff := offset_of_cover hmem
  change _ ≤ r.size.toNat at hle
  unfold readSys
  rw [hadm.found]
  dsimp only
  unfold Device.readSys
  dsimp only
  rw [if_pos hadm.check, Slave.loadSys, d.mem.load_bytes hle]
  congr 2
  refine List.ext_getElem (by simp) fun k hk hk' => ?_
  rw [List.length_map, List.length_range'] at hk
  rw [List.getElem_map, List.getElem_map, List.getElem_range', List.getElem_range']
  have hnat : (BitVec.ofNat 32 (addr.toNat + 1 * k)).toNat = addr.toNat + k := by
    rw [BitVec.toNat_ofNat, Nat.one_mul, Nat.mod_eq_of_lt]
    have hbase := hmem.1
    omega
  obtain ⟨hfind, hoffset, hlt⟩ := hadm.byte hsep (a := BitVec.ofNat 32 (addr.toNat + 1 * k))
    (by omega) (by omega)
  unfold byteAt
  rw [hfind]
  dsimp only
  rw [hoffset, hnat, RawMem.byte, Nat.add_sub_cancel_left, Nat.one_mul]

/-- What a write leaves as it is. -/
structure SameLayout (b b' : SlaveBus) : Prop where
  ranges : b'.ranges = b.ranges
  admits : ∀ addr size, b'.admits addr size = b.admits addr size

theorem sameLayout_of_layout {b' : SlaveBus} (h : b'.layout = b.layout) : b.SameLayout b' := by
  have hranges : b'.ranges = b.ranges := by
    rw [← layout_ranges, h, layout_ranges]
  have hone (c c' : SlaveBus) (hc : c'.layout = c.layout) (addr : Word) (size : Nat)
      (hadmits : c.admits addr size = true) : c'.admits addr size = true := by
    obtain ⟨i, r, d, hfound, hcheck⟩ := admits_iff.mp hadmits
    obtain ⟨hidx, hdev⟩ := find_iff.mp hfound
    have hlay : c'.layout[i]? = some (r, true) := by
      rw [hc, layout, List.getElem?_map, hdev]
      rfl
    rw [layout, List.getElem?_map] at hlay
    obtain ⟨⟨r', s⟩, hdev', heq⟩ := Option.map_eq_some_iff.mp hlay
    obtain ⟨rfl, hmem⟩ := Prod.mk.inj heq
    cases s with
    | clint c m => cases hmem
    | memory d' =>
        refine admits_iff.mpr ⟨i, r', d', find_iff.mpr ⟨?_, hdev'⟩, hcheck⟩
        rw [← layout_ranges, hc, layout_ranges]
        exact hidx
  exact ⟨hranges, fun addr size =>
    Bool.eq_iff_iff.mpr ⟨hone b' b h.symm addr size, hone b b' h addr size⟩⟩

/-- A device changes, its range and its kind do not. -/
theorem layout_set {i : Nat} {d d' : Device} (hd : b.devices[i]? = some d)
    (hrange : (d'.range, d'.slave.isMemory) = (d.range, d.slave.isMemory)) :
    SlaveBus.layout { b with devices := b.devices.set i d' } = b.layout := by
  obtain ⟨hi, rfl⟩ := List.getElem?_eq_some_iff.mp hd
  change (b.devices.set i d').map _ = _
  rw [List.map_set, hrange]
  have hlen : i < b.layout.length := by rwa [SlaveBus.layout, List.length_map]
  have hself := List.set_getElem_self hlen
  simp only [SlaveBus.layout, List.getElem_map] at hself ⊢
  exact hself

/-- The slave at one place is another one now. -/
theorem find_set {i : Nat} {d d' : Device} (hd : b.devices[i]? = some d)
    (hrange : d'.range = d.range) (a : Word) (isFetch : Bool) :
    SlaveBus.find { b with devices := b.devices.set i d' } a isFetch
      = (b.find a isFetch).map fun f => if f.1 = i then (i, d') else f := by
  obtain ⟨hi, rfl⟩ := List.getElem?_eq_some_iff.mp hd
  have hranges : SlaveBus.ranges { b with devices := b.devices.set i d' } = b.ranges := by
    change (b.devices.set i d').map Device.range = b.devices.map Device.range
    have hlen : i < (b.devices.map Device.range).length := by rwa [List.length_map]
    have hself := List.set_getElem_self hlen
    rw [List.map_set, hrange]
    rwa [List.getElem_map] at hself
  unfold find
  rw [hranges]
  cases BusRange.findSlaveInfo b.ranges a isFetch with
  | none => rfl
  | some j =>
      by_cases hji : j = i
      · subst hji
        simp [hi]
      · have hij : i ≠ j := Ne.symm hji
        simp only [Option.bind_some, List.getElem?_set_ne hij, Option.map_map]
        congr 1
        funext d
        exact (if_neg hji).symm

/-- A write that no memory admits changes nothing. -/
theorem writeSys_of_not_admits (h : ¬ b.admits addr size = true) (value : Word) :
    b.writeSys addr size value = some b := by
  unfold writeSys
  cases hfind : b.find addr false with
  | none => rfl
  | some f =>
      obtain ⟨i, r, s⟩ := f
      obtain ⟨hi, hdev⟩ := List.getElem?_eq_some_iff.mp (find_iff.mp hfind).2
      have hput : { b with devices := b.devices.set i ⟨r, s⟩ } = b := by
        rw [← hdev, List.set_getElem_self]
      dsimp only
      unfold Device.writeSys
      dsimp only
      split
      · rename_i hcheck
        cases s with
        | memory d => exact absurd (admits_iff.mpr ⟨i, r, d, hfind, hcheck⟩) h
        | clint c m => exact congrArg some hput
      · exact congrArg some hput

/-- One that a memory admits goes to its array. -/
theorem Admitted.writeSys {i : Nat} {r : BusRange} {d : MemoryDevice r.size.toNat}
    (h : b.Admitted addr size i r d) (value : Word) :
    ∃ mem, d.mem.store (r.slave.offset addr).toNat size value = some mem ∧
      b.writeSys addr size value
        = some { b with devices := b.devices.set i ⟨r, .memory { d with mem := mem }⟩ } := by
  obtain ⟨mem, hstore⟩ := d.mem.store_of_le value (SlaveInfo.le_of_check h.check)
  refine ⟨mem, hstore, ?_⟩
  unfold SlaveBus.writeSys
  rw [h.found]
  dsimp only
  unfold Device.writeSys
  dsimp only
  rw [if_pos h.check, Slave.storeSys, hstore]
  rfl

/-- **A write** changes the bytes at the addresses it covers, if a memory admits it, and nothing
else. -/
theorem writeSys_bytes (hsep : BusRange.Separate b.ranges) (addr : Word) (size : Nat)
    (value : Word) : ∃ b', b.writeSys addr size value = some b' ∧ b.SameLayout b' ∧
      ∀ a, b'.byteAt a =
        if b.admits addr size ∧ addr.toNat ≤ a.toNat ∧ a.toNat < addr.toNat + size then
          value.extractLsb' (8 * (a.toNat - addr.toNat)) 8
        else b.byteAt a := by
  by_cases hadmits : b.admits addr size = true
  · obtain ⟨i, r, d, hadm⟩ := admits_iff.mp hadmits
    obtain ⟨mem, hstore, hwrite⟩ := hadm.writeSys value
    have hdev := (find_iff.mp hadm.found).2
    refine ⟨_, hwrite, sameLayout_of_layout (layout_set hdev rfl), fun a => ?_⟩
    -- an address of the access is found at the place that was written
    have hplace (hn : b.admits addr size = true ∧ addr.toNat ≤ a.toNat ∧
        a.toNat < addr.toNat + size) : b.find a false = some (i, ⟨r, .memory d⟩) :=
      (hadm.byte hsep hn.2.1 hn.2.2).1
    let written : Device := ⟨r, .memory { d with mem := mem }⟩
    have hrange : written.range = r := rfl
    have hnew : SlaveBus.find { b with devices := b.devices.set i written } a false
        = (b.find a false).map fun f => if f.1 = i then (i, written) else f :=
      find_set hdev hrange a false
    cases hfind : b.find a false with
    | none =>
        rw [hfind] at hnew hplace
        rw [if_neg (fun hn => by cases hplace hn), byteAt, byteAt, hnew, hfind]
        rfl
    | some f =>
        obtain ⟨j, dj⟩ := f
        rw [hfind] at hnew hplace
        by_cases hji : j = i
        · subst hji
          obtain rfl := Option.some.inj (hdev.symm.trans (find_iff.mp hfind).2)
          rw [Option.map_some, if_pos rfl] at hnew
          have hcover : a ∈ r.cover := (find_cover hfind).2
          have hmem : addr ∈ r.cover := (find_cover hadm.found).2
          have hoff := offset_of_cover hcover
          have hoff' := offset_of_cover hmem
          have hbase := hcover.1
          have hbase' := hmem.1
          rw [byteAt, byteAt, hnew, hfind]
          refine (RawMem.store_bytes hstore (r.slave.offset a).toNat).trans ?_
          by_cases hin : addr.toNat ≤ a.toNat ∧ a.toNat < addr.toNat + size
          · rw [if_pos ⟨by omega, by omega⟩, if_pos ⟨hadmits, hin⟩]
            congr 2
            omega
          · rw [if_neg (fun hn => hin ⟨by omega, by omega⟩), if_neg (fun hn => hin hn.2)]
            rfl
        · rw [Option.map_some, if_neg hji] at hnew
          have hother : ¬ (b.admits addr size = true ∧ addr.toNat ≤ a.toNat ∧
              a.toNat < addr.toNat + size) := fun hn =>
            hji (congrArg (fun f : Nat × Device => f.1) (Option.some.inj (hplace hn)))
          rw [if_neg hother, byteAt, byteAt, hnew, hfind]
  · exact ⟨b, writeSys_of_not_admits hadmits value, ⟨rfl, fun _ _ => rfl⟩,
      fun a => (if_neg fun hn => hadmits hn.1).symm⟩

/-- **Calls, one after the other**: at every address the byte last written. -/
theorem sysWrites_bytes (ws : List SysWrite) : ∀ b : SlaveBus, BusRange.Separate b.ranges →
    ∃ b', b.sysWrites ws = some b' ∧ b.SameLayout b' ∧
      ∀ a, b'.byteAt a = lastByte b ws a (b.byteAt a) := by
  induction ws with
  | nil => exact fun b _ => ⟨b, rfl, ⟨rfl, fun _ _ => rfl⟩, fun _ => rfl⟩
  | cons w ws ih =>
      intro b hsep
      obtain ⟨b₁, hone, hsame, hbytes⟩ := writeSys_bytes hsep w.addr w.size w.value
      obtain ⟨b', hrest, hsame', hbytes'⟩ := ih b₁ (hsame.ranges.symm ▸ hsep)
      have hlast (ws : List SysWrite) : ∀ a v, lastByte b₁ ws a v = lastByte b ws a v := by
        induction ws with
        | nil => exact fun _ _ => rfl
        | cons w ws ihw =>
            intro a v
            rw [lastByte, lastByte, hsame.admits, ihw]
      refine ⟨b', ?_, ⟨hsame'.ranges.trans hsame.ranges, fun addr size =>
        (hsame'.admits addr size).trans (hsame.admits addr size)⟩, fun a => ?_⟩
      · rw [sysWrites, SysWrite.call_eq, hone]
        exact hrest
      · rw [hbytes' a, hlast, hbytes a, lastByte]

end SlaveBus

/-! ## Words -/

/-- The value of some bytes as a number. -/
theorem littleEndian_toNat (bytes : List (BitVec 8)) (h : bytes.length ≤ 4) :
    (littleEndian bytes).toNat = bytes.foldr (fun v acc => v.toNat + 256 * acc) 0 ∧
      (littleEndian bytes).toNat < 256 ^ bytes.length := by
  induction bytes with
  | nil => exact ⟨rfl, by decide⟩
  | cons v bytes ih =>
      rw [List.length_cons] at h
      obtain ⟨heq, hlt⟩ := ih (by omega)
      have hv := v.isLt
      have hpow : 256 ^ bytes.length ≤ 256 ^ 3 := Nat.pow_le_pow_right (by omega) (by omega)
      have hsum : (littleEndian (v :: bytes)).toNat = v.toNat + 256 * (littleEndian bytes).toNat := by
        have hor := Nat.shiftLeft_add_eq_or_of_lt (show v.toNat < 2 ^ 8 from hv)
          (littleEndian bytes).toNat
        rw [littleEndian, BitVec.toNat_or, BitVec.toNat_shiftLeft, BitVec.toNat_setWidth,
          Nat.mod_eq_of_lt (show v.toNat < 2 ^ 32 by omega),
          Nat.mod_eq_of_lt (by rw [Nat.shiftLeft_eq]; omega), ← hor, Nat.shiftLeft_eq]
        omega
      refine ⟨by rw [hsum, heq, List.foldr_cons], ?_⟩
      rw [hsum, List.length_cons, Nat.pow_succ]
      omega

theorem littleEndian_two (v w : BitVec 8) : (littleEndian [v, w]).setWidth 16 = w ++ v := by
  apply BitVec.eq_of_toNat_eq
  obtain ⟨heq, -⟩ := littleEndian_toNat [v, w] (by simp)
  have hv := v.isLt
  have hw := w.isLt
  rw [BitVec.toNat_setWidth, heq, BitVec.toNat_append, ← Nat.shiftLeft_add_eq_or_of_lt hv,
    Nat.shiftLeft_eq]
  simp only [List.foldr_cons, List.foldr_nil]
  omega

/-- Four bytes, the low one on the right. -/
theorem append_toNat (v₀ v₁ v₂ v₃ : BitVec 8) : (v₃ ++ v₂ ++ v₁ ++ v₀).toNat
    = v₀.toNat + 256 * (v₁.toNat + 256 * (v₂.toNat + 256 * v₃.toNat)) := by
  have h0 := v₀.isLt
  have h1 := v₁.isLt
  have h2 := v₂.isLt
  rw [BitVec.toNat_append, ← Nat.shiftLeft_add_eq_or_of_lt h0, Nat.shiftLeft_eq,
    BitVec.toNat_append, ← Nat.shiftLeft_add_eq_or_of_lt h1, Nat.shiftLeft_eq,
    BitVec.toNat_append, ← Nat.shiftLeft_add_eq_or_of_lt h2, Nat.shiftLeft_eq]
  omega

theorem littleEndian_four (v₀ v₁ v₂ v₃ : BitVec 8) :
    littleEndian [v₀, v₁, v₂, v₃] = v₃ ++ v₂ ++ v₁ ++ v₀ := by
  apply BitVec.eq_of_toNat_eq
  obtain ⟨heq, -⟩ := littleEndian_toNat [v₀, v₁, v₂, v₃] (by simp)
  rw [heq, append_toNat]
  rfl

/-- **The low half of a word is the word when the upper two bytes are zero**, and in no other
case. -/
theorem truncated_iff (v₀ v₁ v₂ v₃ : BitVec 8) :
    ((v₃ ++ v₂ ++ v₁ ++ v₀).setWidth 16).setWidth 32 = v₃ ++ v₂ ++ v₁ ++ v₀ ↔
      v₂ = 0 ∧ v₃ = 0 := by
  have h0 := v₀.isLt
  have h1 := v₁.isLt
  rw [← BitVec.toNat_inj, BitVec.toNat_setWidth, BitVec.toNat_setWidth, append_toNat,
    ← BitVec.toNat_inj, ← BitVec.toNat_inj]
  simp
  omega

namespace SlaveBus

variable {b : SlaveBus} {a : Word}

theorem read16Sys_eq (hsep : BusRange.Separate b.ranges) (h : b.admits a 2 = true) :
    b.read16Sys a = some (b.byteAt (a + 1) ++ b.byteAt a) := by
  have hself : BitVec.ofNat 32 a.toNat = a := by rw [BitVec.ofNat_toNat, BitVec.setWidth_eq]
  have hone : BitVec.ofNat 32 (a.toNat + 1) = a + 1 := by
    rw [BitVec.ofNat_add, hself]
    rfl
  have hread := readSys_eq hsep h
  rw [show (2 : Nat) = 1 + 1 from rfl, List.range'_succ, List.range'_one, List.map_cons,
    List.map_singleton, hself, hone] at hread
  rw [read16Sys, hread, Option.map_some, littleEndian_two]

/-- The word at an address, whatever is read of it. -/
def wordAt (b : SlaveBus) (a : Word) : Word :=
  b.byteAt (a + 3) ++ b.byteAt (a + 2) ++ b.byteAt (a + 1) ++ b.byteAt a

theorem read32Sys_eq (hsep : BusRange.Separate b.ranges) (h : b.admits a 4 = true) :
    b.read32Sys a = some ((b.wordAt a).setWidth 16) := by
  have hself : BitVec.ofNat 32 a.toNat = a := by rw [BitVec.ofNat_toNat, BitVec.setWidth_eq]
  have hadd (k : Nat) : BitVec.ofNat 32 (a.toNat + k) = a + BitVec.ofNat 32 k := by
    rw [BitVec.ofNat_add, hself]
  have hread := readSys_eq hsep h
  have hrange : List.range' a.toNat 4 = [a.toNat, a.toNat + 1, a.toNat + 2, a.toNat + 3] := rfl
  rw [hrange, List.map_cons, List.map_cons, List.map_cons, List.map_singleton, hself, hadd, hadd,
    hadd, littleEndian_four] at hread
  rw [read32Sys, hread, Option.map_some]
  rfl

/-- An admitted access does not wrap around. -/
theorem noWrap_of_admits {size : Nat} (h : b.admits a size = true) : a.toNat + size < 2 ^ 32 := by
  obtain ⟨i, r, d, hadm⟩ := admits_iff.mp h
  have hle := SlaveInfo.le_of_check hadm.check
  have hmem : a ∈ r.cover := (find_cover hadm.found).2
  have hends : r.base.toNat + r.size.toNat < 2 ^ 32 := (find_cover hadm.found).1
  have hoff := offset_of_cover hmem
  have hlo := hmem.1
  change _ ≤ r.size.toNat at hle
  omega

/-- The bytes an admitted write leaves. -/
theorem writeSys_byteAt (hsep : BusRange.Separate b.ranges) {size : Nat}
    (h : b.admits a size = true) (value : Word) : ∃ b', b.writeSys a size value = some b' ∧
      b.SameLayout b' ∧
      ∀ k < size, b'.byteAt (a + BitVec.ofNat 32 k) = value.extractLsb' (8 * k) 8 := by
  obtain ⟨b', hwrite, hsame, hbytes⟩ := writeSys_bytes hsep a size value
  refine ⟨b', hwrite, hsame, fun k hk => ?_⟩
  have hwrap := noWrap_of_admits h
  have hnat : (a + BitVec.ofNat 32 k).toNat = a.toNat + k := by
    rw [BitVec.toNat_add, BitVec.toNat_ofNat]
    omega
  rw [hbytes, hnat, if_pos ⟨h, by omega, by omega⟩, Nat.add_sub_cancel_left]

end SlaveBus

/-- The bus reads back what was written: any byte at all addresses, half words and words wherever
a memory admits them. `truth` is the byte that should be at an address. -/
structure ReadsBack (b : SlaveBus) (truth : Word → BitVec 8) : Prop where
  byte : ∀ a, b.read8Sys a = some (truth a)
  half : ∀ a, b.admits a 2 = true → b.read16Sys a = some (truth (a + 1) ++ truth a)
  /-- A word is read back when its upper two bytes are zero. -/
  word : ∀ a, b.admits a 4 = true →
    ((b.read32Sys a).map (fun v => v.setWidth 32)
        = some (truth (a + 3) ++ truth (a + 2) ++ truth (a + 1) ++ truth a) ↔
      truth (a + 2) = 0 ∧ truth (a + 3) = 0)

/-- The bytes of a word, put together again. -/
theorem bytes_of_word (v : Word) :
    v.extractLsb' (8 * 3) 8 ++ v.extractLsb' (8 * 2) 8 ++ v.extractLsb' (8 * 1) 8
      ++ v.extractLsb' (8 * 0) 8 = v := by
  apply BitVec.eq_of_toNat_eq
  have hv := v.isLt
  rw [append_toNat]
  simp only [BitVec.extractLsb'_toNat, Nat.shiftRight_eq_div_pow]
  omega

theorem bytes_of_half (v : BitVec 16) :
    (v.setWidth 32).extractLsb' (8 * 1) 8 ++ (v.setWidth 32).extractLsb' (8 * 0) 8 = v := by
  apply BitVec.eq_of_toNat_eq
  have hv := v.isLt
  have hlow := ((v.setWidth 32).extractLsb' (8 * 0) 8).isLt
  rw [BitVec.toNat_append, ← Nat.shiftLeft_add_eq_or_of_lt hlow, Nat.shiftLeft_eq]
  simp only [BitVec.extractLsb'_toNat, Nat.shiftRight_eq_div_pow, BitVec.toNat_setWidth]
  omega

theorem byte_of_byte (v : BitVec 8) : (v.setWidth 32).extractLsb' (8 * 0) 8 = v := by
  apply BitVec.eq_of_toNat_eq
  have hv := v.isLt
  simp only [BitVec.extractLsb'_toNat, Nat.shiftRight_eq_div_pow, BitVec.toNat_setWidth]
  omega

/-- A write, then the read of the same size at the same address. -/
structure RoundTrip (b : SlaveBus) : Prop where
  byte : ∀ a v, b.admits a 1 = true →
    ∃ b', b.write8Sys a v = some b' ∧ b'.read8Sys a = some v
  half : ∀ a v, b.admits a 2 = true →
    ∃ b', b.write16Sys a v = some b' ∧ b'.read16Sys a = some v
  /-- A word comes back when its upper half is zero. -/
  word : ∀ a v, b.admits a 4 = true →
    ∃ b', b.write32Sys a v = some b' ∧
      ((b'.read32Sys a).map (fun v => v.setWidth 32) = some v ↔ v.toNat < 2 ^ 16)

theorem roundTrip_of_separate {b : SlaveBus} (hsep : BusRange.Separate b.ranges) :
    RoundTrip b where
  byte a v h := by
    obtain ⟨b', hwrite, hsame, hbytes⟩ := SlaveBus.writeSys_byteAt hsep h (v.setWidth 32)
    have hlow := hbytes 0 (by omega)
    rw [BitVec.add_zero, byte_of_byte] at hlow
    exact ⟨b', hwrite, by rw [SlaveBus.read8Sys_eq, hlow]⟩
  half a v h := by
    obtain ⟨b', hwrite, hsame, hbytes⟩ := SlaveBus.writeSys_byteAt hsep h (v.setWidth 32)
    have hlow := hbytes 0 (by omega)
    have hhigh := hbytes 1 (by omega)
    rw [BitVec.add_zero] at hlow
    have hread := SlaveBus.read16Sys_eq (hsame.ranges.symm ▸ hsep) ((hsame.admits a 2).trans h)
    refine ⟨b', hwrite, hread.trans (congrArg some ?_)⟩
    rw [show a + 1 = a + BitVec.ofNat 32 1 from rfl, hlow, hhigh, bytes_of_half]
  word a v h := by
    obtain ⟨b', hwrite, hsame, hbytes⟩ := SlaveBus.writeSys_byteAt hsep h v
    have hlow := hbytes 0 (by omega)
    rw [BitVec.add_zero] at hlow
    have hread := SlaveBus.read32Sys_eq (hsame.ranges.symm ▸ hsep) ((hsame.admits a 4).trans h)
    have hword : b'.wordAt a = v := by
      unfold SlaveBus.wordAt
      rw [show a + 1 = a + BitVec.ofNat 32 1 from rfl, show a + 2 = a + BitVec.ofNat 32 2 from rfl,
        show a + 3 = a + BitVec.ofNat 32 3 from rfl, hlow, hbytes 1 (by omega),
        hbytes 2 (by omega), hbytes 3 (by omega), bytes_of_word]
    refine ⟨b', hwrite, ?_⟩
    rw [hread, hword, Option.map_some, Option.some_inj, ← BitVec.toNat_inj, BitVec.toNat_setWidth,
      BitVec.toNat_setWidth]
    omega

/-- The range of the memory of the core, on the cacheable bus. -/
def memoryRange : BusRange := ⟨memoryBase, BitVec.ofNat 32 memorySize, true⟩

/-- **The memory of the core** admits every aligned access to one of its addresses. -/
theorem memory_admits {b : SlaveBus} {d : MemoryDevice memoryRange.size.toNat}
    (hdev : b.devices = [⟨memoryRange, .memory d⟩]) (a : Word) {k : Nat} (hk : k ≤ 2) :
    b.admits a (2 ^ k) = true ↔ a ∈ memoryRange.cover ∧ a.toNat % 2 ^ k = 0 := by
  have hranges : b.ranges = [memoryRange] := by
    rw [SlaveBus.ranges, hdev]
    rfl
  have hends : memoryRange.Ends := by decide
  have hfind (h : a ∈ memoryRange.cover) :
      b.find a false = some (0, ⟨memoryRange, .memory d⟩) := by
    refine SlaveBus.find_iff.mpr ⟨?_, by rw [hdev]; rfl⟩
    have htest : memoryRange.slave.maps a false = true := by
      rw [hends.maps_iff, BusRange.coverFor_false]
      exact h
    simp [hranges, BusRange.findSlaveInfo, List.findIdx?_cons, htest]
  have hcheck (h : a ∈ memoryRange.cover) :
      memoryRange.slave.check (memoryRange.slave.offset a) (2 ^ k) = true ↔
        a.toNat % 2 ^ k = 0 := by
    have hoff := SlaveBus.offset_of_cover h
    obtain ⟨hlo, hhi⟩ := h
    have hbase : memoryRange.base.toNat = 2 ^ 31 := rfl
    have hsize : memoryRange.size.toNat = 2 ^ 20 := rfl
    have hslave : memoryRange.slave.size = 2 ^ 20 := rfl
    have halign := checkAlign_pow (memoryRange.slave.offset a) k (by omega)
    unfold SlaveInfo.check
    rw [Bool.and_eq_true, Bool.and_eq_true, halign, decide_eq_true_eq, decide_eq_true_eq, hslave]
    rcases show k = 0 ∨ k = 1 ∨ k = 2 by omega with rfl | rfl | rfl <;> omega
  constructor
  · intro h
    obtain ⟨i, r, d', hadm⟩ := SlaveBus.admits_iff.mp h
    obtain ⟨hidx, hdev'⟩ := SlaveBus.find_iff.mp hadm.found
    have hmem := List.mem_of_getElem? hdev'
    rw [hdev, List.mem_singleton] at hmem
    obtain rfl : r = memoryRange := congrArg Device.range hmem
    have hcover : a ∈ memoryRange.cover := (SlaveBus.find_cover hadm.found).2
    exact ⟨hcover, (hcheck hcover).mp hadm.check⟩
  · rintro ⟨hcover, halign⟩
    exact SlaveBus.admits_iff.mpr ⟨0, memoryRange, d, hfind hcover, (hcheck hcover).mpr halign⟩

/-- **System access.** On every bus that calls of `map` have made, whatever the slaves and what they
hold, any sequence of system writes leaves at every address the byte last written to it by a write
that a memory admits; bytes and half words are read back, and a word is read back exactly when
its upper half is zero. The memory of the core admits every aligned access to one of its
addresses. -/
theorem sysAccess_readsBack (b : SlaveBus) (reqs : List BusRange)
    (hmap : BusRange.mapAll [] reqs = some b.ranges) (ws : List SysWrite) :
    ∃ b', b.sysWrites ws = some b' ∧ b.SameLayout b' ∧ RoundTrip b' ∧
      (ReadsBack b' fun a => lastByte b ws a (b.byteAt a)) ∧
      ∀ d, b.devices = [⟨memoryRange, .memory d⟩] → ∀ a, ∀ k ≤ 2,
        (b'.admits a (2 ^ k) = true ↔ a ∈ memoryRange.cover ∧ a.toNat % 2 ^ k = 0) := by
  have hsep : BusRange.Separate b.ranges :=
    BusRange.separate_mapAll List.Pairwise.nil hmap
  obtain ⟨b', hrun, hsame, hbytes⟩ := SlaveBus.sysWrites_bytes ws b hsep
  have hsep' : BusRange.Separate b'.ranges := hsame.ranges.symm ▸ hsep
  refine ⟨b', hrun, hsame, roundTrip_of_separate hsep',
    ⟨fun a => ?_, fun a ha => ?_, fun a ha => ?_⟩,
    fun d hdev a k hk => by rw [hsame.admits]; exact memory_admits hdev a hk⟩
  · rw [SlaveBus.read8Sys_eq, hbytes]
  · rw [SlaveBus.read16Sys_eq hsep' ha, hbytes, hbytes]
  · rw [SlaveBus.read32Sys_eq hsep' ha, ← hbytes, ← hbytes, ← hbytes, ← hbytes, Option.map_some,
      Option.some_inj]
    exact truncated_iff _ _ _ _

/-- The cacheable bus with the memory of the core, which holds zeros. -/
def clearedBus : SlaveBus := .mapped [⟨memoryRange, .memory (fun _ => 0) 10 10⟩]

/-- A word, and a byte in it. -/
theorem sysAccess_readsBack_overwritten : ∃ b', clearedBus.sysWrites
      [.write32 0x80000000 0x12345678, .write8 0x80000001 0xFF] = some b' ∧
    b'.read16Sys 0x80000000 = some 0xFF78 := by
  obtain ⟨b', hrun, hsame, -, hreads, hmemory⟩ :=
    sysAccess_readsBack clearedBus [memoryRange] rfl
      [.write32 0x80000000 0x12345678, .write8 0x80000001 0xFF]
  have hadmits : b'.admits 0x80000000 2 = true :=
    (hmemory ⟨fun _ => 0, List.replicate 11 none, List.replicate 11 none⟩ rfl 0x80000000 1
      (by omega)).mpr ⟨by rw [BusRange.cover, mem_addresses]; decide, by decide⟩
  refine ⟨b', hrun, (hreads.half 0x80000000 hadmits).trans ?_⟩
  decide +kernel

/-- A word that uses its upper half does not come back. -/
theorem sysAccess_truncated : ¬ ∀ v : Word, ∃ b', clearedBus.write32Sys 0x80000000 v = some b' ∧
    (b'.read32Sys 0x80000000).map (fun v => v.setWidth 32) = some v := by
  intro hall
  obtain ⟨b', hwrite, hread⟩ := hall 0xDEADBEEF
  have hsep : BusRange.Separate clearedBus.ranges := List.pairwise_singleton _ _
  have hadmits : clearedBus.admits 0x80000000 4 = true := by decide +kernel
  obtain ⟨b₁, hwrite', hiff⟩ := (roundTrip_of_separate hsep).word 0x80000000 0xDEADBEEF hadmits
  obtain rfl := Option.some.inj (hwrite.symm.trans hwrite')
  have hsmall := hiff.mp hread
  revert hsmall
  decide

end DreamCore
