import DreamCore.Component.Fifo
import DreamCore.Config

/-!
# Load queue, store buffer, retired store buffer

Three FIFOs that the load/store units also search by address. The searches walk
from the read pointer the cycle began with up to the write pointer as the stages
of this cycle have left it, and look at the cells as already rewritten this
cycle (`get_new`).
-/

namespace DreamCore

open Ring

namespace Fifo

variable {n : Nat} {α : Type}

/-- The ids a `do … while(producer_get_next_id(cur_id, &cur_id) && (cur_id != first_id))`
loop visits after `id`. -/
def walkFrom (cur new : Fifo n α) (first : Nat) : Nat → Nat → List Nat
  | 0, id => [id]
  | fuel + 1, id =>
      id :: match producerGetNextId cur new id with
        | some (next, true) => if next ≠ first then walkFrom cur new first fuel next else []
        | _ => []

/-- The ids such a loop visits, starting from `producer_get_front_id`. -/
def walk (cur new : Fifo n α) : List Nat :=
  if producerIsEmpty cur new then [] else walkFrom cur new cur.rptr.id n cur.rptr.id

/-- The slots from the read pointer the cycle began with up to the fresh write pointer, oldest
first. -/
def visible (cur new : Fifo n α) : List Nat :=
  (List.range (Ptr.gap n cur.rptr new.wptr)).map fun i => (cur.rptr.id + i) % n

/-- The two pointers are at most one ring apart. -/
def Seen (cur new : Fifo n α) : Prop :=
  ∃ a b, cur.rptr = Ptr.fold n a ∧ new.wptr = Ptr.fold n b ∧ a ≤ b ∧ b ≤ a + n

variable {cur new : Fifo n α} {a b k : Nat}

theorem visible_eq (hn : 0 < n) (hr : cur.rptr = Ptr.fold n a) (hw : new.wptr = Ptr.fold n b)
    (hab : a ≤ b) (hb : b ≤ a + n) : visible cur new = slots n id a b := by
  rw [visible, hr, hw, Ptr.gap_fold hn hab hb, slots, List.range'_eq_map_range, List.map_map]
  refine List.map_congr_left fun i _ => ?_
  simp only [Ptr.fold_id, Function.comp, Nat.mod_add_mod, id]

/-- One step of the walk, inside the window. -/
theorem producerGetNextId_fold (hn : 0 < n) (hr : cur.rptr = Ptr.fold n a)
    (hw : new.wptr = Ptr.fold n b) (hb : b ≤ a + n) (hk : a ≤ k) (hkb : k < b) :
    producerGetNextId cur new (k % n)
      = some ((k + 1) % n, producerCheckIdValid cur new ((k + 1) % n)) := by
  have hvalid : producerCheckIdValid cur new (k % n) = true := by
    rw [producerCheckIdValid, hr, hw, checkIdValid_fold hn (by omega) hb]
    exact ⟨k, hk, hkb, rfl⟩
  rw [producerGetNextId, if_pos hvalid, Nat.mod_add_mod]

/-- From any slot of the window the walk goes to its young end. -/
theorem walkFrom_eq (hn : 0 < n) (hr : cur.rptr = Ptr.fold n a) (hw : new.wptr = Ptr.fold n b)
    (hb : b ≤ a + n) {fuel : Nat} (hk : a ≤ k) (hkb : k < b) (hf : b - k ≤ fuel + 1) :
    walkFrom cur new (a % n) fuel (k % n) = slots n id k b := by
  induction fuel generalizing k with
  | zero =>
    have hlast : b = k + 1 := by omega
    rw [hlast, slots_succ_left _ (Nat.lt_succ_self k), slots_self]
    rfl
  | succ fuel ih =>
    rw [slots_succ_left _ hkb, walkFrom, producerGetNextId_fold hn hr hw hb hk hkb]
    refine congrArg _ ?_
    by_cases hend : k + 1 < b
    · have hvalid : producerCheckIdValid cur new ((k + 1) % n) = true := by
        rw [producerCheckIdValid, hr, hw, checkIdValid_fold hn (by omega) hb]
        exact ⟨k + 1, by omega, hend, rfl⟩
      have hne : (k + 1) % n ≠ a % n := (mod_ne_of_window (by omega) (by omega)).symm
      rw [hvalid]
      exact (if_pos hne).trans (ih (by omega) hend (by omega))
    · -- the young end: the next slot is outside the window, or the ring is full and it is the first
      have hkb' : k + 1 = b := by omega
      rw [hkb', slots_self]
      by_cases hfull : b = a + n
      · have heq : b % n = a % n := by rw [hfull, Nat.add_mod_right]
        split
        · rename_i next hnext
          rw [Option.some.injEq, Prod.mk.injEq] at hnext
          exact if_neg (not_not.mpr (hnext.1.symm.trans heq))
        · rfl
      · have hvalid : producerCheckIdValid cur new (b % n) = false := by
          rw [Bool.eq_false_iff, Ne, producerCheckIdValid, hr, hw,
            checkIdValid_fold hn (by omega) hb]
          rintro ⟨j, h₁, h₂, h₃⟩
          exact mod_ne_of_window h₂ (by omega) h₃.symm
        rw [hvalid]

/-- **The walk visits the slots of the window, oldest first.** -/
theorem walk_eq (hn : 0 < n) (hr : cur.rptr = Ptr.fold n a) (hw : new.wptr = Ptr.fold n b)
    (hab : a ≤ b) (hb : b ≤ a + n) : walk cur new = slots n id a b := by
  unfold walk
  by_cases he : a = b
  · rw [if_pos ((producerIsEmpty_iff hn hr hw hab hb).mpr he), he, slots_self]
  · have hne : ¬ producerIsEmpty cur new = true := fun hc =>
      he ((producerIsEmpty_iff hn hr hw hab hb).mp hc)
    rw [if_neg hne, hr, Ptr.fold_id]
    exact walkFrom_eq hn hr hw hb (Nat.le_refl _) (by omega) (by omega)

theorem Seen.walk_eq (hn : 0 < n) (h : Seen cur new) : walk cur new = visible cur new := by
  obtain ⟨a, b, hr, hw, hab, hb⟩ := h
  rw [Fifo.walk_eq hn hr hw hab hb, visible_eq hn hr hw hab hb]

end Fifo

/-- `load_queue_item_t`. -/
structure LoadQueueItem where
  addrValid : Bool := false
  pc : Word := 0
  robId : Ptr := ⟨0, false⟩
  addr : Word := 0
  size : Word := 0
  checkpointIdValid : Bool := false
  checkpointId : Nat := 0
deriving DecidableEq, Inhabited

/-- `load_queue`, one snapshot of its registers. -/
structure LoadQueue where
  ring : Fifo loadQueueSize LoadQueueItem
  itemConflict : Nat → Bool
  replayNum : Nat → Nat

/-- `std::max` and `std::min` on `uint32_t`. -/
def wordMax (a b : Word) : Word := if a < b then b else a

@[inherit_doc wordMax]
def wordMin (a b : Word) : Word := if b < a then b else a

/-- The ranges `[addr, addr + size)` and `[addr', addr' + size')` share a byte, in the
`uint32_t` arithmetic of the source. -/
def overlap (addr size addr' size' : Word) : Bool :=
  decide (wordMax addr addr' < wordMin (addr + size) (addr' + size'))

namespace LoadQueue

/-- `flush`. -/
def flush (new : LoadQueue) : LoadQueue :=
  { ring := new.ring.flush, itemConflict := fun _ => false, replayNum := fun _ => 0 }

/-- `write_conflict`. -/
def writeConflict (new : LoadQueue) (id : Nat) (conflict : Bool) : LoadQueue :=
  { new with itemConflict := Function.update new.itemConflict id conflict }

/-- `add_replay_num`, a registered read and write. -/
def addReplayNum (cur new : LoadQueue) (id : Nat) : LoadQueue :=
  { new with replayNum := Function.update new.replayNum id (cur.replayNum id + 1) }

/-- `clear_replay_num`. -/
def clearReplayNum (new : LoadQueue) (id : Nat) : LoadQueue :=
  { new with replayNum := Function.update new.replayNum id 0 }

/-- The test `get_conflict_item` makes on one entry. -/
def conflicts (item : LoadQueueItem) (addr size : Word) (robId : Ptr) : Bool :=
  item.addrValid && item.robId.younger robId && overlap item.addr item.size addr size

/-- `get_conflict_item`: the first entry, in queue order, of a load that has executed, is
younger than the store and overlaps it. -/
def getConflictItem (cur new : LoadQueue) (addr size : Word) (robId : Ptr) :
    Option (Nat × LoadQueueItem) :=
  ((Fifo.walk cur.ring new.ring).find? fun id =>
    conflicts (new.ring.producerGetItem id) addr size robId).map
      fun id => (id, new.ring.producerGetItem id)

end LoadQueue

/-- `store_buffer_item_t`. -/
structure StoreBufferItem where
  dataValid : Bool := false
  committed : Bool := false
  robId : Ptr := ⟨0, false⟩
  pc : Word := 0
  data : Word := 0
deriving DecidableEq, Inhabited

/-- `store_buffer`, one snapshot of its registers. -/
structure StoreBuffer where
  ring : Fifo storeBufferSize StoreBufferItem
  itemAddrValid : Nat → Bool
  itemAddr : Nat → Word
  itemSize : Nat → Word

/-- The bytes a store of `data` at `itemAddr` puts into the load `[addr, addr + size)`,
merged into the value and mask collected so far. -/
def mergeStore (addr size itemAddr itemSize data : Word) (acc : Word × Word) : Word × Word :=
  let bitMask := fun (bitLength : Word) =>
    if bitLength = 32 then (0xffffffff : Word) else (1 <<< bitLength.toNat) - 1
  if itemAddr ≥ addr ∧ itemAddr ≤ addr + size - 1 then
    let bitOffset := ((itemAddr - addr) <<< 3).toNat
    let mask := bitMask (wordMin itemSize (addr + size - itemAddr) <<< 3)
    ((acc.1 &&& ~~~(mask <<< bitOffset)) ||| ((data &&& mask) <<< bitOffset),
      acc.2 ||| (mask <<< bitOffset))
  else if itemAddr < addr ∧ itemAddr + itemSize - 1 ≥ addr then
    let bitOffset := ((addr - itemAddr) <<< 3).toNat
    let mask := bitMask (wordMin size (itemAddr + itemSize - addr) <<< 3)
    ((acc.1 &&& ~~~mask) ||| ((data >>> bitOffset) &&& mask), acc.2 ||| mask)
  else acc

namespace StoreBuffer

/-- `flush`, which is `fifo::flush`. -/
def flush (new : StoreBuffer) : StoreBuffer := { new with ring := new.ring.flush }

/-- `write_addr`. -/
def writeAddr (new : StoreBuffer) (id : Nat) (addr size : Word) (addrValid : Bool) :
    StoreBuffer :=
  { new with
    itemAddr := Function.update new.itemAddr id addr
    itemSize := Function.update new.itemSize id size
    itemAddrValid := Function.update new.itemAddrValid id addrValid }

/-- `get_addr`. -/
def getAddr (cur new : StoreBuffer) (id : Nat) : Option Word := do
  guard (Fifo.customerCheckIdValid cur.ring new.ring id)
  return cur.itemAddr id

/-- `get_size`. -/
def getSize (cur new : StoreBuffer) (id : Nat) : Option Word := do
  guard (Fifo.customerCheckIdValid cur.ring new.ring id)
  return cur.itemSize id

/-- `get_item`. -/
def getItem (cur new : StoreBuffer) (id : Nat) : Option StoreBufferItem := do
  guard (Fifo.customerCheckIdValid cur.ring new.ring id)
  return cur.ring.buffer id

/-- `set_item`. -/
def setItem (cur new : StoreBuffer) (id : Nat) (value : StoreBufferItem) :
    Option StoreBuffer := do
  guard (Fifo.customerCheckIdValid cur.ring new.ring id)
  return { new with ring := new.ring.setItem id value }

/-- One entry of the `get_feedback_value` walk; `none` is the `std::nullopt` that makes
the load replay. -/
def feedbackStep (new : StoreBuffer) (addr size : Word) (robId : Ptr) (acc : Word × Word)
    (id : Nat) : Option (Word × Word) :=
  let item := new.ring.producerGetItem id
  let itemAddr := new.itemAddr id
  let itemSize := new.itemSize id
  let addrValid := new.itemAddrValid id
  if !item.dataValid && addrValid && robId.younger item.robId
      && overlap itemAddr itemSize addr size then none
  else if addrValid && item.robId.younger robId then some acc
  else if item.dataValid && addrValid then
    some (mergeStore addr size itemAddr itemSize item.data acc)
  else some acc

/-- `get_feedback_value`. -/
def getFeedbackValue (cur new : StoreBuffer) (addr size : Word) (robId : Ptr) :
    Option (Word × Word) :=
  (Fifo.walk cur.ring new.ring).foldlM (feedbackStep new addr size robId) (0, 0)

end StoreBuffer

namespace StoreBuffer

theorem getAddr_eq_some {cur new : StoreBuffer} {id : Nat} {addr : Word}
    (h : getAddr cur new id = some addr) : addr = cur.itemAddr id := by
  simp only [getAddr, Option.bind_eq_bind, Option.bind_eq_some_iff] at h
  obtain ⟨-, -, h⟩ := h
  exact (Option.some.inj h).symm

end StoreBuffer

/-- `retired_store_buffer_item_t`. -/
structure RetiredStoreBufferItem where
  addr : Word := 0
  size : Word := 0
  data : Word := 0
deriving DecidableEq, Inhabited

/-- `retired_store_buffer`, one snapshot of its registers. -/
structure RetiredStoreBuffer where
  ring : Fifo retiredStoreBufferSize RetiredStoreBufferItem
  isWaitingAck : Bool

/-- What `retired_store_buffer` merges into a load. Its two range tests compare with
`addr + size` where those of the store buffer compare with the last byte. -/
def mergeRetired (addr size itemAddr itemSize data : Word) (acc : Word × Word) : Word × Word :=
  let bitMask := fun (bitLength : Word) =>
    if bitLength = 32 then (0xffffffff : Word) else (1 <<< bitLength.toNat) - 1
  if itemAddr ≥ addr ∧ itemAddr < addr + size then
    let bitOffset := ((itemAddr - addr) <<< 3).toNat
    let mask := bitMask (wordMin itemSize (addr + size - itemAddr) <<< 3)
    ((acc.1 &&& ~~~(mask <<< bitOffset)) ||| ((data &&& mask) <<< bitOffset),
      acc.2 ||| (mask <<< bitOffset))
  else if itemAddr < addr ∧ itemAddr + itemSize > addr then
    let bitOffset := ((addr - itemAddr) <<< 3).toNat
    let mask := bitMask (wordMin size (itemAddr + itemSize - addr) <<< 3)
    ((acc.1 &&& ~~~mask) ||| ((data >>> bitOffset) &&& mask), acc.2 ||| mask)
  else acc

namespace RetiredStoreBuffer

/-- `get_feedback_value`. -/
def getFeedbackValue (cur new : RetiredStoreBuffer) (addr size : Word) : Word × Word :=
  (Fifo.walk cur.ring new.ring).foldl (fun acc id =>
    let item := new.ring.producerGetItem id
    mergeRetired addr size item.addr item.size item.data acc) (0, 0)

end RetiredStoreBuffer

end DreamCore
