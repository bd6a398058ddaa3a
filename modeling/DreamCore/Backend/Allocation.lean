import DreamCore.Backend.RenameTurns
import DreamCore.Backend.Recovery
import DreamCore.Backend.Conservation

/-!
# What rename gives out

Rename looks at every resource from the producer's side: its own fresh write
pointer against the read pointer the cycle began with. For the ROB, the load queue
and the store buffer, which it pushes to, that counts its own allocations. On the
free list it is not the producer but the customer. The producer's view of the list
does not change while rename pops, so the test that guards a pop says whether the
list was empty when the cycle began, not whether it still has an id.

The loop is run here for any width, from any occupancy, on anything the decoder
can have put into the fifo.
-/

namespace DreamCore

open Ring

/-! ## The producer's view of a FIFO -/

namespace Fifo

variable {n : Nat} {α : Type} {cur new : Fifo n α} {a b : Nat}

/-- `producer_get_free_space`. -/
def producerGetFreeSpace (cur new : Fifo n α) : Nat := n - producerGetUsedSpace cur new

/-- `customer_get_used_space`. -/
def customerGetUsedSpace (cur new : Fifo n α) : Nat := Ptr.gap n new.rptr cur.wptr

/-- The producer sees the counters from `a` to `b` in use. -/
structure Filled (cur new : Fifo n α) (a b : Nat) : Prop where
  rptr : cur.rptr = Ptr.fold n a
  wptr : new.wptr = Ptr.fold n b
  le : a ≤ b
  size : b ≤ a + n

namespace Filled

theorem full_iff (hn : 0 < n) (h : Filled cur new a b) :
    producerIsFull cur new = true ↔ b = a + n :=
  producerIsFull_iff hn h.rptr h.wptr h.le h.size

theorem empty_iff (hn : 0 < n) (h : Filled cur new a b) :
    producerIsEmpty cur new = true ↔ a = b :=
  producerIsEmpty_iff hn h.rptr h.wptr h.le h.size

theorem freeSpace (hn : 0 < n) (h : Filled cur new a b) :
    producerGetFreeSpace cur new = a + n - b := by
  rw [producerGetFreeSpace, producerGetUsedSpace, h.rptr, h.wptr, Ptr.gap_fold hn h.le h.size]
  have hle := h.le
  omega

/-- The slot the next push takes is not in use. -/
theorem slot_free (hn : 0 < n) (h : Filled cur new a b) (hroom : b < a + n) :
    producerCheckIdValid cur new new.wptr.id = false := by
  rw [producerCheckIdValid, h.rptr, h.wptr, Bool.eq_false_iff, ne_eq,
    checkIdValid_fold hn h.le h.size, Ptr.fold_id]
  rintro ⟨k, hak, hkb, hid⟩
  exact mod_ne_of_window hkb (by omega) hid.symm

/-- **Where there is room a push succeeds**, and the producer sees one slot more in use. -/
theorem push (hn : 0 < n) (h : Filled cur new a b) (hroom : b < a + n) (x : α) :
    ∃ f, Fifo.push cur new x = some f ∧ Filled cur f a (b + 1) ∧ f.wptr = new.wptr.next n := by
  have hfull : producerIsFull cur new = false := by
    rw [Bool.eq_false_iff, ne_eq, h.full_iff hn]
    omega
  have hle := h.le
  refine ⟨_, by rw [Fifo.push, hfull]; rfl, ⟨h.rptr, ?_, by omega, by omega⟩, rfl⟩
  simp only
  rw [h.wptr, Ptr.next_fold hn]

theorem tail_isSome (hn : 0 < n) (h : Filled cur new a b) (hpos : a < b) :
    ∃ id, producerGetTailId cur new = some id := by
  have hempty : ¬ producerIsEmpty cur new = true := by
    rw [h.empty_iff hn]
    omega
  exact ⟨_, by rw [producerGetTailId, if_neg hempty]⟩

end Filled

end Fifo

/-! ## The free list -/

/-- The free list, rename's view of it: the ids from `free` to `seen` can be popped in this
cycle, those from `seen` to `tail` commit has pushed in this cycle; the producer counts from
`head`, where the cycle began. -/
structure FreeList.Stocked (cur new : FreeList phyRegNum) (map : Nat → Nat)
    (head free seen tail : Nat) : Prop where
  filled : Fifo.Filled cur.ring new.ring head tail
  rptr : new.ring.rptr = Ptr.fold phyRegNum free
  wptr : cur.ring.wptr = Ptr.fold phyRegNum seen
  head_le : head ≤ free
  free_le : free ≤ seen
  seen_le : seen ≤ tail
  frame : ∀ k, free ≤ k → k < seen →
    new.ring.buffer (k % phyRegNum) = cur.ring.buffer (k % phyRegNum)
  /-- The set the class checks itself with. -/
  set : new.freeListSet.Perm (slots phyRegNum new.ring.buffer free tail)
  nodup : (slots phyRegNum new.ring.buffer free tail ++ homes map).Nodup
  bound : ∀ p ∈ slots phyRegNum new.ring.buffer free tail, p < phyRegNum

/-- The list without its front. -/
def FreeList.tail (new : FreeList phyRegNum) : FreeList phyRegNum :=
  ⟨{ new.ring with rptr := new.ring.rptr.next phyRegNum },
    new.freeListSet.erase (new.ring.buffer new.ring.rptr.id)⟩

namespace FreeList.Stocked

variable {cur new : FreeList phyRegNum} {map : Nat → Nat} {head free seen tail : Nat}

theorem pos : 0 < phyRegNum := by decide

theorem usedSpace (h : Stocked cur new map head free seen tail) :
    Fifo.customerGetUsedSpace cur.ring new.ring = seen - free := by
  have hsize := h.filled.size
  have hhead := h.head_le
  have hseen := h.seen_le
  rw [Fifo.customerGetUsedSpace, h.rptr, h.wptr, Ptr.gap_fold pos h.free_le (by omega)]

theorem contents_eq (h : Stocked cur new map head free seen tail) :
    new.contents = slots phyRegNum new.ring.buffer free tail := by
  have hsize := h.filled.size
  have hhead := h.head_le
  have hfree := h.free_le
  have hseen := h.seen_le
  exact Fifo.Window.contents_eq pos ⟨h.rptr, h.filled.wptr, by omega, by omega⟩

/-- **An id that can be popped is popped**, with every check of the class. -/
theorem pop_some (h : Stocked cur new map head free seen tail) (hlt : free < seen) :
    ∃ p new', FreeList.pop cur new = some (some p, new') ∧ new.contents = p :: new'.contents ∧
      p < phyRegNum ∧ (∀ a, IsReg a → map a ≠ p) ∧
      ∀ rd, IsReg rd → Stocked cur new' (Function.update map rd p) head (free + 1) seen tail := by
  have hsize := h.filled.size
  have hhead := h.head_le
  have hseen := h.seen_le
  have hempty : Fifo.customerIsEmpty cur.ring new.ring = false := by
    rw [Bool.eq_false_iff, ne_eq,
      Fifo.customerIsEmpty_iff pos h.rptr h.wptr h.free_le (by omega)]
    omega
  have hbuf : cur.ring.buffer (free % phyRegNum) = new.ring.buffer (free % phyRegNum) :=
    (h.frame free (Nat.le_refl _) hlt).symm
  have hslots := slots_succ_left (n := phyRegNum) new.ring.buffer
    (a := free) (b := tail) (by omega)
  have hnodup := h.nodup
  rw [hslots, List.cons_append, List.nodup_cons] at hnodup
  have hbound : new.ring.buffer (free % phyRegNum) < phyRegNum :=
    h.bound _ (hslots ▸ List.mem_cons_self)
  have hmem : new.ring.buffer (free % phyRegNum) ∈ new.freeListSet :=
    h.set.mem_iff.mpr (hslots ▸ List.mem_cons_self)
  have hid : new.ring.rptr.id = free % phyRegNum := by rw [h.rptr, Ptr.fold_id]
  have hnext : new.ring.rptr.next phyRegNum = Ptr.fold phyRegNum (free + 1) := by
    rw [h.rptr, Ptr.next_fold pos]
  have hset : (FreeList.tail new).freeListSet.Perm
      (slots phyRegNum new.ring.buffer (free + 1) tail) := by
    have := h.set.erase (new.ring.buffer (free % phyRegNum))
    rwa [hslots, List.erase_cons_head, ← hid] at this
  have hok : sizeOk (FreeList.tail new) = true := by
    rw [sizeOk, beq_iff_eq, hset.length_eq, slots_length, Fifo.newGetUsedSpace, FreeList.tail]
    simp only
    rw [hnext, h.filled.wptr, Ptr.gap_fold pos (by omega) (by omega)]
  have hstocked (m : Nat → Nat) (hm : (slots phyRegNum new.ring.buffer (free + 1) tail
        ++ homes m).Nodup) : Stocked cur (FreeList.tail new) m head (free + 1) seen tail :=
    ⟨⟨h.filled.rptr, h.filled.wptr, h.filled.le, hsize⟩, hnext, h.wptr, by omega, by omega, hseen,
      fun k hk hk' => h.frame k (by omega) hk', hset, hm,
      fun p hp => h.bound p (hslots ▸ List.mem_cons_of_mem _ hp)⟩
  refine ⟨new.ring.buffer (free % phyRegNum), FreeList.tail new, ?_, ?_, hbound, ?_,
    fun rd hrd => hstocked _ ?_⟩
  · simp only [FreeList.pop, Fifo.pop, hempty, Bool.false_eq_true, if_false, hid, hbuf,
      Option.bind_eq_bind]
    rw [FreeList.tail, hid] at hok
    simp [guard, hbound, hmem, hok, FreeList.tail, hid]
  · rw [h.contents_eq, (hstocked map hnodup.2).contents_eq, hslots]
    rfl
  · intro a ha heq
    exact hnodup.1 (List.mem_append_right _ (mem_homes.mpr ⟨a, ha, heq⟩))
  · -- the home of `rd` moves to the popped id
    have hperm := homes_update_perm (m := map) (x := new.ring.buffer (free % phyRegNum)) hrd
    have hall : (new.ring.buffer (free % phyRegNum) ::
          (slots phyRegNum new.ring.buffer (free + 1) tail ++ homes map)).Perm
        (map rd :: (slots phyRegNum new.ring.buffer (free + 1) tail
          ++ homes (Function.update map rd (new.ring.buffer (free % phyRegNum))))) :=
      (List.perm_middle.symm.trans (hperm.symm.append_left _)).trans List.perm_middle
    exact (hall.nodup_iff.mp (List.nodup_cons.mpr hnodup)).of_cons

/-- **When the customer sees the list empty, no id comes.** -/
theorem pop_none (h : Stocked cur new map head free seen tail) (heq : free = seen) :
    ∀ p new', FreeList.pop cur new ≠ some (some p, new') := by
  intro p new' hpop
  have hsize := h.filled.size
  have hhead := h.head_le
  have hseen := h.seen_le
  have hempty : Fifo.customerIsEmpty cur.ring new.ring = true :=
    (Fifo.customerIsEmpty_iff pos h.rptr h.wptr h.free_le (by omega)).mpr heq
  have hring := (FreeList.pop_eq_some hpop).1
  rw [Fifo.pop, if_pos hempty] at hring
  cases hring

end FreeList.Stocked

/-! ## One turn -/

/-- The instruction gets a new physical register. -/
def DecodeRenamePack.renames (rev : DecodeRenamePack) : Bool := rev.valid && rev.needRename

/-- The counters behind the resources of rename: where the producer's view of each began, and
how far it is used. -/
structure AllocMarks where
  robHead : Nat
  rob : Nat
  lqHead : Nat
  lq : Nat
  sbHead : Nat
  sb : Nat
  ckHead : Nat
  ck : Nat
  freeHead : Nat
  free : Nat
  freeSeen : Nat
  freeTail : Nat

/-- Rename can start from `s`, or go on from it, in a cycle that began in `cur`. -/
structure Core.Ready (cur s : Core) (map : Nat → Nat) (k : AllocMarks) : Prop where
  rob : Fifo.Filled cur.rob s.rob k.robHead k.rob
  lq : Fifo.Filled cur.loadQueue.ring s.loadQueue.ring k.lqHead k.lq
  sb : Fifo.Filled cur.storeBuffer.ring s.storeBuffer.ring k.sbHead k.sb
  ck : Fifo.Filled cur.checkpointBuffer s.checkpointBuffer k.ckHead k.ck
  free : FreeList.Stocked cur.phyIdFreeList s.phyIdFreeList map k.freeHead k.free k.freeSeen
    k.freeTail
  rat : Represents s.speculativeRat map

/-- A turn takes the slot `id`, which is not in use, or leaves the FIFO alone. -/
def Fifo.GivesSlot {n : Nat} {α : Type} (cur old new : Fifo n α) (takes : Bool) (id : Nat) : Prop :=
  if takes then
    id = old.wptr.id ∧ producerCheckIdValid cur old id = false ∧ new.wptr = old.wptr.next n
  else new.wptr = old.wptr

/-- **What a turn gives out was still free**, and it takes nothing else. -/
structure Gives (cur s : Core) (rev : DecodeRenamePack) (info : OpInfo) (s' : Core) : Prop where
  sent : info.toDecodeRenamePack
    = { rev with branchPredictorInfoPack := info.branchPredictorInfoPack }
  register : s.phyIdFreeList.contents
    = (if rev.renames then [info.rdPhy] else []) ++ s'.phyIdFreeList.contents
  robStage : info.robId = s.rob.wptr
  rob : Fifo.GivesSlot cur.rob s.rob s'.rob true info.robId.id
  loadQueue : Fifo.GivesSlot cur.loadQueue.ring s.loadQueue.ring s'.loadQueue.ring
    rev.takesLoadQueue info.loadQueueId
  storeBuffer : Fifo.GivesSlot cur.storeBuffer.ring s.storeBuffer.ring s'.storeBuffer.ring
    rev.takesStoreBuffer info.storeBufferId

variable {cur s : Core} {map : Nat → Nat} {k : AllocMarks} {rev : DecodeRenamePack}

theorem lookupPhy_some {t : RatTable} (h : Represents t map) {needMap : Bool} {a : Nat}
    (ha : needMap = true → IsReg a) : ∃ p, lookupPhy t needMap a = some p := by
  cases needMap with
  | false => exact ⟨0, rfl⟩
  | true => exact ⟨map a, by simp [lookupPhy, h.lookup_eq (ha rfl)]⟩

/-- A free register can be mapped. -/
theorem setMap_some {t : RatTable} (h : Represents t map) {a p : Nat} (ha : IsReg a)
    (hp : p < phyRegNum) (hfresh : ∀ b, IsReg b → map b ≠ p) :
    ∃ t', t.setMap false a p = some t' := by
  have hreg : 0 < a ∧ a < archRegNum := ha
  have hinvalid : t.phyMapTableValid p = false := by
    rw [Bool.eq_false_iff, ne_eq, h.valid p hp]
    rintro ⟨b, hb, hbp⟩
    exact hfresh b hb hbp
  exact ⟨_, by simp [RatTable.setMap, guard, hp, hreg, hinvalid, h.lookup_eq ha]; rfl⟩

/-- **The destination register**, when the list still has an id that can be popped. -/
theorem renameDest_some (h : cur.Ready s map k) (hregs : rev.RegsOk)
    (hstock : rev.renames = true → k.free < k.freeSeen) :
    ∃ old rdPhy m map', renameDest cur s rev = some (old, rdPhy, m) ∧
      m = { s with phyIdFreeList := m.phyIdFreeList, speculativeRat := m.speculativeRat } ∧
      s.phyIdFreeList.contents
        = (if rev.renames then [rdPhy] else []) ++ m.phyIdFreeList.contents ∧
      cur.Ready m map' { k with free := k.free + rev.renames.toNat } := by
  cases hr : rev.renames with
  | false =>
      exact ⟨0, 0, s, map, by rw [renameDest, ← DecodeRenamePack.renames, hr]; rfl, rfl, rfl, h⟩
  | true =>
      have hneed : rev.needRename = true := (Bool.and_eq_true_iff.mp hr).2
      have hrd := hregs.rd hneed
      obtain ⟨p, fl, hpop, hcontents, hlt, hfresh, hfree⟩ := h.free.pop_some (hstock hr)
      obtain ⟨rat, hrat⟩ := setMap_some h.rat hrd hlt hfresh
      refine ⟨map rev.rd, p, { s with phyIdFreeList := fl, speculativeRat := rat }, _, ?_, rfl,
        hcontents, ⟨h.rob, h.lq, h.sb, h.ck, hfree rev.rd hrd, (h.rat.setMap hrat).2.2⟩⟩
      rw [renameDest, ← DecodeRenamePack.renames, hr, if_pos rfl]
      simp [renameRd, h.rat.lookup_eq hrd, hpop, hrat]

/-- **When no id can be popped, `verify` fails.** -/
theorem renameDest_none (h : cur.Ready s map k) (hr : rev.renames = true)
    (heq : k.free = k.freeSeen) : renameDest cur s rev = none := by
  rw [renameDest, ← DecodeRenamePack.renames, hr, if_pos rfl, Option.eq_none_iff_forall_ne_some]
  rintro ⟨old, p, m⟩ hsome
  simp only [renameRd, Option.bind_eq_bind, Option.bind_eq_some_iff] at hsome
  obtain ⟨-, -, -, -, ⟨popped, fl⟩, hpop, x, rfl, -⟩ := hsome
  exact h.free.pop_none heq x fl hpop

/-- **The queue entry.** -/
theorem renameQueue_some (h : cur.Ready s map k) (robId : Ptr)
    (hlq : rev.takesLoadQueue = true → k.lq < k.lqHead + loadQueueSize)
    (hsb : rev.takesStoreBuffer = true → k.sb < k.sbHead + storeBufferSize) :
    ∃ q, renameQueue cur s rev robId = some q ∧
      q = { s with loadQueue := q.loadQueue, storeBuffer := q.storeBuffer } ∧
      Fifo.GivesSlot cur.loadQueue.ring s.loadQueue.ring q.loadQueue.ring rev.takesLoadQueue
        s.loadQueue.ring.wptr.id ∧
      Fifo.GivesSlot cur.storeBuffer.ring s.storeBuffer.ring q.storeBuffer.ring
        rev.takesStoreBuffer s.storeBuffer.ring.wptr.id ∧
      cur.Ready q map { k with
        lq := k.lq + rev.takesLoadQueue.toNat, sb := k.sb + rev.takesStoreBuffer.toNat } := by
  have hlqPos : 0 < loadQueueSize := by decide
  have hsbPos : 0 < storeBufferSize := by decide
  by_cases hload : rev.takesLoadQueue = true
  · obtain ⟨ring, hring, hfilled, hwptr⟩ := h.lq.push hlqPos (hlq hload) ({} : LoadQueueItem)
    have hstore : rev.takesStoreBuffer = false := by
      simp only [DecodeRenamePack.takesLoadQueue, Bool.and_eq_true, beq_iff_eq] at hload
      simp [DecodeRenamePack.takesStoreBuffer, hload.2]
    have hqueue : renameQueue cur s rev robId = some { s with
        loadQueue := LoadQueue.clearReplayNum { s.loadQueue with ring := ring }
          s.loadQueue.ring.wptr.id } := by
      obtain ⟨hvalid, hunit⟩ := Bool.and_eq_true_iff.mp hload
      rw [renameQueue, if_pos hvalid, if_pos (beq_iff_eq.mp hunit), hring]
      rfl
    refine ⟨_, hqueue, rfl, ?_, ?_, ?_⟩
    · rw [hload]
      exact ⟨rfl, h.lq.slot_free hlqPos (hlq hload), hwptr⟩
    · rw [hstore]
      rfl
    · rw [hload, hstore]
      exact ⟨h.rob, hfilled, h.sb, h.ck, h.free, h.rat⟩
  · by_cases hstore : rev.takesStoreBuffer = true
    · obtain ⟨ring, hring, hfilled, hwptr⟩ := h.sb.push hsbPos (hsb hstore) { robId := robId }
      have hle := h.sb.le
      obtain ⟨id, hid⟩ := hfilled.tail_isSome hsbPos (by omega)
      have hqueue : renameQueue cur s rev robId = some { s with
          storeBuffer := StoreBuffer.writeAddr { s.storeBuffer with ring := ring } id 0 0 false } := by
        obtain ⟨hvalid, hunit⟩ := Bool.and_eq_true_iff.mp hstore
        have hsdu := beq_iff_eq.mp hunit
        rw [renameQueue, if_pos hvalid, if_neg (by rw [hsdu]; decide), if_pos hsdu, hring]
        simp only [Option.bind_eq_bind, Option.bind_some, hid]
      rw [Bool.not_eq_true] at hload
      refine ⟨_, hqueue, rfl, ?_, ?_, ?_⟩
      · rw [hload]
        rfl
      · rw [hstore]
        exact ⟨rfl, h.sb.slot_free hsbPos (hsb hstore), hwptr⟩
      · rw [hload, hstore]
        exact ⟨h.rob, h.lq, hfilled, h.ck, h.free, h.rat⟩
    · rw [Bool.not_eq_true] at hload hstore
      have hqueue : renameQueue cur s rev robId = some s := by
        simp only [DecodeRenamePack.takesLoadQueue, DecodeRenamePack.takesStoreBuffer] at hload hstore
        unfold renameQueue
        by_cases hv : (rev.valid && !rev.hasException) = true
        · rw [hv, Bool.true_and, beq_eq_false_iff_ne] at hload hstore
          rw [if_pos hv, if_neg hload, if_neg hstore]
        · rw [if_neg hv]
      refine ⟨s, hqueue, rfl, ?_, ?_, ?_⟩
      · rw [hload]
        rfl
      · rw [hstore]
        rfl
      · rw [hload, hstore]
        exact h

/-- **The checkpoint** never fails: its own test is the one of the push. -/
theorem renameMark_some (before : Core) {pushed : Core} (h : cur.Ready pushed map k)
    (info : OpInfo) :
    ∃ info' s' ck', renameMark cur before pushed info = some (info', s') ∧
      info' = { info with branchPredictorInfoPack := info'.branchPredictorInfoPack } ∧
      s' = { pushed with checkpointBuffer := s'.checkpointBuffer } ∧
      cur.Ready s' map { k with ck := ck' } := by
  have hpos : 0 < checkpointBufferSize := by decide
  by_cases hroom : (info.wantsCheckpoint
      && !Fifo.producerIsFull cur.checkpointBuffer pushed.checkpointBuffer) = true
  · have hfull : k.ck < k.ckHead + checkpointBufferSize := by
      have hfull := (Bool.and_eq_true_iff.mp hroom).2
      rw [Bool.not_eq_true', Bool.eq_false_iff, ne_eq, h.ck.full_iff hpos] at hfull
      have := h.ck.size
      omega
    obtain ⟨cb, hcb, hfilled, -⟩ := h.ck.push hpos hfull (renameCheckpoint cur before pushed)
    have hle := h.ck.le
    obtain ⟨id, hid⟩ := hfilled.tail_isSome hpos (by omega)
    refine ⟨{ info with branchPredictorInfoPack := { info.branchPredictorInfoPack with
        checkpointIdValid := true, checkpointId := id } },
      { pushed with checkpointBuffer := cb }, k.ck + 1, ?_, rfl, rfl,
      ⟨h.rob, h.lq, h.sb, hfilled, h.free, h.rat⟩⟩
    rw [renameMark, if_pos hroom, hcb]
    simp [hid]
  · exact ⟨info, pushed, k.ck, by rw [renameMark, if_neg hroom], rfl, rfl, h⟩

/-- The resources an instruction that is taken finds. -/
structure AllocMarks.Room (k : AllocMarks) (rev : DecodeRenamePack) : Prop where
  rob : k.rob < k.robHead + robSize
  lq : rev.takesLoadQueue = true → k.lq < k.lqHead + loadQueueSize
  sb : rev.takesStoreBuffer = true → k.sb < k.sbHead + storeBufferSize

/-- The counters after a turn, but for the checkpoint. -/
def AllocMarks.next (k : AllocMarks) (rev : DecodeRenamePack) (ck : Nat) : AllocMarks :=
  { k with
    rob := k.rob + 1
    lq := k.lq + rev.takesLoadQueue.toNat
    sb := k.sb + rev.takesStoreBuffer.toNat
    free := k.free + rev.renames.toNat
    ck := ck }

/-- **A turn that has what it needs gives out free entries only.** -/
theorem renameOp_some (h : cur.Ready s map k) (hshaped : rev.Shaped) (hregs : rev.RegsOk)
    (hroom : k.Room rev) (hstock : rev.renames = true → k.free < k.freeSeen) :
    ∃ info s' map' ck', renameOp cur s rev = some (info, s') ∧ Gives cur s rev info s' ∧
      cur.Ready s' map' (k.next rev ck') := by
  have hrobPos : 0 < robSize := by decide
  obtain ⟨rs1Phy, hrs1⟩ := lookupPhy_some h.rat hregs.rs1
  obtain ⟨rs2Phy, hrs2⟩ := lookupPhy_some h.rat hregs.rs2
  obtain ⟨old, rdPhy, m, map', hdest, hm, hcontents, hmapped⟩ := renameDest_some h hregs hstock
  obtain ⟨q, hqueue, hq, hlq, hsb, hqueued⟩ := renameQueue_some hmapped m.rob.wptr hroom.lq hroom.sb
  have hmrob : m.rob = s.rob := by rw [hm]
  have hqrob : q.rob = s.rob := by rw [hq, hm]
  have hmlq : m.loadQueue = s.loadQueue := by rw [hm]
  have hmsb : m.storeBuffer = s.storeBuffer := by rw [hm]
  obtain ⟨rob, hrob, hfilled, hwptr⟩ := hqueued.rob.push hrobPos hroom.rob
    (renameRobItem s m rev old rdPhy)
  have hfull : Fifo.producerIsFull cur.rob m.rob = false := by
    rw [Bool.eq_false_iff, ne_eq, hmapped.rob.full_iff hrobPos]
    have := hroom.rob
    simp only
    omega
  have hpush : renamePush cur s m rev old rdPhy = some { q with rob := rob } := by
    rw [renamePush, hfull, hqueue]
    simp [guard, hrob]
  have hpushed : cur.Ready { q with rob := rob } map' (k.next rev k.ck) :=
    ⟨hfilled, hqueued.lq, hqueued.sb, hqueued.ck, hqueued.free, hqueued.rat⟩
  obtain ⟨info, s', ck', hmark, hinfo, hs', hready⟩ := renameMark_some s hpushed
    (renameInfo s rev rs1Phy rs2Phy rdPhy)
  refine ⟨info, s', map', ck', ?_, ?_, hready⟩
  · rw [renameOp, hshaped.enable]
    simp [hrs1, hrs2, hdest, hpush, hmark]
  · have hsrob : s'.rob = rob := by rw [hs']
    have hslq : s'.loadQueue = q.loadQueue := by rw [hs']
    have hssb : s'.storeBuffer = q.storeBuffer := by rw [hs']
    have hsfree : s'.phyIdFreeList = m.phyIdFreeList := by rw [hs', hq]
    refine ⟨by rw [hinfo]; rfl, ?_, by rw [hinfo]; rfl, ?_, ?_, ?_⟩
    · rw [hsfree, hcontents, hinfo]
      rfl
    · refine ⟨by rw [hinfo]; rfl, ?_, ?_⟩
      · rw [hinfo]
        exact h.rob.slot_free hrobPos hroom.rob
      · rw [hsrob, hwptr, hqrob]
    · rw [hmlq] at hlq
      rw [hslq]
      cases htakes : rev.takesLoadQueue with
      | false =>
          rw [htakes] at hlq
          exact hlq
      | true =>
          rw [htakes] at hlq
          refine ⟨?_, ?_, hlq.2.2⟩ <;> rw [hinfo]
          · simp [renameInfo, htakes]
          · simpa [renameInfo, htakes] using hlq.2.1
    · rw [hmsb] at hsb
      rw [hssb]
      cases htakes : rev.takesStoreBuffer with
      | false =>
          rw [htakes] at hsb
          exact hsb
      | true =>
          rw [htakes] at hsb
          refine ⟨?_, ?_, hsb.2.2⟩ <;> rw [hinfo]
          · simp [renameInfo, htakes]
          · simpa [renameInfo, htakes] using hsb.2.1

/-- **A turn aborts where its register cannot be popped.** -/
theorem renameOp_none (h : cur.Ready s map k) (hshaped : rev.Shaped) (hr : rev.renames = true)
    (heq : k.free = k.freeSeen) : renameOp cur s rev = none := by
  rw [renameOp, hshaped.enable, renameDest_none h hr heq]
  cases lookupPhy s.speculativeRat rev.rs1NeedMap rev.rs1 with
  | none => rfl
  | some _ => cases lookupPhy s.speculativeRat rev.rs2NeedMap rev.rs2 <;> rfl

/-! ## The rules that stop the loop -/

/-- What makes the loop leave an instruction in the fifo, in turn `i`. -/
def blocked (cur s : Core) (i : Nat) (fence : Bool) (rev : DecodeRenamePack) : Bool :=
  (rev.waits && decide (i ≠ 0)) || (fence && rev.opUnit.isLsu)
    || (rev.takesLoadQueue && Fifo.producerIsFull cur.loadQueue.ring s.loadQueue.ring)
    || (rev.takesStoreBuffer && Fifo.producerIsFull cur.storeBuffer.ring s.storeBuffer.ring)

/-- **The checks at the top of the loop**, for what the decoder can have sent. -/
theorem renameGate_eq (hshaped : rev.Shaped) (i : Nat) (fence : Bool) :
    renameGate cur s i fence rev
      = if blocked cur s i fence rev then .stop else .take rev.waits (fence || rev.isFence) := by
  unfold renameGate
  rw [hshaped.enable, Bool.true_and]
  by_cases hv : (rev.valid && !rev.hasException) = true
  · rw [if_pos hv]
    have hwaits : rev.waits = (rev.opUnit == .csr || rev.op == .mret) := by
      rw [DecodeRenamePack.waits, hv, Bool.true_and]
    have hfence : rev.isFence = (rev.op == .fence) := by
      rw [DecodeRenamePack.isFence, hv, Bool.true_and]
    have hload : rev.takesLoadQueue = (rev.opUnit == .lu) := by
      rw [DecodeRenamePack.takesLoadQueue, hv, Bool.true_and]
    have hstore : rev.takesStoreBuffer = (rev.opUnit == .sdu) := by
      rw [DecodeRenamePack.takesStoreBuffer, hv, Bool.true_and]
    by_cases hw : rev.opUnit = .csr ∨ rev.op = .mret
    · -- an instruction that waits is no memory access and no fence
      have hunit : rev.opUnit = .csr ∨ rev.opUnit = .bru :=
        hw.imp_right fun hm => hshaped.mret hm (Bool.and_eq_true_iff.mp hv).1
      have hnf : rev.isFence = false := by
        rw [hfence, beq_eq_false_iff_ne]
        intro hf
        rcases hunit with hu | hu <;> rw [hshaped.fence hf] at hu <;> cases hu
      have hwt : rev.waits = true := by
        rw [hwaits, Bool.or_eq_true, beq_iff_eq, beq_iff_eq]
        exact hw
      rw [if_pos hw, hwt, hnf, Bool.or_false]
      by_cases hi : i = 0
      · have hblocked : blocked cur s i fence rev = false := by
          rcases hunit with hu | hu <;> simp [blocked, hi, hload, hstore, hu, OpUnit.isLsu]
        rw [if_pos hi, hblocked]
        rfl
      · have hblocked : blocked cur s i fence rev = true := by simp [blocked, hwt, hi]
        rw [if_neg hi, hblocked]
        rfl
    · have hwf : rev.waits = false := by
        rw [hwaits, Bool.or_eq_false_iff, beq_eq_false_iff_ne, beq_eq_false_iff_ne]
        exact not_or.mp hw
      rw [if_neg hw, hwf]
      by_cases hf : rev.op = .fence
      · have hblocked : blocked cur s i fence rev = false := by
          simp [blocked, hwf, hload, hstore, hshaped.fence hf, OpUnit.isLsu]
        rw [if_pos hf, hblocked, hfence, hf]
        simp
      · have hnf : rev.isFence = false := by
          rw [hfence, beq_eq_false_iff_ne]
          exact hf
        rw [if_neg hf, hnf, Bool.or_false]
        by_cases hl : (fence && rev.opUnit.isLsu) = true
        · have hblocked : blocked cur s i fence rev = true := by simp [blocked, hl]
          rw [if_pos hl, hblocked]
          rfl
        · rw [if_neg hl]
          rw [Bool.not_eq_true] at hl
          by_cases hlq : rev.opUnit = .lu ∧
              Fifo.producerIsFull cur.loadQueue.ring s.loadQueue.ring = true
          · have hblocked : blocked cur s i fence rev = true := by
              simp [blocked, hload, hlq.1, hlq.2]
            rw [if_pos hlq, hblocked]
            rfl
          · rw [if_neg hlq]
            by_cases hsb : rev.opUnit = .sdu ∧
                Fifo.producerIsFull cur.storeBuffer.ring s.storeBuffer.ring = true
            · have hblocked : blocked cur s i fence rev = true := by
                simp [blocked, hstore, hsb.1, hsb.2]
              rw [if_pos hsb, hblocked]
              rfl
            · have hblocked : blocked cur s i fence rev = false := by
                simp only [blocked, hwf, hl, hload, hstore, Bool.false_and, Bool.false_or,
                  Bool.or_eq_false_iff, Bool.and_eq_false_iff, beq_eq_false_iff_ne]
                constructor
                · by_cases hu : rev.opUnit = .lu
                  · exact .inr (Bool.eq_false_iff.mpr fun hfull => hlq ⟨hu, hfull⟩)
                  · exact .inl hu
                · by_cases hu : rev.opUnit = .sdu
                  · exact .inr (Bool.eq_false_iff.mpr fun hfull => hsb ⟨hu, hfull⟩)
                  · exact .inl hu
              rw [if_neg hsb, hblocked]
              rfl
  · -- what is not valid or faults is taken whatever it was
    rw [if_neg hv]
    rw [Bool.not_eq_true] at hv
    have hlsu : rev.opUnit.isLsu = false := by
      rw [Bool.eq_false_iff]
      intro hl
      obtain ⟨hvalid, hexc⟩ := hshaped.lsu hl
      rw [hvalid, hexc] at hv
      cases hv
    have hblocked : blocked cur s i fence rev = false := by
      simp [blocked, DecodeRenamePack.waits, DecodeRenamePack.takesLoadQueue,
        DecodeRenamePack.takesStoreBuffer, hv, hlsu]
    rw [hblocked, DecodeRenamePack.waits, DecodeRenamePack.isFence, hv]
    simp

/-! ## The instructions the rules let through -/

/-- The rules let the instructions of `p` through, from turn `i` on and after a fence or not,
where the other resources have the room given. -/
structure Admitted (i : Nat) (fence : Bool) (width robRoom lqRoom sbRoom : Nat)
    (p : List DecodeRenamePack) : Prop where
  width : p.length ≤ width
  rob : p.length ≤ robRoom
  lq : p.countP (·.takesLoadQueue) ≤ lqRoom
  sb : p.countP (·.takesStoreBuffer) ≤ sbRoom
  /-- A CSR access or an `mret` is renamed alone. -/
  alone : ∀ q ∈ p, q.waits = true → i = 0 ∧ p = [q]
  fenced : fence = true → ∀ q ∈ p, q.opUnit.isLsu = false
  /-- No memory access in one cycle with an older fence. -/
  order : p.Pairwise fun q q' => q.isFence = true → q'.opUnit.isLsu = false

variable {i width robRoom lqRoom sbRoom : Nat} {fence : Bool} {p : List DecodeRenamePack}

theorem admitted_nil : Admitted i fence width robRoom lqRoom sbRoom [] where
  width := Nat.zero_le _
  rob := Nat.zero_le _
  lq := Nat.zero_le _
  sb := Nat.zero_le _
  alone := fun q hq => by cases hq
  fenced := fun _ q hq => by cases hq
  order := .nil

theorem admitted_cons : Admitted i fence (width + 1) robRoom lqRoom sbRoom (rev :: p) ↔
    0 < robRoom ∧ rev.takesLoadQueue.toNat ≤ lqRoom ∧ rev.takesStoreBuffer.toNat ≤ sbRoom ∧
      (rev.waits = true → i = 0 ∧ p = []) ∧ (fence = true → rev.opUnit.isLsu = false) ∧
      Admitted (i + 1) (fence || rev.isFence) width (robRoom - 1)
        (lqRoom - rev.takesLoadQueue.toNat) (sbRoom - rev.takesStoreBuffer.toNat) p := by
  have hcount (f : DecodeRenamePack → Bool) :
      (rev :: p).countP f = p.countP f + (f rev).toNat := by
    rw [List.countP_cons]
    cases f rev <;> rfl
  constructor
  · rintro ⟨hwidth, hrob, hlq, hsb, halone, hfenced, horder⟩
    rw [List.length_cons] at hwidth hrob
    rw [hcount] at hlq hsb
    rw [List.pairwise_cons] at horder
    have hself := halone rev List.mem_cons_self
    refine ⟨by omega, by omega, by omega, fun hw => ?_, fun hf => hfenced hf rev List.mem_cons_self,
      by omega, by omega, by omega, by omega, fun q hq hw => ?_, fun hf q hq => ?_, horder.2⟩
    · obtain ⟨hi, heq⟩ := hself hw
      exact ⟨hi, (List.cons.inj heq).2⟩
    · obtain ⟨-, heq⟩ := halone q (List.mem_cons_of_mem _ hq) hw
      rw [(List.cons.inj heq).2] at hq
      cases hq
    · rcases Bool.or_eq_true_iff.mp hf with hf | hf
      · exact hfenced hf q (List.mem_cons_of_mem _ hq)
      · exact horder.1 q hq hf
  · rintro ⟨hrob, hlq, hsb, hself, hfenced, hrest⟩
    have hw := hrest.width
    have hr := hrest.rob
    have hl := hrest.lq
    have hs := hrest.sb
    refine ⟨by rw [List.length_cons]; omega, by rw [List.length_cons]; omega,
      by rw [hcount]; omega, by rw [hcount]; omega, fun q hq hwait => ?_, fun hf q hq => ?_,
      List.pairwise_cons.mpr ⟨fun q hq hf => ?_, hrest.order⟩⟩
    · rcases List.mem_cons.mp hq with rfl | hq
      · obtain ⟨hi, rfl⟩ := hself hwait
        exact ⟨hi, rfl⟩
      · have := (hrest.alone q hq hwait).1
        omega
    · rcases List.mem_cons.mp hq with rfl | hq
      · exact hfenced hf
      · exact hrest.fenced (by rw [hf, Bool.true_or]) q hq
    · exact hrest.fenced (by rw [hf, Bool.or_true]) q hq

/-- The free list has an id for every destination the rules let through, or rename sees it empty
from the start. -/
def AllocMarks.Fits (k : AllocMarks) (i : Nat) (fence : Bool) (width : Nat)
    (fifo : List DecodeRenamePack) : Prop :=
  k.freeHead = k.freeTail ∨ ∀ p, p <+: fifo →
    Admitted i fence width (k.robHead + robSize - k.rob) (k.lqHead + loadQueueSize - k.lq)
      (k.sbHead + storeBufferSize - k.sb) p →
    p.countP (·.renames) ≤ k.freeSeen - k.free

variable {fifo : List DecodeRenamePack}

/-- Where no instruction is let through, the list need not have one. -/
theorem AllocMarks.fits_of_nil (h : ∀ p, p <+: fifo →
      Admitted i fence width (k.robHead + robSize - k.rob) (k.lqHead + loadQueueSize - k.lq)
        (k.sbHead + storeBufferSize - k.sb) p → p = []) : k.Fits i fence width fifo := by
  refine .inr fun p hp hadmitted => ?_
  rw [h p hp hadmitted]
  exact Nat.zero_le _

/-- **One instruction further.** -/
theorem AllocMarks.fits_cons {ck : Nat} (hlist : k.freeHead ≠ k.freeTail) (hroom : k.Room rev)
    (hwaits : rev.waits = false) (hfence : fence = true → rev.opUnit.isLsu = false)
    (hstock : rev.renames = true → k.free < k.freeSeen) :
    k.Fits i fence (width + 1) (rev :: fifo) ↔
      (k.next rev ck).Fits (i + 1) (fence || rev.isFence) width fifo := by
  have hrob := hroom.rob
  have hlq : rev.takesLoadQueue.toNat ≤ k.lqHead + loadQueueSize - k.lq := by
    cases hl : rev.takesLoadQueue with
    | false => exact Nat.zero_le _
    | true =>
        have := hroom.lq hl
        simp only [Bool.toNat_true]
        omega
  have hsb : rev.takesStoreBuffer.toNat ≤ k.sbHead + storeBufferSize - k.sb := by
    cases hs : rev.takesStoreBuffer with
    | false => exact Nat.zero_le _
    | true =>
        have := hroom.sb hs
        simp only [Bool.toNat_true]
        omega
  have hren : rev.renames.toNat ≤ k.freeSeen - k.free := by
    cases hr : rev.renames with
    | false => exact Nat.zero_le _
    | true =>
        have := hstock hr
        simp only [Bool.toNat_true]
        omega
  have hcount (p : List DecodeRenamePack) :
      (rev :: p).countP (·.renames) = p.countP (·.renames) + rev.renames.toNat := by
    rw [List.countP_cons]
    cases rev.renames <;> rfl
  have hcons (p : List DecodeRenamePack) :
      Admitted i fence (width + 1) (k.robHead + robSize - k.rob)
          (k.lqHead + loadQueueSize - k.lq) (k.sbHead + storeBufferSize - k.sb) (rev :: p) ↔
        Admitted (i + 1) (fence || rev.isFence) width (k.robHead + robSize - (k.rob + 1))
          (k.lqHead + loadQueueSize - (k.lq + rev.takesLoadQueue.toNat))
          (k.sbHead + storeBufferSize - (k.sb + rev.takesStoreBuffer.toNat)) p := by
    rw [admitted_cons, Nat.sub_sub, Nat.sub_sub, Nat.sub_sub]
    constructor
    · exact fun h => h.2.2.2.2.2
    · exact fun h => ⟨by omega, hlq, hsb, (fun hw => by rw [hwaits] at hw; cases hw), hfence, h⟩
  constructor
  · rintro (heq | hall)
    · exact absurd heq hlist
    · refine .inr fun p hp hadmitted => ?_
      have := hall (rev :: p) (List.cons_prefix_cons.mpr ⟨rfl, hp⟩) ((hcons p).mpr hadmitted)
      rw [hcount] at this
      simp only [AllocMarks.next]
      omega
  · rintro (heq | hall)
    · exact absurd heq hlist
    · refine .inr fun p hp hadmitted => ?_
      cases p with
      | nil => exact Nat.zero_le _
      | cons q p =>
          obtain ⟨rfl, htail⟩ := List.cons_prefix_cons.mp hp
          have := hall p htail ((hcons p).mp hadmitted)
          rw [hcount]
          simp only [AllocMarks.next] at this
          omega

/-! ## The loop -/

/-- The turns take the instructions of the fifo in order, each gives out free entries only, and
nothing else changes up to `s'`. -/
def GivesOut (cur : Core) : Core → List DecodeRenamePack → List (OpInfo × Core) → Core → Prop
  | s, _, [], s' => s' = s
  | s, rev :: fifo, (info, s₁) :: turns, s' =>
      Gives cur s rev info s₁ ∧ GivesOut cur s₁ fifo turns s'
  | _, [], _ :: _, _ => False

/-- Why rename may leave `rev` in the fifo after the instructions `before`: a resource is
exhausted, or one of the rules for CSR accesses, `mret` and fences applies. -/
def Exhausted (cur s : Core) (before : List DecodeRenamePack) (rev : DecodeRenamePack) : Prop :=
  Fifo.producerIsEmpty cur.phyIdFreeList.ring s.phyIdFreeList.ring = true ∨
  Fifo.producerIsFull cur.rob s.rob = true ∨
  (rev.takesLoadQueue = true ∧
    Fifo.producerIsFull cur.loadQueue.ring s.loadQueue.ring = true) ∨
  (rev.takesStoreBuffer = true ∧
    Fifo.producerIsFull cur.storeBuffer.ring s.storeBuffer.ring = true) ∨
  (rev.waits = true ∧ before ≠ []) ∨ (∃ q ∈ before, q.waits = true) ∨
  (rev.opUnit.isLsu = true ∧ ∃ q ∈ before, q.isFence = true)

/-- A run of the loop that keeps the promises of rename. -/
structure SoundTurns (cur s : Core) (before fifo : List DecodeRenamePack) (width : Nat)
    (turns : List (OpInfo × Core)) (s' : Core) : Prop where
  gives : GivesOut cur s fifo turns s'
  within : turns.length ≤ width
  stops : ∀ rev rest, fifo.drop turns.length = rev :: rest → turns.length < width →
    Exhausted cur s' (before ++ fifo.take turns.length) rev

theorem soundTurns_stop {before : List DecodeRenamePack}
    (h : ∀ rev rest, fifo = rev :: rest → 0 < width → Exhausted cur s before rev) :
    SoundTurns cur s before fifo width [] s where
  gives := by unfold GivesOut; rfl
  within := Nat.zero_le _
  stops := fun rev rest hfifo hwidth => by
    rw [List.length_nil, List.take_zero, List.append_nil]
    exact h rev rest hfifo hwidth

/-- The loop keeps its promises where the free list has an id for every destination the rules let
through, and a `verify` fails where it has not. -/
def LoopSpec (cur s : Core) (k : AllocMarks) (before fifo : List DecodeRenamePack)
    (width i : Nat) (fence : Bool) : Prop :=
  (k.Fits i fence width fifo → ∃ turns s', renameLoop cur width i fence s fifo = some turns ∧
    (turns.getLast?.map Prod.snd).getD s = s' ∧ SoundTurns cur s before fifo width turns s') ∧
  (¬ k.Fits i fence width fifo → renameLoop cur width i fence s fifo = none)

/-- Where the loop stops at once, the free list need not have anything. -/
theorem loopSpec_stop {before : List DecodeRenamePack}
    (hloop : renameLoop cur width i fence s fifo = some [])
    (hfits : k.Fits i fence width fifo)
    (hwhy : ∀ rev rest, fifo = rev :: rest → 0 < width → Exhausted cur s before rev) :
    LoopSpec cur s k before fifo width i fence :=
  ⟨fun _ => ⟨[], s, hloop, rfl, soundTurns_stop hwhy⟩, fun hn => absurd hfits hn⟩

/-- One turn in front of the rest of the loop. -/
theorem SoundTurns.cons {before : List DecodeRenamePack} {info : OpInfo} {s₁ s' : Core}
    {turns : List (OpInfo × Core)} (hgives : Gives cur s rev info s₁)
    (h : SoundTurns cur s₁ (before ++ [rev]) fifo width turns s') :
    SoundTurns cur s before (rev :: fifo) (width + 1) ((info, s₁) :: turns) s' where
  gives := ⟨hgives, h.gives⟩
  within := Nat.succ_le_succ h.within
  stops := by
    intro rev' rest hdrop hlen
    have := h.stops rev' rest hdrop (Nat.lt_of_succ_lt_succ hlen)
    rwa [List.append_assoc, List.singleton_append] at this

theorem getLast?_cons_snd {s₁ : Core} (info : OpInfo) (turns : List (OpInfo × Core)) :
    ((((info, s₁) :: turns).getLast?).map Prod.snd).getD s
      = (turns.getLast?.map Prod.snd).getD s₁ := by
  cases turns with
  | nil => rfl
  | cons t turns =>
      rw [List.getLast?_cons_cons]
      cases hlast : (t :: turns).getLast? with
      | none => simp at hlast
      | some last => rfl

/-- **A turn of the loop**, with the spec of the turns that follow. -/
theorem loopSpec_turn {before : List DecodeRenamePack} (h : cur.Ready s map k)
    (hshaped : rev.Shaped) (hregs : rev.RegsOk) (hlist : k.freeHead ≠ k.freeTail)
    (hroom : k.Room rev) (hwaits : rev.waits = true → i = 0)
    (hfence : fence = true → rev.opUnit.isLsu = false)
    (hloop : renameLoop cur (width + 1) i fence s (rev :: fifo) =
      match renameOp cur s rev with
      | none => none
      | some (info, new) =>
          if rev.waits then some [(info, new)]
          else (renameLoop cur width (i + 1) (fence || rev.isFence) new fifo).map
            fun turns => (info, new) :: turns)
    (ih : ∀ s₁ map' ck', cur.Ready s₁ map' (k.next rev ck') →
      LoopSpec cur s₁ (k.next rev ck') (before ++ [rev]) fifo width (i + 1) (fence || rev.isFence)) :
    LoopSpec cur s k before (rev :: fifo) (width + 1) i fence := by
  have hlq : rev.takesLoadQueue.toNat ≤ k.lqHead + loadQueueSize - k.lq := by
    cases hl : rev.takesLoadQueue with
    | false => exact Nat.zero_le _
    | true =>
        have := hroom.lq hl
        simp only [Bool.toNat_true]
        omega
  have hsb : rev.takesStoreBuffer.toNat ≤ k.sbHead + storeBufferSize - k.sb := by
    cases hs : rev.takesStoreBuffer with
    | false => exact Nat.zero_le _
    | true =>
        have := hroom.sb hs
        simp only [Bool.toNat_true]
        omega
  have hrob := hroom.rob
  by_cases hempty : rev.renames = true ∧ k.free = k.freeSeen
  · -- the register cannot be popped, and this prefix says so
    have hnone : renameLoop cur (width + 1) i fence s (rev :: fifo) = none := by
      rw [hloop, renameOp_none h hshaped hempty.1 hempty.2]
    have hnot : ¬ k.Fits i fence (width + 1) (rev :: fifo) := by
      rintro (heq | hall)
      · exact hlist heq
      · have hone := hall [rev] ⟨fifo, rfl⟩ (admitted_cons.mpr
          ⟨by omega, hlq, hsb, fun hw => ⟨hwaits hw, rfl⟩, hfence, admitted_nil⟩)
        rw [List.countP_cons_of_pos hempty.1] at hone
        omega
    exact ⟨fun hfits => absurd hfits hnot, fun _ => hnone⟩
  · have hstock : rev.renames = true → k.free < k.freeSeen := by
      intro hr
      have hle := h.free.free_le
      rcases Nat.lt_or_ge k.free k.freeSeen with hlt | hge
      · exact hlt
      · exact absurd ⟨hr, by omega⟩ hempty
    obtain ⟨info, s₁, map', ck', hop, hgives, hready⟩ :=
      renameOp_some h hshaped hregs hroom hstock
    rw [hop] at hloop
    simp only at hloop
    by_cases hw : rev.waits = true
    · rw [if_pos hw] at hloop
      have hfits : k.Fits i fence (width + 1) (rev :: fifo) := by
        refine .inr fun p hp hadm => ?_
        cases p with
        | nil => exact Nat.zero_le _
        | cons q p =>
            obtain ⟨rfl, -⟩ := List.cons_prefix_cons.mp hp
            obtain ⟨-, -, -, halone, -⟩ := admitted_cons.mp hadm
            rw [(halone hw).2, List.countP_singleton]
            split
            · rename_i hr
              have := hstock hr
              omega
            · exact Nat.zero_le _
      refine ⟨fun _ => ⟨[(info, s₁)], s₁, hloop, rfl, ?_⟩, fun hn => absurd hfits hn⟩
      refine SoundTurns.cons hgives (soundTurns_stop fun rev' rest _ _ => ?_)
      exact .inr (.inr (.inr (.inr (.inr (.inl ⟨rev, by simp, hw⟩)))))
    · rw [if_neg hw] at hloop
      rw [Bool.not_eq_true] at hw
      obtain ⟨hsome, hnone⟩ := ih s₁ map' ck' hready
      have hiff : k.Fits i fence (width + 1) (rev :: fifo) ↔
          (k.next rev ck').Fits (i + 1) (fence || rev.isFence) width fifo :=
        k.fits_cons hlist hroom hw hfence hstock
      refine ⟨fun hfits => ?_, fun hfits => ?_⟩
      · obtain ⟨turns, s', hturns, hlast, hsound⟩ := hsome (hiff.mp hfits)
        rw [hturns] at hloop
        exact ⟨(info, s₁) :: turns, s', hloop, (getLast?_cons_snd info turns).trans hlast,
          hsound.cons hgives⟩
      · rw [hloop, hnone fun hf => hfits (hiff.mpr hf)]
        rfl

/-- **The loop**, from any occupancy and for any width. -/
theorem renameLoop_spec {before : List DecodeRenamePack} (h : cur.Ready s map k)
    (hfifo : ∀ q ∈ fifo, q.Shaped ∧ q.RegsOk) (hi : i = before.length)
    (hfence : fence = before.any (·.isFence)) :
    LoopSpec cur s k before fifo width i fence := by
  induction width generalizing s map k i fence fifo before with
  | zero =>
      refine loopSpec_stop rfl (AllocMarks.fits_of_nil fun p _ hp =>
        List.length_eq_zero_iff.mp (Nat.le_zero.mp hp.width)) fun _ _ _ hpos => ?_
      exact absurd hpos (Nat.lt_irrefl 0)
  | succ width ih =>
      cases fifo with
      | nil =>
          refine loopSpec_stop rfl (AllocMarks.fits_of_nil fun p hp _ =>
            List.prefix_nil.mp hp) fun _ _ hnil _ => ?_
          cases hnil
      | cons rev fifo =>
          obtain ⟨hshaped, hregs⟩ := hfifo rev List.mem_cons_self
          have hlistIff := h.free.filled.empty_iff FreeList.Stocked.pos
          have hrobIff := h.rob.full_iff (show 0 < robSize by decide)
          have hlqIff := h.lq.full_iff (show 0 < loadQueueSize by decide)
          have hsbIff := h.sb.full_iff (show 0 < storeBufferSize by decide)
          have hrobSize := h.rob.size
          have hlqSize := h.lq.size
          have hsbSize := h.sb.size
          by_cases hlist : k.freeHead = k.freeTail
          · have hempty := hlistIff.mpr hlist
            refine loopSpec_stop ?_ (.inl hlist) fun _ _ _ _ => .inl hempty
            rw [renameLoop, hempty, Bool.true_or, if_pos rfl]
          have hempty : Fifo.producerIsEmpty cur.phyIdFreeList.ring s.phyIdFreeList.ring = false := by
            rw [Bool.eq_false_iff, ne_eq, hlistIff]
            exact hlist
          by_cases hrob : k.rob = k.robHead + robSize
          · have hfull := hrobIff.mpr hrob
            refine loopSpec_stop ?_ (AllocMarks.fits_of_nil fun p _ hp => ?_) fun _ _ _ _ =>
              .inr (.inl hfull)
            · rw [renameLoop, hfull, Bool.or_true, if_pos rfl]
            · have := hp.rob
              exact List.length_eq_zero_iff.mp (by omega)
          have hfull : Fifo.producerIsFull cur.rob s.rob = false := by
            rw [Bool.eq_false_iff, ne_eq, hrobIff]
            exact hrob
          by_cases hblocked : blocked cur s i fence rev = true
          · have hwhy : Exhausted cur s before rev := by
              simp only [blocked, Bool.or_eq_true, Bool.and_eq_true, decide_eq_true_eq] at hblocked
              rcases hblocked with ((⟨hw, hpos⟩ | ⟨hf, hl⟩) | ⟨hl, hlqFull⟩) | ⟨hst, hsbFull⟩
              · refine .inr (.inr (.inr (.inr (.inl ⟨hw, fun hnil => hpos ?_⟩))))
                rw [hi, hnil]
                rfl
              · rw [hfence, List.any_eq_true] at hf
                exact .inr (.inr (.inr (.inr (.inr (.inr ⟨hl, hf⟩)))))
              · exact .inr (.inr (.inl ⟨hl, hlqFull⟩))
              · exact .inr (.inr (.inr (.inl ⟨hst, hsbFull⟩)))
            refine loopSpec_stop ?_ (AllocMarks.fits_of_nil fun p hp hadm => ?_)
              fun rev' rest heq _ => (List.cons.inj heq).1 ▸ hwhy
            · rw [renameLoop, hempty, hfull, renameGate_eq hshaped, hblocked]
              rfl
            · cases p with
              | nil => rfl
              | cons q p =>
                  exfalso
                  obtain ⟨rfl, -⟩ := List.cons_prefix_cons.mp hp
                  obtain ⟨-, hl, hst, hw, hf, -⟩ := admitted_cons.mp hadm
                  simp only [blocked, Bool.or_eq_true, Bool.and_eq_true,
                    decide_eq_true_eq] at hblocked
                  rcases hblocked with ((⟨hw', hpos⟩ | ⟨hf', hl'⟩) | ⟨hl', hlqFull⟩) | ⟨hst', hsbFull⟩
                  · exact hpos (hw hw').1
                  · rw [hf hf'] at hl'
                    cases hl'
                  · rw [hlqIff] at hlqFull
                    rw [hl', Bool.toNat_true] at hl
                    omega
                  · rw [hsbIff] at hsbFull
                    rw [hst', Bool.toNat_true] at hst
                    omega
          rw [Bool.not_eq_true] at hblocked
          have hparts := hblocked
          simp only [blocked, Bool.or_eq_false_iff, Bool.and_eq_false_iff,
            decide_eq_false_iff_not, Decidable.not_not] at hparts
          obtain ⟨⟨⟨hw, hf⟩, hl⟩, hst⟩ := hparts
          refine loopSpec_turn h hshaped hregs hlist ⟨by omega, fun hload => ?_, fun hstore => ?_⟩
            (fun hwait => ?_) (fun hfen => ?_) ?_ (fun s₁ map' ck' hready => ?_)
          · have hnot := hl.resolve_left (by rw [hload]; exact Bool.noConfusion)
            rw [Bool.eq_false_iff, ne_eq, hlqIff] at hnot
            omega
          · have hnot := hst.resolve_left (by rw [hstore]; exact Bool.noConfusion)
            rw [Bool.eq_false_iff, ne_eq, hsbIff] at hnot
            omega
          · exact hw.resolve_left (by rw [hwait]; exact Bool.noConfusion)
          · exact hf.resolve_left (by rw [hfen]; exact Bool.noConfusion)
          · rw [renameLoop, hempty, hfull, renameGate_eq hshaped, hblocked]
            simp only [Bool.or_self, Bool.false_eq_true, if_false, Option.bind_eq_bind]
            cases renameOp cur s rev with
            | none => rfl
            | some turn =>
                obtain ⟨info, new⟩ := turn
                simp only [Option.bind_some]
                cases renameLoop cur width (i + 1) (fence || rev.isFence) new fifo <;> rfl
          · refine ih hready (fun q hq => hfifo q (List.mem_cons_of_mem _ hq)) ?_ ?_
            · rw [List.length_append, List.length_singleton, hi]
            · rw [List.any_append, hfence, List.any_cons, List.any_nil, Bool.or_false]

/-! ## The run -/

/-- The assertion at the end of `rename::run`. -/
def csrAlone (width : Nat) (pack : List OpInfo) : Bool :=
  match pack with
  | [] => true
  | first :: rest =>
      !(first.enable && first.valid && !first.hasException && first.opUnit == .csr)
        || (rest.take (width - 1)).all fun op => !op.enable

/-- `rename::run` for any `RENAME_WIDTH`, with its assertion. -/
def renameRunAt (width : Nat) (cur new : Core) (dispatchStall flush waitingForInterrupt : Bool)
    (fifo : List DecodeRenamePack) : Option RenameResult :=
  if flush then some { new := new, port := some [] }
  else if dispatchStall then some { new := new, port := none }
  else if waitingForInterrupt then some { new := new, port := some [] }
  else do
    let turns ← renameLoop cur width 0 false new fifo
    guard (csrAlone width (turns.map Prod.fst))
    return {
      turns := turns
      new := (turns.getLast?.map Prod.snd).getD new
      port := some (turns.map Prod.fst) }

/-- **The assertion holds**: the loop ends after a CSR access. -/
theorem csrAlone_of_loop {turns : List (OpInfo × Core)} (hfifo : ∀ q ∈ fifo, q.Shaped)
    (h : renameLoop cur width 0 false s fifo = some turns) :
    csrAlone width (turns.map Prod.fst) = true := by
  have hpack := ((renameLoop_turns h).pack hfifo).1
  cases turns with
  | nil => rfl
  | cons turn turns =>
      obtain ⟨info, s₁⟩ := turn
      by_cases hcsr : info.waits = true
      · have halone := (hpack.alone info List.mem_cons_self hcsr).1
        rw [List.map_cons] at halone ⊢
        rw [(List.cons.inj halone).2, csrAlone, List.take_nil, List.all_nil, Bool.or_true]
      · have hnot : (info.enable && info.valid && !info.hasException && info.opUnit == .csr) = false := by
          rw [Bool.eq_false_iff]
          intro hall
          simp only [Bool.and_eq_true] at hall
          exact hcsr (by simp [DecodeRenamePack.waits, hall])
        rw [List.map_cons, csrAlone, hnot]
        rfl

/-- In the configuration of the source this is the run the cycle makes. -/
theorem renameRunAt_renameWidth {stall flush waiting : Bool} (hfifo : ∀ q ∈ fifo, q.Shaped) :
    renameRunAt renameWidth cur s stall flush waiting fifo
      = renameRun cur s stall flush waiting fifo := by
  unfold renameRunAt renameRun
  split
  · rfl
  · split
    · rfl
    · split
      · rfl
      · cases hloop : renameLoop cur renameWidth 0 false s fifo with
        | none => rfl
        | some turns =>
            simp [csrAlone_of_loop hfifo hloop, guard]

/-- **What rename promises.** No `verify` fails; the turns take a prefix of the fifo, give out
entries that are still free, and stop before an instruction only where a resource is exhausted or
a rule applies; what stays in the fifo has been given nothing. A cycle that is flushed, stalled or
waits for an interrupt renames nothing. -/
def RenameSound (width : Nat) (cur new : Core) (stall flush waiting : Bool)
    (fifo : List DecodeRenamePack) : Prop :=
  ∃ r, renameRunAt width cur new stall flush waiting fifo = some r ∧
    if (flush || stall || waiting) = true then r.turns = [] ∧ r.new = new
    else SoundTurns cur new [] fifo width r.turns r.new

/-- The free list has, when rename starts, an id that can be popped for every destination among
the instructions the rules let through; or the producer sees the list empty. -/
def RenameFits (width : Nat) (cur new : Core) (fifo : List DecodeRenamePack) : Prop :=
  Fifo.producerIsEmpty cur.phyIdFreeList.ring new.phyIdFreeList.ring = true ∨
  ∀ p, p <+: fifo →
    Admitted 0 false width (Fifo.producerGetFreeSpace cur.rob new.rob)
      (Fifo.producerGetFreeSpace cur.loadQueue.ring new.loadQueue.ring)
      (Fifo.producerGetFreeSpace cur.storeBuffer.ring new.storeBuffer.ring) p →
    p.countP (·.renames) ≤ Fifo.customerGetUsedSpace cur.phyIdFreeList.ring new.phyIdFreeList.ring

theorem Core.Ready.fits_iff (h : cur.Ready s map k) :
    k.Fits 0 false width fifo ↔ RenameFits width cur s fifo := by
  rw [RenameFits, AllocMarks.Fits, h.free.filled.empty_iff FreeList.Stocked.pos,
    h.rob.freeSpace (show 0 < robSize by decide),
    h.lq.freeSpace (show 0 < loadQueueSize by decide),
    h.sb.freeSpace (show 0 < storeBufferSize by decide), h.free.usedSpace]

/-- **Every instruction the ROB has room for may need an id, and no more.** -/
theorem RenameFits.of_room
    (h : Fifo.producerGetFreeSpace cur.rob s.rob
      ≤ Fifo.customerGetUsedSpace cur.phyIdFreeList.ring s.phyIdFreeList.ring) :
    RenameFits width cur s fifo := by
  refine .inr fun p _ hadm => ?_
  have hlen := hadm.rob
  have hcount := List.countP_le_length (p := (·.renames)) (l := p)
  omega

/-! ## The core between two cycles -/

variable {g : Ghost}

/-- The ids that are free stand for no register. -/
theorem Inv.free_nodup (h : Inv s g) :
    (slots phyRegNum s.phyIdFreeList.ring.buffer g.tip.free g.freed ++ homes g.tip.map).Nodup := by
  have hsplit := slots_append (n := phyRegNum) s.phyIdFreeList.ring.buffer
    (free_le_tip g.base g.flight) h.free.le
  have hnodup := h.nodup
  rw [← hsplit, List.append_assoc] at hnodup
  obtain ⟨-, hrest, hpopped⟩ := List.nodup_append.mp hnodup
  obtain ⟨hfree, -, hhomes⟩ := List.nodup_append.mp hrest
  refine List.nodup_append.mpr ⟨hfree, ?_, ?_⟩
  · refine List.Nodup.map_on (fun a ha b hb heq => ?_) List.nodup_range'
    have hreg (c : Nat) (hc : c ∈ List.range' 1 (archRegNum - 1)) : IsReg c := by
      rw [List.mem_range'_1] at hc
      simp only [IsReg, archRegNum] at hc ⊢
      omega
    exact h.spec.inj (hreg a ha) (hreg b hb) heq
  · -- a home is an old home or an id popped since
    intro p hp q hq heq
    obtain ⟨a, ha, rfl⟩ := mem_homes.mp hq
    rcases List.mem_append.mp (tip_map_mem h.entries ha) with hm | hm
    · exact hpopped _ hm _ (List.mem_append_left _ hp) heq.symm
    · exact hhomes p hp _ hm heq

/-- **A core that holds a window is ready for rename**, where the set of the free list is what the
ring holds. -/
theorem Inv.ready (h : Inv s g)
    (hset : s.phyIdFreeList.freeListSet.Perm
      (slots phyRegNum s.phyIdFreeList.ring.buffer g.tip.free g.freed)) :
    s.Ready s g.tip.map ⟨g.base.rob, g.tip.rob, g.base.lq, g.tip.lq, g.base.sb, g.tip.sb,
      g.ckHead, g.tip.ck, g.tip.free, g.tip.free, g.freed, g.freed⟩ where
  rob := ⟨h.rob.rptr, h.rob.wptr, h.rob.le, h.rob.size⟩
  lq := ⟨h.lq.rptr, h.lq.wptr, h.lq.le, h.lq.size⟩
  sb := ⟨h.sb.rptr, h.sb.wptr, h.sb.le, h.sb.size⟩
  ck := ⟨h.ck.rptr, h.ck.wptr, h.ck.le, h.ck.size⟩
  free := {
    filled := ⟨h.free.rptr, h.free.wptr, h.free.le, h.free.size⟩
    rptr := h.free.rptr
    wptr := h.free.wptr
    head_le := Nat.le_refl _
    free_le := h.free.le
    seen_le := Nat.le_refl _
    frame := fun _ _ _ => rfl
    set := hset
    nodup := h.free_nodup
    bound := fun p hp => by
      obtain ⟨j, hj, hj', rfl⟩ := mem_slots.mp hp
      have hle := free_le_tip g.base g.flight
      exact h.bound _ (mem_slots.mpr ⟨j, Nat.le_trans hle hj, hj', rfl⟩) }
  rat := h.spec

/-- **As long as no exception has cost a register, rename finds one for every free ROB entry.** -/
theorem Run.renameFits {w : World} (width : Nat) (fifo : List DecodeRenamePack)
    (h : Run (fun w inp => w.core.leaks inp.commit.writeAck = false) w) :
    RenameFits width w.core w.core fifo := by
  obtain ⟨g, hg, hcount⟩ := h.conserved
  have hrob : Fifo.Filled w.core.rob w.core.rob g.base.rob g.tip.rob :=
    ⟨hg.inv.rob.rptr, hg.inv.rob.wptr, hg.inv.rob.le, hg.inv.rob.size⟩
  have hpopped (base : Shadow) (fl : List Flight) : (tip base fl).free ≤ base.free + fl.length := by
    induction fl generalizing base with
    | nil => exact Nat.le_refl _
    | cons f fl ih =>
        have hone : (advance f base).free ≤ base.free + 1 :=
          Nat.add_le_add_left (Bool.toNat_le _) _
        have := ih (advance f base)
        rw [tip, Window.tip_cons, ← tip, List.length_cons]
        omega
  refine RenameFits.of_room ?_
  have hfree : g.tip.free ≤ g.base.free + g.flight.length := hpopped g.base g.flight
  have hlen : g.tip.rob = g.base.rob + g.flight.length := tip_rob g.base g.flight
  have hsize := hg.inv.free.size
  rw [hrob.freeSpace (show 0 < robSize by decide), Fifo.customerGetUsedSpace, hg.inv.free.rptr,
    hg.inv.free.wptr, Ptr.gap_fold FreeList.Stocked.pos hg.inv.free.le hsize, hlen]
  simp only [robSize, archRegNum, phyRegNum] at hcount ⊢
  omega

/-! ## The result -/

/-- **When rename keeps its promises**: for every width, every occupancy and everything the
decoder can have sent, exactly when the free list does not run out while rename pops. -/
theorem rename_sound_iff (width : Nat) (stall flush waiting : Bool) {cur new : Core}
    (hready : cur.Ready new map k) (hfifo : ∀ q ∈ fifo, q.Shaped ∧ q.RegsOk) :
    RenameSound width cur new stall flush waiting fifo ↔
      (flush || stall || waiting) = true ∨ RenameFits width cur new fifo := by
  have hspec : LoopSpec cur new k [] fifo width 0 false := renameLoop_spec hready hfifo rfl rfl
  obtain ⟨hsome, hnone⟩ := hspec
  rw [hready.fits_iff] at hsome hnone
  by_cases hidle : (flush || stall || waiting) = true
  · refine iff_of_true ?_ (.inl hidle)
    simp only [RenameSound, if_pos hidle]
    unfold renameRunAt
    cases flush with
    | true => exact ⟨_, rfl, rfl, rfl⟩
    | false =>
        cases stall with
        | true => exact ⟨_, rfl, rfl, rfl⟩
        | false =>
            rw [Bool.or_self, Bool.false_or] at hidle
            rw [hidle]
            exact ⟨_, rfl, rfl, rfl⟩
  · have hflags : flush = false ∧ stall = false ∧ waiting = false := by
      cases flush <;> cases stall <;> cases waiting <;> simp at hidle ⊢
    obtain ⟨rfl, rfl, rfl⟩ := hflags
    rw [or_iff_right hidle]
    simp only [RenameSound, if_neg hidle]
    constructor
    · rintro ⟨r, hrun, -⟩
      by_contra hfits
      simp only [renameRunAt, hnone hfits, Bool.false_eq_true, if_false] at hrun
      cases hrun
    · intro hfits
      obtain ⟨turns, s', hloop, hlast, hsound⟩ := hsome hfits
      refine ⟨⟨turns, s', some (turns.map Prod.fst)⟩, ?_, hsound⟩
      have halone := csrAlone_of_loop (fun q hq => (hfifo q hq).1) hloop
      simp [renameRunAt, hloop, halone, hlast, guard]

/-- `addi x1, x0, 5` and `addi x1, x1, 0`. -/
def twoDestinations : List DecodeRenamePack :=
  [decode (plainPack 0x80000000 0x00500093), decode (plainPack 0x80000004 0x00008093)]

theorem twoDestinations_shaped : ∀ q ∈ twoDestinations, q.Shaped ∧ q.RegsOk := by
  intro q hq
  simp only [twoDestinations, List.mem_cons, List.not_mem_nil, or_false] at hq
  rcases hq with rfl | rfl
  · exact ⟨decode_shaped (plainPack_ok _ _), decode_regsOk _⟩
  · exact ⟨decode_shaped (plainPack_ok _ _), decode_regsOk _⟩

theorem rename_sound_iff_reset :
    RenameSound 4 Core.reset Core.reset false false false twoDestinations :=
  (rename_sound_iff 4 false false false (holds_init.inv.ready (by decide +kernel))
    twoDestinations_shaped).mpr (.inr (RenameFits.of_room (by decide)))

/-- The core after reset, when all ids but one have been lost. -/
def Core.starved : Core :=
  { Core.reset with
    phyIdFreeList :=
      { ring := { buffer := id, rptr := ⟨127, false⟩, wptr := ⟨0, true⟩ }, freeListSet := [127] } }

/-- **Two destinations, one id**: the test before the second pop still sees the id the first one
took. -/
theorem rename_starved_notSound :
    ¬ RenameSound 4 Core.starved Core.starved false false false twoDestinations := by
  rintro ⟨r, hrun, -⟩
  have hnone : (renameRunAt 4 Core.starved Core.starved false false false
      twoDestinations).isNone = true := by decide +kernel
  rw [hrun] at hnone
  cases hnone

end DreamCore
