import DreamCore.Backend.Shadow
import Mathlib.Data.List.Perm.Basic

/-!
# The invariant of the window

What ties the shared components to the window of instructions in flight. A
`Ghost` names the window: where it starts, what is in it, and the three counters
no shadow has, because they move at the retired end: how many ids were ever
pushed to the free list, how many checkpoints were ever popped, and which ids
commit gave back.

`Inv` is stated for one snapshot. It holds between cycles, and it holds again
after every stage of a cycle, with a window that is a little shorter at one end
or a little longer at the other.
-/

namespace DreamCore

open Ring

/-- The window of a core, and the history commit has written. -/
structure Ghost where
  base : Shadow
  flight : List Flight
  /-- How many ids have been pushed to the free list. -/
  freed : Nat
  /-- How many checkpoints have been popped. -/
  ckHead : Nat
  /-- The ids commit has given back, oldest first. -/
  released : List Nat

/-- The young end of the window. -/
def Ghost.tip (g : Ghost) : Shadow := DreamCore.tip g.base g.flight

/-- No instruction of the window reaches beyond the tip. -/
theorem Ghost.advance_le_tip (g : Ghost) {c : Shadow → Nat} (hc : ∀ i s, c s ≤ c (advance i s))
    {l₁ l₂ : List Flight} {f : Flight} (hs : g.flight = l₁ ++ f :: l₂) :
    c (advance f (Window.tip advance g.base l₁)) ≤ c g.tip := by
  rw [Ghost.tip, hs, DreamCore.tip, Window.tip_append, Window.tip_cons]
  exact Window.le_tip hc _ l₂

theorem Ghost.advance_free_le_tip (g : Ghost) {l₁ l₂ : List Flight} {f : Flight}
    (hs : g.flight = l₁ ++ f :: l₂) :
    (advance f (Window.tip advance g.base l₁)).free ≤ g.tip.free :=
  g.advance_le_tip advance_free_le hs

/-- **The ROB entry of `f` says what rename allocated for `f`.** -/
structure RobItem.Tracks (item : RobItem) (σ : Shadow) (f : Flight) : Prop where
  newPhyRegId : item.newPhyRegId = f.info.rdPhy
  allocates : item.oldPhyRegIdValid = f.info.allocates
  oldPhyRegId : f.info.allocates = true →
    item.oldPhyRegId = σ.map f.info.rd ∧ item.rd = f.info.rd
  oldFree : item.oldPhyIdFreeListRptr = Ptr.fold phyRegNum σ.free
  newFree : item.newPhyIdFreeListRptr = Ptr.fold phyRegNum (advance f σ).free
  loadQueue : item.loadQueueIdValid = f.info.takesLoadQueue
  storeBuffer : item.storeBufferIdValid = f.info.takesStoreBuffer
  bruOp : item.bruOp = (f.info.opUnit == .bru)
  pack : item.finish = true →
    item.branchPredictorInfoPack = f.info.toIssue.branchPredictorInfoPack

/-- **The checkpoint of `f` marks the tip right after `f`.** -/
structure Checkpoint.Marks (cp : Checkpoint) (σ : Shadow) (f : Flight) : Prop where
  valid : ∀ p, p < phyRegNum →
    (cp.phyMapTableValid p = true ↔ ∃ a, IsReg a ∧ (advance f σ).map a = p)
  free : cp.newPhyIdFreeListRptr = Ptr.fold phyRegNum (advance f σ).free
  checkpoint : cp.newCheckpointBufferWptr = Ptr.fold checkpointBufferSize (advance f σ).ck
  loadQueue : cp.oldLoadQueueWptr = Ptr.fold loadQueueSize σ.lq
  storeBuffer : cp.oldStoreBufferWptr = Ptr.fold storeBufferSize σ.sb

/-- **The record of the moment `f` was renamed**, compared with the components now. -/
structure Flight.Recorded (s : Core) (freed : Nat) (released : List Nat) (σ : Shadow)
    (f : Flight) : Prop where
  map : Represents f.after.speculativeRat (advance f σ).map
  before : f.releasedBefore ≤ released.length
  free : slots phyRegNum s.phyIdFreeList.ring.buffer (advance f σ).free freed
    = f.after.phyIdFreeList.contents ++ released.drop f.releasedBefore
  rob : f.after.rob.wptr = Ptr.fold robSize (advance f σ).rob
  ck : f.after.checkpointBuffer.wptr = Ptr.fold checkpointBufferSize (advance f σ).ck
  lq : f.after.loadQueue.ring.wptr = Ptr.fold loadQueueSize (advance f σ).lq
  sb : f.after.storeBuffer.ring.wptr = Ptr.fold storeBufferSize (advance f σ).sb
  checkpoint : f.info.hasCheckpoint = true →
    s.checkpointBuffer.buffer (σ.ck % checkpointBufferSize)
      = f.after.checkpointBuffer.buffer (σ.ck % checkpointBufferSize)

/-- What the decoder guarantees about a renamed instruction. -/
structure OpInfo.Shaped (i : OpInfo) : Prop where
  checkpoint : i.hasCheckpoint = true →
    (i.opUnit = .bru ∧ i.branchPredictorInfoPack.predicted = true) ∨ i.opUnit = .lu
  store : i.takesStoreBuffer = true → i.allocates = false

/-- What the components hold for one instruction in flight, renamed at `σ`. -/
structure EntryOk (s : Core) (freed : Nat) (released : List Nat) (σ : Shadow) (f : Flight) :
    Prop where
  shaped : f.info.Shaped
  robId : f.info.robId = Ptr.fold robSize σ.rob
  item : (s.rob.buffer (σ.rob % robSize)).Tracks σ f
  dest : f.info.allocates = true →
    IsReg f.info.rd ∧ s.phyIdFreeList.ring.buffer (σ.free % phyRegNum) = f.info.rdPhy
  checkpointId : f.info.hasCheckpoint = true →
    f.info.branchPredictorInfoPack.checkpointId = σ.ck % checkpointBufferSize
  checkpoint : f.info.hasCheckpoint = true →
    (s.checkpointBuffer.buffer (σ.ck % checkpointBufferSize)).Marks σ f
  recorded : f.Recorded s freed released σ

/-- **The core `s` holds the window `g`.** -/
structure Inv (s : Core) (g : Ghost) : Prop where
  rob : Fifo.Window s.rob g.base.rob g.tip.rob
  free : Fifo.Window s.phyIdFreeList.ring g.tip.free g.freed
  /-- No id is twice among the free, the in-flight and the retired ones. -/
  nodup : (slots phyRegNum s.phyIdFreeList.ring.buffer g.base.free g.freed
    ++ homes g.base.map).Nodup
  bound : ∀ p ∈ slots phyRegNum s.phyIdFreeList.ring.buffer g.base.free g.freed, p < phyRegNum
  retire : Represents s.retireRat g.base.map
  spec : Represents s.speculativeRat g.tip.map
  /-- The speculative table still knows every map a rewind can go back to. -/
  rewind : ∀ l₁ l₂, g.flight = l₁ ++ l₂ → ∀ a, IsReg a →
    s.speculativeRat.phyMapTable ((tip g.base l₁).map a) = a
      ∧ (tip g.base l₁).map a < phyRegNum
  ck : Fifo.Window s.checkpointBuffer g.ckHead g.tip.ck
  ckHead : g.ckHead ≤ g.base.ck
  lq : Fifo.Window s.loadQueue.ring g.base.lq g.tip.lq
  sb : Fifo.Window s.storeBuffer.ring g.base.sb g.tip.sb
  /-- No load that executes carries a checkpoint. -/
  lqPlain : ∀ id, (s.loadQueue.ring.buffer id).checkpointIdValid = false
  entries : Window.EachAt advance (EntryOk s g.freed g.released) g.base g.flight

/-! ## Homes -/

/-- Moving one register swaps its old home for its new one. -/
theorem homes_update_perm {m : Nat → Nat} {a x : Nat} (ha : IsReg a) :
    (m a :: homes (Function.update m a x)).Perm (x :: homes m) := by
  have hmem : a ∈ List.range' 1 (archRegNum - 1) := by
    have := ha
    simp only [IsReg, archRegNum] at this
    simp only [List.mem_range'_1, archRegNum]
    omega
  have hnd : (List.range' 1 (archRegNum - 1)).Nodup := List.nodup_range'
  have hperm := List.perm_cons_erase hmem
  have hout : ((List.range' 1 (archRegNum - 1)).erase a).map (Function.update m a x)
      = ((List.range' 1 (archRegNum - 1)).erase a).map m := by
    refine List.map_congr_left fun b hb => ?_
    rw [Function.update_of_ne]
    rintro rfl
    exact (hnd.not_mem_erase) hb
  have h1 : (homes (Function.update m a x)).Perm
      (x :: ((List.range' 1 (archRegNum - 1)).erase a).map m) := by
    have := hperm.map (Function.update m a x)
    rwa [List.map_cons, Function.update_self, hout] at this
  have h2 : (homes m).Perm (m a :: ((List.range' 1 (archRegNum - 1)).erase a).map m) := by
    have := hperm.map m
    rwa [List.map_cons] at this
  exact (h1.cons _).trans ((List.Perm.swap ..).trans (h2.cons _).symm)

@[simp] theorem homes_length (m : Nat → Nat) : (homes m).length = archRegNum - 1 := by
  simp [homes]

/-! ## Reading the invariant -/

/-- Where the window has put a register: its retired home, or an id popped since. -/
theorem tip_map_mem {s : Core} {freed : Nat} {released : List Nat} {base : Shadow}
    {fl : List Flight} (h : Window.EachAt advance (EntryOk s freed released) base fl) {a : Nat}
    (ha : IsReg a) :
    (tip base fl).map a ∈ slots phyRegNum s.phyIdFreeList.ring.buffer base.free (tip base fl).free
      ++ homes base.map := by
  induction fl using List.reverseRecOn with
  | nil => exact List.mem_append_right _ (mem_homes.mpr ⟨a, ha, rfl⟩)
  | append_singleton fl f ih =>
    obtain ⟨hfl, hf⟩ := Window.eachAt_snoc.mp h
    have hle := free_le_tip base fl
    rw [tip, Window.tip_snoc, ← tip]
    by_cases hal : f.info.allocates = true
    · have hfree : (advance f (tip base fl)).free = (tip base fl).free + 1 := by
        simp [advance, hal]
      have hmap : (advance f (tip base fl)).map
          = Function.update (tip base fl).map f.info.rd f.info.rdPhy := by simp [advance, hal]
      rw [hfree, hmap, slots_succ_right _ hle]
      by_cases hrd : a = f.info.rd
      · subst hrd
        rw [Function.update_self, (hf.dest hal).2]
        simp
      · rw [Function.update_of_ne hrd]
        have := ih hfl
        simp only [List.mem_append] at this ⊢
        tauto
    · have hstay : (advance f (tip base fl)).free = (tip base fl).free
          ∧ (advance f (tip base fl)).map = (tip base fl).map := by simp [advance, hal]
      rw [hstay.1, hstay.2]
      exact ih hfl

namespace Inv

variable {s s' : Core} {g : Ghost}

theorem base_free_le (h : Inv s g) : g.base.free ≤ g.freed :=
  Nat.le_trans (free_le_tip _ _) h.free.le

/-- **The ids outside the retired map never fill the ring.** -/
theorem freed_le (h : Inv s g) : g.freed + (archRegNum - 1) ≤ g.base.free + phyRegNum := by
  have hlt : ∀ p ∈ slots phyRegNum s.phyIdFreeList.ring.buffer g.base.free g.freed
      ++ homes g.base.map, p ∈ List.range phyRegNum := by
    intro p hp
    rw [List.mem_range]
    rcases List.mem_append.mp hp with hp | hp
    · exact h.bound p hp
    · obtain ⟨a, ha, rfl⟩ := mem_homes.mp hp
      exact h.retire.lt a ha
  have hlen := (List.subperm_of_subset h.nodup hlt).length_le
  rw [List.length_append, slots_length, homes_length, List.length_range] at hlen
  have := h.base_free_le
  omega

/-- The prefix of the window before one of its instructions. -/
theorem entry (h : Inv s g) {l₁ l₂ : List Flight} {f : Flight} (hs : g.flight = l₁ ++ f :: l₂) :
    EntryOk s g.freed g.released (tip g.base l₁) f :=
  Window.EachAt.at (hs ▸ h.entries)

/-- The oldest instruction of the window. -/
theorem frontEntry (h : Inv s g) {l : List Flight} {f : Flight} (hs : g.flight = f :: l) :
    EntryOk s g.freed g.released g.base f :=
  h.entry (show g.flight = [] ++ f :: l from hs)

theorem prefixEntries (h : Inv s g) {l₁ l₂ : List Flight} (hs : g.flight = l₁ ++ l₂) :
    Window.EachAt advance (EntryOk s g.freed g.released) g.base l₁ :=
  (Window.eachAt_append.mp (hs ▸ h.entries)).1

/-- **Two instructions of the window never share a ROB slot.** -/
theorem slot_inj (h : Inv s g) {l₁ l₂ l₁' l₂' : List Flight} {f f' : Flight}
    (h₁ : g.flight = l₁ ++ f :: l₂) (h₂ : g.flight = l₁' ++ f' :: l₂')
    (hs : (tip g.base l₁).rob % robSize = (tip g.base l₁').rob % robSize) :
    l₁ = l₁' ∧ f = f' := by
  have hsize := h.rob.size
  rw [Ghost.tip, tip_rob] at hsize
  have hlen₁ : l₁.length < g.flight.length := by rw [h₁]; simp
  have hlen₂ : l₁'.length < g.flight.length := by rw [h₂]; simp
  rw [tip_rob, tip_rob] at hs
  have hlen : l₁.length = l₁'.length := by
    rcases Nat.lt_trichotomy l₁.length l₁'.length with hlt | heq | hlt
    · exact absurd hs (mod_ne_of_window (by omega) (by omega))
    · exact heq
    · exact absurd hs.symm (mod_ne_of_window (by omega) (by omega))
  obtain ⟨hl, hr⟩ := List.append_inj (h₁.symm.trans h₂) hlen
  exact ⟨hl, (List.cons.inj hr).1⟩

end Inv

/-! ## Changes the window does not see -/

/-- `s'` differs from `s` only in what the window does not speak about. -/
structure Core.SameWindow (s s' : Core) : Prop where
  rob : s'.rob = s.rob
  retireRat : s'.retireRat = s.retireRat
  speculativeRat : s'.speculativeRat = s.speculativeRat
  free : s'.phyIdFreeList = s.phyIdFreeList
  ck : s'.checkpointBuffer = s.checkpointBuffer
  lqRptr : s'.loadQueue.ring.rptr = s.loadQueue.ring.rptr
  lqWptr : s'.loadQueue.ring.wptr = s.loadQueue.ring.wptr
  lqPlain : (∀ id, (s.loadQueue.ring.buffer id).checkpointIdValid = false) →
    ∀ id, (s'.loadQueue.ring.buffer id).checkpointIdValid = false
  sbRptr : s'.storeBuffer.ring.rptr = s.storeBuffer.ring.rptr
  sbWptr : s'.storeBuffer.ring.wptr = s.storeBuffer.ring.wptr

namespace Core.SameWindow

variable {s s' s'' : Core}

theorem refl (s : Core) : SameWindow s s :=
  ⟨rfl, rfl, rfl, rfl, rfl, rfl, rfl, id, rfl, rfl⟩

theorem trans (h : SameWindow s s') (h' : SameWindow s' s'') : SameWindow s s'' where
  rob := h'.rob.trans h.rob
  retireRat := h'.retireRat.trans h.retireRat
  speculativeRat := h'.speculativeRat.trans h.speculativeRat
  free := h'.free.trans h.free
  ck := h'.ck.trans h.ck
  lqRptr := h'.lqRptr.trans h.lqRptr
  lqWptr := h'.lqWptr.trans h.lqWptr
  lqPlain := fun hp => h'.lqPlain (h.lqPlain hp)
  sbRptr := h'.sbRptr.trans h.sbRptr
  sbWptr := h'.sbWptr.trans h.sbWptr

end Core.SameWindow

/-- An entry depends on its own cells and on the buffer of the free list. -/
theorem EntryOk.congr {s s' : Core} {freed : Nat} {released : List Nat} {σ : Shadow} {f : Flight}
    (h : EntryOk s freed released σ f)
    (hrob : s'.rob.buffer (σ.rob % robSize) = s.rob.buffer (σ.rob % robSize))
    (hfree : s'.phyIdFreeList.ring.buffer = s.phyIdFreeList.ring.buffer)
    (hck : f.info.hasCheckpoint = true →
      s'.checkpointBuffer.buffer (σ.ck % checkpointBufferSize)
        = s.checkpointBuffer.buffer (σ.ck % checkpointBufferSize)) :
    EntryOk s' freed released σ f := by
  obtain ⟨h1, h2, h3, h4, h5, h6, ⟨r1, r2, r3, r4, r5, r6, r7, r8⟩⟩ := h
  exact ⟨h1, h2, hrob ▸ h3, hfree ▸ h4, h5, fun hc => (hck hc).symm ▸ h6 hc,
    ⟨r1, r2, hfree ▸ r3, r4, r5, r6, r7, fun hc => (hck hc).trans (r8 hc)⟩⟩

/-- **The invariant survives every change the window does not see.** -/
theorem Inv.congr {s s' : Core} {g : Ghost} (h : Inv s g) (hs : s.SameWindow s') : Inv s' g where
  rob := hs.rob ▸ h.rob
  free := hs.free ▸ h.free
  nodup := hs.free ▸ h.nodup
  bound := hs.free ▸ h.bound
  retire := hs.retireRat ▸ h.retire
  spec := hs.speculativeRat ▸ h.spec
  rewind := hs.speculativeRat ▸ h.rewind
  ck := hs.ck ▸ h.ck
  ckHead := h.ckHead
  lq := ⟨hs.lqRptr ▸ h.lq.rptr, hs.lqWptr ▸ h.lq.wptr, h.lq.le, h.lq.size⟩
  sb := ⟨hs.sbRptr ▸ h.sb.rptr, hs.sbWptr ▸ h.sb.wptr, h.sb.le, h.sb.size⟩
  lqPlain := hs.lqPlain h.lqPlain
  entries := h.entries.imp fun _ _ _ _ he =>
    he.congr (by rw [hs.rob]) (by rw [hs.free]) fun _ => by rw [hs.ck]

end DreamCore
