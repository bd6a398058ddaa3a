import DreamCore.Backend.CommitStep

/-!
# The invariant across commit

The three effects of commit on the window, each with the ghost it leaves behind.
A retirement shifts the window by one entry, and the tip stays where it is. A
flush drops the window; what it goes back to is decided by the free-list pointer
it restores, and that pointer need not be the one before the first dropped
instruction.
-/

namespace DreamCore

open Ring

/-- Commit compares its fresh pointers with these of the snapshot the cycle began with. Until
commit is done they agree with the fresh ones. -/
structure Core.SameTail (cur s : Core) : Prop where
  robWptr : cur.rob.wptr = s.rob.wptr
  robBuffer : cur.rob.buffer = s.rob.buffer
  ckWptr : cur.checkpointBuffer.wptr = s.checkpointBuffer.wptr
  lqWptr : cur.loadQueue.ring.wptr = s.loadQueue.ring.wptr
  sbWptr : cur.storeBuffer.ring.wptr = s.storeBuffer.ring.wptr
  freeRptr : cur.phyIdFreeList.ring.rptr = s.phyIdFreeList.ring.rptr

theorem Core.SameTail.congr {cur s s' : Core} (h : cur.SameTail s) (hs : s.SameWindow s') :
    cur.SameTail s' where
  robWptr := by rw [h.robWptr, hs.rob]
  robBuffer := by rw [h.robBuffer, hs.rob]
  ckWptr := by rw [h.ckWptr, hs.ck]
  lqWptr := by rw [h.lqWptr, hs.lqWptr]
  sbWptr := by rw [h.sbWptr, hs.sbWptr]
  freeRptr := by rw [h.freeRptr, hs.free]

/-! ## A flush -/

/-- The window after a flush that restores the free list to counter `k`. -/
def Ghost.flush (g : Ghost) (k : Nat) : Ghost :=
  { g with base := ⟨0, k, 0, 0, 0, g.base.map⟩, flight := [], ckHead := 0 }

/-- **A flush to a point of the window keeps the invariant.** -/
theorem Inv.afterFlush {s s' : Core} {g : Ghost} {k : Nat} (h : Inv s g)
    (hf : s.Flushes s' (Ptr.fold phyRegNum k)) (hk : g.base.free ≤ k) (hk' : k ≤ g.freed) :
    Inv s' (g.flush k) := by
  have hring : s'.phyIdFreeList.ring.buffer = s.phyIdFreeList.ring.buffer := by rw [hf.free]
  have hsub : slots phyRegNum s.phyIdFreeList.ring.buffer g.base.free g.freed
      = slots phyRegNum s.phyIdFreeList.ring.buffer g.base.free k
        ++ slots phyRegNum s.phyIdFreeList.ring.buffer k g.freed := (slots_append _ hk hk').symm
  refine ⟨hf.rob ▸ Fifo.window_flush _, ⟨?_, ?_, hk', ?_⟩, ?_, ?_, ?_, ?_, ?_,
    hf.ck ▸ Fifo.window_flush _, Nat.le_refl _, hf.lq ▸ Fifo.window_flush _,
    hf.sb ▸ Fifo.window_flush _, ?_, trivial⟩
  · rw [hf.free]
    rfl
  · rw [hf.free]
    exact h.free.wptr
  · have := h.freed_le
    simp only [Ghost.flush, Ghost.tip, tip, Window.tip_nil, archRegNum, phyRegNum] at *
    omega
  · rw [hring]
    have := h.nodup
    rw [hsub, List.append_assoc] at this
    exact this.of_append_right
  · rw [hring]
    intro p hp
    exact h.bound p (hsub ▸ List.mem_append_right _ hp)
  · rw [hf.retireRat]
    exact h.retire
  · rw [hf.speculativeRat]
    exact h.retire
  · intro l₁ l₂ hl a ha
    obtain ⟨rfl, rfl⟩ := List.nil_eq_append_iff.mp hl
    rw [hf.speculativeRat]
    exact ⟨h.retire.arch a ha, h.retire.lt a ha⟩
  · intro id
    rw [hf.lq]
    exact h.lqPlain id

/-! ## A retirement -/

/-- The instruction pops its checkpoint when it retires. -/
def Flight.pops (f : Flight) : Bool := f.info.opUnit == .bru && f.info.hasCheckpoint

/-- The window after its oldest instruction has retired. -/
def Ghost.retire (g : Ghost) (f : Flight) (rest : List Flight) : Ghost where
  base := advance f g.base
  flight := rest
  freed := g.freed + f.info.allocates.toNat
  ckHead := g.ckHead + f.pops.toNat
  released := g.released ++ if f.info.allocates then [g.base.map f.info.rd] else []

/-- Retiring does not move the tip. -/
theorem Ghost.retire_tip {g : Ghost} {f : Flight} {rest : List Flight}
    (hg : g.flight = f :: rest) : (g.retire f rest).tip = g.tip := by
  simp only [Ghost.tip, Ghost.retire, hg, tip, Window.tip_cons]

/-- **An entry does not notice that an older instruction gave an id back.** -/
theorem EntryOk.release {s s' : Core} {freed x : Nat} {released : List Nat} {σ : Shadow}
    {f : Flight} (h : EntryOk s freed released σ f)
    (hrob : s'.rob.buffer = s.rob.buffer) (hck : s'.checkpointBuffer.buffer = s.checkpointBuffer.buffer)
    (hbuf : s'.phyIdFreeList.ring.buffer
      = Function.update s.phyIdFreeList.ring.buffer (freed % phyRegNum) x)
    (hle : (advance f σ).free ≤ freed) (hlt : freed < σ.free + phyRegNum) :
    EntryOk s' (freed + 1) (released ++ [x]) σ f := by
  have hrec := h.recorded
  refine ⟨h.shaped, h.robId, hrob ▸ h.item, ?_, h.checkpointId, hck ▸ h.checkpoint,
    ⟨hrec.map, ?_, ?_, hrec.rob, hrec.ck, hrec.lq, hrec.sb, ?_⟩⟩
  · intro hal
    have hlt' : σ.free < freed := by
      have : (advance f σ).free = σ.free + 1 := by simp [advance, hal]
      omega
    rw [hbuf, Function.update_of_ne (mod_ne_of_window hlt' hlt)]
    exact h.dest hal
  · rw [List.length_append]
    exact Nat.le_trans hrec.before (Nat.le_add_right _ _)
  · have hge : σ.free ≤ (advance f σ).free := advance_free_le f σ
    rw [slots_succ_right _ hle, hbuf, slots_update _ _ (Nat.le_refl _) (by omega),
      Function.update_self, hrec.free, List.drop_append_of_le_length hrec.before, List.append_assoc]
  · rw [hck]
    exact hrec.checkpoint

/-- What the ROB entry says about its checkpoint once it is finished. -/
theorem RobItem.Tracks.pops {item : RobItem} {σ : Shadow} {f : Flight} (h : item.Tracks σ f)
    (hs : f.info.Shaped) (hfin : item.finish = true) :
    (item.bruOp && item.branchPredictorInfoPack.predicted
      && item.branchPredictorInfoPack.checkpointIdValid) = f.pops := by
  rw [h.bruOp, h.pack hfin, Flight.pops]
  by_cases hb : f.info.opUnit = .bru
  · have hi : f.info.toIssue = f.info := by simp [OpInfo.toIssue, hb, OpUnit.isLsu]
    rw [hi]
    cases hc : f.info.hasCheckpoint with
    | false =>
      have : f.info.branchPredictorInfoPack.checkpointIdValid = false := hc
      simp [this]
    | true =>
      have hck : f.info.branchPredictorInfoPack.checkpointIdValid = true := hc
      rcases hs.checkpoint hc with ⟨-, hp⟩ | hl
      · simp [hp, hck]
      · rw [hb] at hl
        cases hl
  · have : (f.info.opUnit == OpUnit.bru) = false := beq_eq_false_iff_ne.mpr hb
    simp [this]

/-- **The registers after a retirement that releases one.** The new home of `rd` and its old
one change places. -/
theorem Inv.retire_perm {s : Core} {g : Ghost} {buf : Nat → Nat} {rd rdPhy : Nat} (h : Inv s g)
    (hrd : IsReg rd) (hlt : g.base.free < g.freed)
    (hphy : s.phyIdFreeList.ring.buffer (g.base.free % phyRegNum) = rdPhy)
    (hbuf : buf = Function.update s.phyIdFreeList.ring.buffer (g.freed % phyRegNum)
      (g.base.map rd)) :
    (slots phyRegNum buf (g.base.free + 1) (g.freed + 1)
      ++ homes (Function.update g.base.map rd rdPhy)).Perm
      (slots phyRegNum s.phyIdFreeList.ring.buffer g.base.free g.freed ++ homes g.base.map) := by
  have hfreed := h.freed_le
  simp only [archRegNum, phyRegNum] at hfreed
  rw [slots_succ_right _ hlt, slots_succ_left s.phyIdFreeList.ring.buffer hlt, hphy, hbuf,
    slots_update _ _ (Nat.le_refl _) (by simp only [phyRegNum]; omega), Function.update_self,
    List.append_assoc]
  exact ((homes_update_perm hrd).append_left _).trans List.perm_middle

/-- **The release of the old register.** What an allocating instruction does to the retired
table and the free list when it retires. -/
theorem Inv.releases {cur s s' : Core} {g : Ghost} {f : Flight} {rest : List Flight} (h : Inv s g)
    (ht : cur.SameTail s) (hg : g.flight = f :: rest)
    (hr : cur.Retires s s' (s.rob.buffer (g.base.rob % robSize)))
    (hal : f.info.allocates = true) :
    IsReg f.info.rd
      ∧ s.phyIdFreeList.ring.buffer (g.base.free % phyRegNum) = f.info.rdPhy
      ∧ Represents s'.retireRat (advance f g.base).map
      ∧ Fifo.Window s'.phyIdFreeList.ring g.tip.free (g.freed + 1)
      ∧ s'.phyIdFreeList.ring.buffer = Function.update s.phyIdFreeList.ring.buffer
          (g.freed % phyRegNum) (g.base.map f.info.rd) := by
  have he : EntryOk s g.freed g.released g.base f := h.frontEntry hg
  have hfreed := h.freed_le
  have htipf := free_le_tip g.base g.flight
  simp only [archRegNum, phyRegNum] at hfreed
  obtain ⟨hreg, hphy⟩ := he.dest hal
  obtain ⟨hset, ok, hpush⟩ := hr.allocated (he.item.allocates.trans hal)
  obtain ⟨hold, hrd⟩ := he.item.oldPhyRegId hal
  rw [hrd, he.item.newPhyRegId] at hset
  rw [hold] at hpush
  refine ⟨hreg, hphy, ?_, ?_⟩
  · have : (advance f g.base).map = Function.update g.base.map f.info.rd f.info.rdPhy := by
      simp [advance, hal]
    rw [this]
    exact (h.retire.setMap hset).2.2
  · have hroom : g.freed ≠ g.tip.free + phyRegNum := by
      simp only [Ghost.tip, phyRegNum]
      omega
    have hnf : Fifo.producerIsFull cur.phyIdFreeList.ring s.phyIdFreeList.ring = false := by
      rw [Bool.eq_false_iff]
      exact fun hf => hroom ((Fifo.producerIsFull_iff (by decide)
        (ht.freeRptr.trans h.free.rptr) h.free.wptr h.free.le h.free.size).mp hf)
    rcases FreeList.push_eq_some hpush with ⟨hp, -⟩ | ⟨hp, -⟩
    · obtain ⟨-, hrp, hwp, hbuf⟩ := Fifo.push_eq_some hp
      have hle := h.free.le
      have hsize := h.free.size
      refine ⟨⟨hrp.trans h.free.rptr, ?_, by omega, ?_⟩, ?_⟩
      · rw [hwp, h.free.wptr, Ptr.next_fold (by decide)]
      · omega
      · rw [hbuf, h.free.wptr, Ptr.fold_id]
    · simp [Fifo.push, hnf] at hp

/-- **A retirement keeps the invariant.** -/
theorem Inv.afterRetire {cur s s' : Core} {g : Ghost} {f : Flight} {rest : List Flight}
    (h : Inv s g) (ht : cur.SameTail s) (hg : g.flight = f :: rest)
    (hfin : (s.rob.buffer (g.base.rob % robSize)).finish = true)
    (hr : cur.Retires s s' (s.rob.buffer (g.base.rob % robSize))) : Inv s' (g.retire f rest) := by
  have he : EntryOk s g.freed g.released g.base f := h.frontEntry hg
  have htip := g.retire_tip hg
  have hbelow : ∀ {c : Shadow → Nat}, (∀ i s, c s ≤ c (advance i s)) →
      c (advance f g.base) ≤ c g.tip := fun {c} hc => by
    rw [Ghost.tip, hg]
    exact Window.le_tip hc (advance f g.base) rest
  have hrob : Fifo.Window s'.rob (g.base.rob + 1) g.tip.rob := by
    rw [hr.rob]
    exact h.rob.drop (by decide) ht.robWptr (hbelow (c := Shadow.rob) fun _ _ => Nat.le_add_right _ _)
  have hck : Fifo.Window s'.checkpointBuffer (g.ckHead + f.pops.toNat) g.tip.ck := by
    rw [hr.ck, he.item.pops he.shaped hfin]
    refine h.ck.dropIf (by decide) ht.ckWptr fun hp => ?_
    have hhas : f.info.hasCheckpoint = true := by
      simp only [Flight.pops, Bool.and_eq_true] at hp
      exact hp.2
    have := hbelow (c := Shadow.ck) fun _ _ => Nat.le_add_right _ _
    have hadv : (advance f g.base).ck = g.base.ck + 1 := by simp [advance, hhas]
    have := h.ckHead
    omega
  have hlq : Fifo.Window s'.loadQueue.ring (advance f g.base).lq g.tip.lq := by
    rw [hr.lq, he.item.loadQueue]
    refine h.lq.dropIf (by decide) ht.lqWptr fun hp => ?_
    have := hbelow (c := Shadow.lq) fun _ _ => Nat.le_add_right _ _
    have hadv : (advance f g.base).lq = g.base.lq + 1 := by simp [advance, hp]
    omega
  have hsb : Fifo.Window s'.storeBuffer.ring (advance f g.base).sb g.tip.sb := by
    rw [hr.sb, he.item.storeBuffer]
    refine h.sb.dropIf (by decide) ht.sbWptr fun hp => ?_
    have := hbelow (c := Shadow.sb) fun _ _ => Nat.le_add_right _ _
    have hadv : (advance f g.base).sb = g.base.sb + 1 := by simp [advance, hp]
    omega
  have hckHead : g.ckHead + f.pops.toNat ≤ (advance f g.base).ck := by
    have := h.ckHead
    simp only [advance, Flight.pops]
    cases f.info.hasCheckpoint <;> cases (f.info.opUnit == OpUnit.bru) <;> simp <;> omega
  have hplain : ∀ id, (s'.loadQueue.ring.buffer id).checkpointIdValid = false := by
    intro id
    rw [hr.lq]
    split
    · rw [Fifo.drop_buffer]
      exact h.lqPlain id
    · exact h.lqPlain id
  have hspec : s'.speculativeRat = s.speculativeRat := hr.speculativeRat
  have hrewind : ∀ l₁ l₂, rest = l₁ ++ l₂ → ∀ a, IsReg a →
      s'.speculativeRat.phyMapTable ((tip (advance f g.base) l₁).map a) = a
        ∧ (tip (advance f g.base) l₁).map a < phyRegNum := by
    intro l₁ l₂ hl a ha
    rw [hspec]
    exact h.rewind (f :: l₁) l₂ (by rw [hg, hl, List.cons_append]) a ha
  have hrest : Window.EachAt advance (EntryOk s g.freed g.released) (advance f g.base) rest := by
    have := h.entries
    rw [hg] at this
    exact this.2
  have hrobBuf : s'.rob.buffer = s.rob.buffer := by rw [hr.rob, Fifo.drop_buffer]
  have hckBuf : s'.checkpointBuffer.buffer = s.checkpointBuffer.buffer := by
    rw [hr.ck]
    split
    · exact Fifo.drop_buffer
    · rfl
  cases hal : f.info.allocates with
  | false =>
    obtain ⟨hrat, hfl⟩ := hr.kept (he.item.allocates.trans hal)
    have hbase : (advance f g.base).free = g.base.free ∧ (advance f g.base).map = g.base.map := by
      simp [advance, hal]
    have hgh : g.retire f rest = ⟨advance f g.base, rest, g.freed, g.ckHead + f.pops.toNat,
        g.released⟩ := by
      simp [Ghost.retire, hal]
    rw [hgh] at htip ⊢
    exact {
      rob := htip ▸ hrob
      free := by rw [htip, hfl]; exact h.free
      nodup := by rw [hfl, hbase.1, hbase.2]; exact h.nodup
      bound := by rw [hfl, hbase.1]; exact h.bound
      retire := by rw [hrat, hbase.2]; exact h.retire
      spec := by rw [htip, hspec]; exact h.spec
      rewind := hrewind
      ck := htip ▸ hck
      ckHead := hckHead
      lq := htip ▸ hlq
      sb := htip ▸ hsb
      lqPlain := hplain
      entries := hrest.imp fun _ _ _ _ hf => hf.congr (by rw [hrobBuf]) (by rw [hfl])
        fun _ => by rw [hckBuf] }
  | true =>
    obtain ⟨hreg, hphy, hrat, hfree, hbuf⟩ := h.releases ht hg hr hal
    have hbase : (advance f g.base).free = g.base.free + 1
        ∧ (advance f g.base).map = Function.update g.base.map f.info.rd f.info.rdPhy := by
      simp [advance, hal]
    have hgh : g.retire f rest = ⟨advance f g.base, rest, g.freed + 1, g.ckHead + f.pops.toNat,
        g.released ++ [g.base.map f.info.rd]⟩ := by
      simp [Ghost.retire, hal]
    have hlt : g.base.free < g.freed := by
      have := hbelow advance_free_le
      have := h.free.le
      omega
    have hperm := h.retire_perm hreg hlt hphy hbuf
    have hfreed := h.freed_le
    simp only [archRegNum, phyRegNum] at hfreed
    rw [hgh] at htip ⊢
    exact {
      rob := htip ▸ hrob
      free := htip ▸ hfree
      nodup := by rw [hbase.1, hbase.2]; exact hperm.symm.nodup h.nodup
      bound := fun p hp => by
        rw [hbase.1] at hp
        rcases List.mem_append.mp (hperm.subset (List.mem_append_left _ hp)) with hp | hp
        · exact h.bound p hp
        · obtain ⟨a, ha, rfl⟩ := mem_homes.mp hp
          exact h.retire.lt a ha
      retire := hrat
      spec := by rw [htip, hspec]; exact h.spec
      rewind := hrewind
      ck := htip ▸ hck
      ckHead := hckHead
      lq := htip ▸ hlq
      sb := htip ▸ hsb
      lqPlain := hplain
      entries := hrest.imp fun l₁ i l₂ hl hf => by
        have hge : g.base.free + 1 ≤ (Window.tip advance (advance f g.base) l₁).free :=
          hbase.1 ▸ free_le_tip _ l₁
        have hle : (advance i (Window.tip advance (advance f g.base) l₁)).free ≤ g.tip.free :=
          g.advance_free_le_tip (show g.flight = (f :: l₁) ++ i :: l₂ by
            rw [hg, hl, List.cons_append])
        have := h.free.le
        exact hf.release hrobBuf hckBuf hbuf (by omega) (by simp only [phyRegNum]; omega) }

end DreamCore
