import DreamCore.Backend.RecoverStep

/-!
# Rename moves the young end of the window

One turn of rename allocates what the instruction needs and appends it to the
window. All its room checks compare fresh write pointers with the read pointers
the cycle began with, so `Behind` carries those along: `g₀` is the window the
cycle began with, and the window at hand never reaches a whole ring beyond it.
-/

namespace DreamCore

open Ring

/-- What rename takes from `decode_rename_fifo`, as far as it matters here. -/
structure DecodeRenamePack.Shaped (p : DecodeRenamePack) : Prop where
  enable : p.enable = true
  noCheckpoint : p.branchPredictorInfoPack.checkpointIdValid = false
  predicted : p.branchPredictorInfoPack.predicted = true → p.opUnit = .bru
  store : p.opUnit = .sdu → p.needRename = false
  mret : p.op = .mret → p.valid = true → p.opUnit = .bru
  fence : p.op = .fence → p.opUnit = .alu
  lsu : p.opUnit.isLsu = true → p.valid = true ∧ p.hasException = false

/-- **What the decoder hands to rename.** -/
theorem decode_shaped {rev : Fetch2DecodePack} (h : rev.FetchOk) : (decode rev).Shaped := by
  have hd := decodeSwitch_decodes rev.value (p := decodeStart rev) rfl rfl
  have hpack : (decode rev).branchPredictorInfoPack = rev.branchPredictorInfoPack := by
    unfold decode
    dsimp only [DecodeRenamePack.setNeedMap]
    split <;> exact hd.pack
  refine ⟨rfl, hpack ▸ h.noCheckpoint, fun hp => (h.predicted (hpack ▸ hp)).2, fun hu => ?_,
    fun ho hv => ?_, fun ho => ?_, fun hu => ?_⟩
  · unfold decode at hu ⊢
    dsimp only [DecodeRenamePack.setNeedMap] at hu ⊢
    split at hu
    · rename_i hv
      rw [if_pos hv, hd.store hu]
      rfl
    · cases hu
  · unfold decode at ho hv ⊢
    dsimp only [DecodeRenamePack.setNeedMap] at ho hv ⊢
    split at ho
    · rename_i hv'
      rw [if_pos hv']
      exact hd.mret ho
    · rename_i hv'
      rw [if_neg hv'] at hv
      exact absurd hv hv'
  · unfold decode at ho ⊢
    dsimp only [DecodeRenamePack.setNeedMap] at ho ⊢
    split at ho
    · rename_i hv
      rw [if_pos hv]
      exact hd.fence ho
    · rename_i hv
      rw [if_neg hv]
  · unfold decode at hu ⊢
    dsimp only [DecodeRenamePack.setNeedMap] at hu ⊢
    split at hu
    · rename_i hv
      rw [if_pos hv]
      have hstart : (!rev.hasException) = true := hd.valid hv
      exact ⟨hv, by simpa using hstart⟩
    · cases hu

/-- The registers an instruction looks up or renames are those of the map. -/
structure DecodeRenamePack.RegsOk (p : DecodeRenamePack) : Prop where
  rs1 : p.rs1NeedMap = true → IsReg p.rs1
  rs2 : p.rs2NeedMap = true → IsReg p.rs2
  rd : p.needRename = true → IsReg p.rd

theorem DecodeRenamePack.Fields.regsOk {p : DecodeRenamePack} (h : p.Fields) :
    p.setNeedMap.RegsOk := by
  refine ⟨fun hn => ?_, fun hn => ?_, fun hn => ?_⟩
  · simp only [setNeedMap, Bool.and_eq_true, decide_eq_true_eq] at hn
    exact ⟨hn.2, h.rs1⟩
  · simp only [setNeedMap, Bool.and_eq_true, decide_eq_true_eq] at hn
    exact ⟨hn.2, h.rs2⟩
  · simp only [setNeedMap, Bool.and_eq_true, decide_eq_true_eq] at hn
    exact ⟨hn.2, h.rd⟩

theorem decode_regsOk (rev : Fetch2DecodePack) : (decode rev).RegsOk := by
  have hzero : 0 < archRegNum := by decide
  have hf := decodeSwitch_fields rev.value (p := decodeStart rev) ⟨hzero, hzero, hzero⟩
  have hu : ∀ p : DecodeRenamePack, p.Fields →
      (if p.valid then p else { p with opUnit := .alu }).Fields := by
    intro p hp
    split
    · exact hp
    · exact ⟨hp.rs1, hp.rs2, hp.rd⟩
  have hr := (hu _ hf).regsOk
  exact ⟨hr.rs1, hr.rs2, hr.rd⟩

/-- The window `g` at hand, and the one the cycle began with. -/
structure Behind (cur s : Core) (g₀ g : Ghost) : Prop where
  rob : g₀.base.rob ≤ g.base.rob ∧ g.tip.rob ≤ g₀.base.rob + robSize
  ck : g₀.ckHead ≤ g.ckHead ∧ g.tip.ck ≤ g₀.ckHead + checkpointBufferSize
  lq : g₀.base.lq ≤ g.base.lq ∧ g.tip.lq ≤ g₀.base.lq + loadQueueSize
  sb : g₀.base.sb ≤ g.base.sb ∧ g.tip.sb ≤ g₀.base.sb + storeBufferSize
  free : g₀.freed ≤ g.freed ∧ g.tip.free ≤ g₀.freed
  frame : ∀ j, g.tip.free ≤ j → j < g₀.freed →
    s.phyIdFreeList.ring.buffer (j % phyRegNum) = cur.phyIdFreeList.ring.buffer (j % phyRegNum)

variable {cur s m q s' : Core} {g₀ g : Ghost} {rev : DecodeRenamePack}

/-! ## The destination register -/

/-- **What renaming the destination does.** -/
structure Renamed (s m : Core) (g : Ghost) (rev : DecodeRenamePack) (oldPhyRegId rdPhy : Nat) :
    Prop where
  same : m = { s with phyIdFreeList := m.phyIdFreeList, speculativeRat := m.speculativeRat }
  buffer : m.phyIdFreeList.ring.buffer = s.phyIdFreeList.ring.buffer
  window : Fifo.Window m.phyIdFreeList.ring
    (g.tip.free + (rev.valid && rev.needRename).toNat) g.freed
  table : Represents m.speculativeRat
    (if rev.valid && rev.needRename then Function.update g.tip.map rev.rd rdPhy else g.tip.map)
  arch : m.speculativeRat.phyMapTable
    = if rev.valid && rev.needRename then
        Function.update s.speculativeRat.phyMapTable rdPhy rev.rd
      else s.speculativeRat.phyMapTable
  dest : (rev.valid && rev.needRename) = true → IsReg rev.rd ∧ oldPhyRegId = g.tip.map rev.rd
    ∧ s.phyIdFreeList.ring.buffer (g.tip.free % phyRegNum) = rdPhy ∧ g.tip.free < g₀.freed

theorem renameDest_eq_some {oldPhyRegId rdPhy : Nat} (hcur : Inv cur g₀) (h : Inv s g)
    (hb : Behind cur s g₀ g) (hd : renameDest cur s rev = some (oldPhyRegId, rdPhy, m)) :
    @Renamed g₀ s m g rev oldPhyRegId rdPhy := by
  unfold renameDest at hd
  cases hal : rev.valid && rev.needRename with
  | false =>
    simp only [hal, Bool.false_eq_true, if_false, Option.some.injEq, Prod.mk.injEq] at hd
    obtain ⟨rfl, rfl, rfl⟩ := hd
    exact ⟨rfl, rfl, by simpa [hal] using h.free, by simpa [hal] using h.spec, by simp [hal],
      fun hc => by rw [hal] at hc; cases hc⟩
  | true =>
    simp only [hal, if_true, renameRd, Option.bind_eq_bind, Option.bind_eq_some_iff] at hd
    obtain ⟨found, hfound, old, rfl, ⟨popped, fl⟩, hpop, x, rfl, rat, hrat, hd⟩ := hd
    simp only [pure, Option.some.injEq, Prod.mk.injEq] at hd
    obtain ⟨rfl, rfl, rfl⟩ := hd
    obtain ⟨hreg, hold⟩ := h.spec.lookup hfound
    obtain ⟨-, -, htab⟩ := h.spec.setMap hrat
    obtain ⟨-, -, -, -, hmap, -⟩ := RatTable.setMap_eq_some hrat
    obtain ⟨hring, -⟩ := FreeList.pop_eq_some hpop
    obtain ⟨hlt, hwin, hbuf, hx⟩ := h.free.pop (by decide) hcur.free.wptr hb.free.2 hb.free.1 hring
    refine ⟨rfl, hbuf, by simpa [hal] using hwin, by simpa [hal] using htab, by simpa [hal] using hmap,
      fun _ => ⟨hreg, hold.symm, ?_, hlt⟩⟩
    rw [hb.frame _ (Nat.le_refl _) hlt]
    exact hx.symm

/-! ## The queue and the ROB -/

/-- **What the allocation of the queue and ROB entries does.** -/
structure Pushed (m q : Core) (g₀ g : Ghost) (rev : DecodeRenamePack) (item : RobItem) : Prop where
  same : q = { m with rob := q.rob, loadQueue := q.loadQueue, storeBuffer := q.storeBuffer }
  rob : Fifo.Window q.rob g.base.rob (g.tip.rob + 1)
  robBuffer : q.rob.buffer = Function.update m.rob.buffer (g.tip.rob % robSize) item
  lq : Fifo.Window q.loadQueue.ring g.base.lq (g.tip.lq + rev.takesLoadQueue.toNat)
  sb : Fifo.Window q.storeBuffer.ring g.base.sb (g.tip.sb + rev.takesStoreBuffer.toNat)
  lqPlain : ∀ id, (q.loadQueue.ring.buffer id).checkpointIdValid = false
  robRoom : g.tip.rob < g₀.base.rob + robSize
  lqRoom : g.tip.lq + rev.takesLoadQueue.toNat ≤ g₀.base.lq + loadQueueSize
  sbRoom : g.tip.sb + rev.takesStoreBuffer.toNat ≤ g₀.base.sb + storeBufferSize

/-- The queue entry, when the instruction takes one. -/
theorem renameQueue_eq_some {robId : Ptr} (hcur : Inv cur g₀) (hb : Behind cur s g₀ g)
    (hlq : Fifo.Window m.loadQueue.ring g.base.lq g.tip.lq)
    (hsb : Fifo.Window m.storeBuffer.ring g.base.sb g.tip.sb)
    (hplain : ∀ id, (m.loadQueue.ring.buffer id).checkpointIdValid = false)
    (h : renameQueue cur m rev robId = some q) :
    q = { m with loadQueue := q.loadQueue, storeBuffer := q.storeBuffer }
      ∧ Fifo.Window q.loadQueue.ring g.base.lq (g.tip.lq + rev.takesLoadQueue.toNat)
      ∧ Fifo.Window q.storeBuffer.ring g.base.sb (g.tip.sb + rev.takesStoreBuffer.toNat)
      ∧ (∀ id, (q.loadQueue.ring.buffer id).checkpointIdValid = false)
      ∧ g.tip.lq + rev.takesLoadQueue.toNat ≤ g₀.base.lq + loadQueueSize
      ∧ g.tip.sb + rev.takesStoreBuffer.toNat ≤ g₀.base.sb + storeBufferSize := by
  have hskip : rev.takesLoadQueue = false → rev.takesStoreBuffer = false → q = m →
      q = { m with loadQueue := q.loadQueue, storeBuffer := q.storeBuffer }
      ∧ Fifo.Window q.loadQueue.ring g.base.lq (g.tip.lq + rev.takesLoadQueue.toNat)
      ∧ Fifo.Window q.storeBuffer.ring g.base.sb (g.tip.sb + rev.takesStoreBuffer.toNat)
      ∧ (∀ id, (q.loadQueue.ring.buffer id).checkpointIdValid = false)
      ∧ g.tip.lq + rev.takesLoadQueue.toNat ≤ g₀.base.lq + loadQueueSize
      ∧ g.tip.sb + rev.takesStoreBuffer.toNat ≤ g₀.base.sb + storeBufferSize := by
    rintro h₁ h₂ rfl
    rw [h₁, h₂]
    exact ⟨rfl, hlq, hsb, hplain, hb.lq.2, hb.sb.2⟩
  unfold renameQueue at h
  split at h
  · rename_i hv
    split at h
    · rename_i hu
      simp only [Option.bind_eq_bind, Option.bind_eq_some_iff] at h
      obtain ⟨ring, hring, h⟩ := h
      obtain ⟨hroom, hwin, hbuf⟩ := hlq.push (by decide) hcur.lq.rptr hb.lq.1 hb.lq.2 hring
      cases h
      have ht : rev.takesLoadQueue = true ∧ rev.takesStoreBuffer = false := by
        simp [DecodeRenamePack.takesLoadQueue, DecodeRenamePack.takesStoreBuffer, hv, hu]
      rw [ht.1, ht.2]
      refine ⟨rfl, hwin, hsb, fun id => ?_, hroom, hb.sb.2⟩
      dsimp only [LoadQueue.clearReplayNum]
      rw [hbuf]
      by_cases hid : id = g.tip.lq % loadQueueSize
      · rw [hid, Function.update_self]
      · rw [Function.update_of_ne hid]
        exact hplain id
    · split at h
      · rename_i hu
        simp only [Option.bind_eq_bind, Option.bind_eq_some_iff] at h
        obtain ⟨ring, hring, tailId, -, h⟩ := h
        obtain ⟨hroom, hwin, -⟩ := hsb.push (by decide) hcur.sb.rptr hb.sb.1 hb.sb.2 hring
        cases h
        have ht : rev.takesLoadQueue = false ∧ rev.takesStoreBuffer = true := by
          simp [DecodeRenamePack.takesLoadQueue, DecodeRenamePack.takesStoreBuffer, hv, hu]
        rw [ht.1, ht.2]
        exact ⟨rfl, hlq, hwin, hplain, hb.lq.2, hroom⟩
      · rename_i hlu hsdu
        refine hskip ?_ ?_ (Option.some.inj h).symm
        · simp [DecodeRenamePack.takesLoadQueue, hlu]
        · simp [DecodeRenamePack.takesStoreBuffer, hsdu]
  · rename_i hv
    refine hskip ?_ ?_ (Option.some.inj h).symm
    · simp only [DecodeRenamePack.takesLoadQueue]
      rw [Bool.eq_false_iff.mpr hv, Bool.false_and]
    · simp only [DecodeRenamePack.takesStoreBuffer]
      rw [Bool.eq_false_iff.mpr hv, Bool.false_and]

theorem renamePush_eq_some {oldPhyRegId rdPhy : Nat} (hcur : Inv cur g₀) (h : Inv s g)
    (hb : Behind cur s g₀ g) (hr : @Renamed g₀ s m g rev oldPhyRegId rdPhy)
    (hp : renamePush cur s m rev oldPhyRegId rdPhy = some q) :
    Pushed m q g₀ g rev (renameRobItem s m rev oldPhyRegId rdPhy) := by
  simp only [renamePush, Option.bind_eq_bind, Option.bind_eq_some_iff] at hp
  obtain ⟨_, -, queued, hqueue, rob, hrob, hp⟩ := hp
  cases hp
  have hm := hr.same
  have hlq : Fifo.Window m.loadQueue.ring g.base.lq g.tip.lq := by rw [hm]; exact h.lq
  have hsb : Fifo.Window m.storeBuffer.ring g.base.sb g.tip.sb := by rw [hm]; exact h.sb
  have hpl : ∀ id, (m.loadQueue.ring.buffer id).checkpointIdValid = false := by
    rw [hm]; exact h.lqPlain
  obtain ⟨hq, hlq', hsb', hpl', hl, hs⟩ := renameQueue_eq_some hcur hb hlq hsb hpl hqueue
  have hwin : Fifo.Window queued.rob g.base.rob g.tip.rob := by rw [hq, hm]; exact h.rob
  obtain ⟨hroom, hwin', hbuf⟩ := hwin.push (by decide) hcur.rob.rptr hb.rob.1 hb.rob.2 hrob
  refine ⟨?_, hwin', ?_, hlq', hsb', hpl', hroom, hl, hs⟩
  · dsimp only
    rw [hq]
  · rw [hbuf, hq]

/-! ## The checkpoint -/

/-- **What the last part of a turn does.** -/
structure Marked (cur s q s' : Core) (g₀ g : Ghost) (info info' : OpInfo) : Prop where
  same : s' = { q with checkpointBuffer := s'.checkpointBuffer }
  kind : info' = { info with branchPredictorInfoPack := info'.branchPredictorInfoPack }
  predicted : info'.branchPredictorInfoPack.predicted = info.branchPredictorInfoPack.predicted
  window : Fifo.Window s'.checkpointBuffer g.ckHead (g.tip.ck + info'.hasCheckpoint.toNat)
  room : g.tip.ck + info'.hasCheckpoint.toNat ≤ g₀.ckHead + checkpointBufferSize
  kept : ∀ j, g.ckHead ≤ j → j < g.tip.ck →
    s'.checkpointBuffer.buffer (j % checkpointBufferSize)
      = q.checkpointBuffer.buffer (j % checkpointBufferSize)
  mark : info'.hasCheckpoint = true → info.wantsCheckpoint = true
    ∧ info'.branchPredictorInfoPack.checkpointId = g.tip.ck % checkpointBufferSize
    ∧ s'.checkpointBuffer.buffer (g.tip.ck % checkpointBufferSize) = renameCheckpoint cur s q

theorem renameMark_eq_some {info info' : OpInfo} (hcur : Inv cur g₀) (hb : Behind cur s g₀ g)
    (hck : Fifo.Window q.checkpointBuffer g.ckHead g.tip.ck) (hno : info.hasCheckpoint = false)
    (h : renameMark cur s q info = some (info', s')) : Marked cur s q s' g₀ g info info' := by
  unfold renameMark at h
  split at h
  · rename_i hw
    simp only [Option.bind_eq_bind, Option.bind_eq_some_iff] at h
    obtain ⟨cb, hcb, id, hid, h⟩ := h
    obtain ⟨hroom, hwin, hbuf⟩ := hck.push (by decide) hcur.ck.rptr hb.ck.1 hb.ck.2 hcb
    have hid' := hwin.producerGetTailId (by decide) hid
    cases h
    subst hid'
    rw [Bool.and_eq_true] at hw
    refine ⟨rfl, rfl, rfl, hwin, hroom, fun j hj hj' => ?_, fun _ => ⟨hw.1, rfl, ?_⟩⟩
    · dsimp only
      have := hb.ck.1
      rw [hbuf, Function.update_of_ne (mod_ne_of_window hj' (by omega))]
    · dsimp only
      rw [hbuf, Function.update_self]
  · cases h
    refine ⟨rfl, rfl, rfl, by rw [hno]; exact hck, by rw [hno]; exact hb.ck.2,
      fun _ _ _ => rfl, fun hc => ?_⟩
    rw [hno] at hc
    cases hc

/-! ## One turn -/

/-- The window after one more instruction has been renamed. -/
def Ghost.push (g : Ghost) (f : Flight) : Ghost := { g with flight := g.flight ++ [f] }

theorem Ghost.push_tip (g : Ghost) (f : Flight) : (g.push f).tip = advance f g.tip :=
  Window.tip_snoc ..

/-- **A register popped now stands for nothing the window can go back to.** -/
theorem Inv.fresh (h : Inv s g) (hlt : g.tip.free < g.freed) {l₁ l₂ : List Flight}
    (hl : g.flight = l₁ ++ l₂) {a : Nat} (ha : IsReg a) :
    (tip g.base l₁).map a ≠ s.phyIdFreeList.ring.buffer (g.tip.free % phyRegNum) := by
  intro he
  have hmem := tip_map_mem (h.prefixEntries hl) ha
  have hle₁ := free_le_tip g.base l₁
  have hle₂ : (tip g.base l₁).free ≤ g.tip.free := by
    rw [Ghost.tip, hl]
    exact Window.tip_le_tip advance_free_le _ l₁ l₂
  have hnd := h.nodup
  rw [← slots_append _ (Nat.le_trans hle₁ hle₂) (Nat.le_of_lt hlt), List.append_assoc,
    slots_succ_left _ hlt, List.cons_append] at hnd
  have hout := (List.nodup_append.mp hnd)
  rw [he] at hmem
  rcases List.mem_append.mp hmem with hm | hm
  · rw [mem_slots] at hm
    obtain ⟨j, hj, hj', hx⟩ := hm
    have hin : s.phyIdFreeList.ring.buffer (g.tip.free % phyRegNum)
        ∈ slots phyRegNum s.phyIdFreeList.ring.buffer g.base.free g.tip.free :=
      mem_slots.mpr ⟨j, hj, by omega, hx⟩
    exact hout.2.2 _ hin _ (List.mem_cons_self ..) rfl
  · have := (List.nodup_cons.mp hout.2.1).1
    exact this (List.mem_append_right _ hm)

/-- The instruction rename sends out, and what it says about the allocations. -/
structure SentOut (info : OpInfo) (s : Core) (rev : DecodeRenamePack) (rdPhy : Nat) : Prop where
  allocates : info.allocates = (rev.valid && rev.needRename)
  rd : info.rd = rev.rd
  rdPhy : info.rdPhy = rdPhy
  robId : info.robId = s.rob.wptr
  takesLoadQueue : info.takesLoadQueue = rev.takesLoadQueue
  takesStoreBuffer : info.takesStoreBuffer = rev.takesStoreBuffer
  opUnit : info.opUnit = rev.opUnit
  predicted : info.branchPredictorInfoPack.predicted = rev.branchPredictorInfoPack.predicted

theorem Marked.sentOut {info : OpInfo} {rs1Phy rs2Phy rdPhy : Nat}
    (hm : Marked cur s q s' g₀ g (renameInfo s rev rs1Phy rs2Phy rdPhy) info) :
    SentOut info s rev rdPhy := by
  have hk := hm.kind
  have hp := hm.predicted
  rw [hk]
  exact ⟨rfl, rfl, rfl, rfl, rfl, rfl, rfl, hp⟩

/-- **What the decoder guarantees survives rename.** -/
theorem Marked.shaped {info : OpInfo} {rs1Phy rs2Phy rdPhy : Nat} (hrev : rev.Shaped)
    (hm : Marked cur s q s' g₀ g (renameInfo s rev rs1Phy rs2Phy rdPhy) info) : info.Shaped := by
  have hs := hm.sentOut
  refine ⟨fun hc => ?_, fun hst => ?_⟩
  · have hw : rev.wantsCheckpoint = true := (hm.mark hc).1
    simp only [DecodeRenamePack.wantsCheckpoint, Bool.and_eq_true, Bool.or_eq_true, beq_iff_eq] at hw
    rw [hs.opUnit, hs.predicted]
    rcases hw.2 with hp | hl
    · exact .inl ⟨hrev.predicted hp, hp⟩
    · exact .inr hl
  · rw [hs.takesStoreBuffer] at hst
    simp only [DecodeRenamePack.takesStoreBuffer, Bool.and_eq_true, beq_iff_eq] at hst
    rw [hs.allocates, hrev.store hst.2, Bool.and_false]

/-- **The parts of one turn**, put side by side. -/
theorem renameOp_parts {info : OpInfo} (hcur : Inv cur g₀) (h : Inv s g) (hb : Behind cur s g₀ g)
    (hrev : rev.Shaped) (ho : renameOp cur s rev = some (info, s')) :
    ∃ m q oldPhyRegId rdPhy rs1Phy rs2Phy,
      @Renamed g₀ s m g rev oldPhyRegId rdPhy
        ∧ Pushed m q g₀ g rev (renameRobItem s m rev oldPhyRegId rdPhy)
        ∧ Marked cur s q s' g₀ g (renameInfo s rev rs1Phy rs2Phy rdPhy) info := by
  unfold renameOp at ho
  rw [hrev.enable] at ho
  simp only [Bool.not_true, Bool.false_eq_true, if_false, Option.bind_eq_bind,
    Option.bind_eq_some_iff] at ho
  obtain ⟨rs1Phy, -, rs2Phy, -, ⟨oldPhyRegId, rdPhy, m⟩, hd, q, hp, hm⟩ := ho
  have hr := renameDest_eq_some hcur h hb hd
  have hpush := renamePush_eq_some hcur h hb hr hp
  refine ⟨m, q, oldPhyRegId, rdPhy, rs1Phy, rs2Phy, hr, hpush, renameMark_eq_some hcur hb ?_ ?_ hm⟩
  · rw [hpush.same, hr.same]
    exact h.ck
  · exact hrev.noCheckpoint

/-- **The entry of the instruction just renamed.** -/
theorem freshEntry {m q : Core} {oldPhyRegId rdPhy rs1Phy rs2Phy : Nat} {info : OpInfo}
    (h : Inv s g) (hrev : rev.Shaped)
    (hr : @Renamed g₀ s m g rev oldPhyRegId rdPhy)
    (hp : Pushed m q g₀ g rev (renameRobItem s m rev oldPhyRegId rdPhy))
    (hm : Marked cur s q s' g₀ g (renameInfo s rev rs1Phy rs2Phy rdPhy) info) :
    EntryOk s' g.freed g.released g.tip ⟨info, s', g.released.length⟩ := by
  have hs := hm.sentOut
  have hfree : s'.phyIdFreeList = m.phyIdFreeList := by rw [hm.same, hp.same]
  have hspec : s'.speculativeRat = m.speculativeRat := by rw [hm.same, hp.same]
  have hqspec : q.speculativeRat = m.speculativeRat := by rw [hp.same]
  have hqfree : q.phyIdFreeList = m.phyIdFreeList := by rw [hp.same]
  have hrob : s'.rob = q.rob := by rw [hm.same]
  have hlq : s'.loadQueue = q.loadQueue := by rw [hm.same]
  have hsb : s'.storeBuffer = q.storeBuffer := by rw [hm.same]
  have hmlq : m.loadQueue = s.loadQueue := by rw [hr.same]
  have hmsb : m.storeBuffer = s.storeBuffer := by rw [hr.same]
  have hmap : (advance ⟨info, s', g.released.length⟩ g.tip).map
      = if rev.valid && rev.needRename then Function.update g.tip.map rev.rd rdPhy
        else g.tip.map := by
    simp only [advance, hs.allocates, hs.rd, hs.rdPhy]
  have hafree : (advance ⟨info, s', g.released.length⟩ g.tip).free
      = g.tip.free + (rev.valid && rev.needRename).toNat := by
    simp only [advance, hs.allocates]
  refine ⟨hm.shaped hrev, ?_, ?_, fun hal => ?_, fun hc => (hm.mark hc).2.1, fun hc => ?_, ?_⟩
  · rw [hs.robId]
    exact h.rob.wptr
  · rw [hrob, hp.robBuffer, Function.update_self]
    exact {
      newPhyRegId := hs.rdPhy.symm
      allocates := hs.allocates.symm
      oldPhyRegId := fun hal => by
        rw [hs.allocates] at hal
        exact ⟨by rw [hs.rd]; exact (hr.dest hal).2.1, hs.rd.symm⟩
      oldFree := h.free.rptr
      newFree := by rw [hafree]; exact hr.window.rptr
      loadQueue := hs.takesLoadQueue.symm
      storeBuffer := hs.takesStoreBuffer.symm
      bruOp := by rw [hs.opUnit]; rfl
      pack := fun hf => by cases hf }
  · rw [hs.allocates] at hal
    obtain ⟨hreg, -, hphy, -⟩ := hr.dest hal
    rw [hs.rd, hs.rdPhy, hfree, hr.buffer]
    exact ⟨hreg, hphy⟩
  · rw [(hm.mark hc).2.2]
    refine ⟨fun p hp' => ?_, ?_, ?_, ?_, ?_⟩
    · rw [hmap]
      simp only [renameCheckpoint, hqspec]
      exact hr.table.valid p hp'
    · rw [hafree]
      simp only [renameCheckpoint, hqfree]
      exact hr.window.rptr
    · have hq : q.checkpointBuffer.wptr = Ptr.fold checkpointBufferSize g.tip.ck := by
        rw [hp.same, hr.same]
        exact h.ck.wptr
      have hck : info.hasCheckpoint = true := hc
      simp only [renameCheckpoint, hq, advance, hck]
      exact Fifo.staticGetNextIdStage_fold (by decide) _
    · simp only [renameCheckpoint]
      exact h.lq.wptr
    · simp only [renameCheckpoint]
      exact h.sb.wptr
  · refine ⟨?_, Nat.le_refl _, ?_, ?_, ?_, ?_, ?_, fun _ => rfl⟩
    · rw [hmap, hspec]
      exact hr.table
    · rw [hafree, hfree, FreeList.contents, hr.window.contents_eq (by decide), List.drop_length,
        List.append_nil]
    · rw [hrob]
      exact hp.rob.wptr
    · exact hm.window.wptr
    · rw [hlq]
      simp only [advance, hs.takesLoadQueue]
      exact hp.lq.wptr
    · rw [hsb]
      simp only [advance, hs.takesStoreBuffer]
      exact hp.sb.wptr

/-- **One turn keeps the invariant**, with the instruction at the young end of the window. -/
theorem Inv.afterRename {info : OpInfo} (hcur : Inv cur g₀) (h : Inv s g)
    (hb : Behind cur s g₀ g) (hrev : rev.Shaped) (ho : renameOp cur s rev = some (info, s')) :
    Inv s' (g.push ⟨info, s', g.released.length⟩)
      ∧ Behind cur s' g₀ (g.push ⟨info, s', g.released.length⟩) := by
  obtain ⟨m, q, oldPhyRegId, rdPhy, rs1Phy, rs2Phy, hr, hp, hm⟩ := renameOp_parts hcur h hb hrev ho
  have hfresh := freshEntry h hrev hr hp hm
  have hs := hm.sentOut
  have hfree : s'.phyIdFreeList = m.phyIdFreeList := by rw [hm.same, hp.same]
  have hspec : s'.speculativeRat = m.speculativeRat := by rw [hm.same, hp.same]
  have hret : s'.retireRat = s.retireRat := by rw [hm.same, hp.same, hr.same]
  have hrob : s'.rob = q.rob := by rw [hm.same]
  have hlq : s'.loadQueue = q.loadQueue := by rw [hm.same]
  have hsb : s'.storeBuffer = q.storeBuffer := by rw [hm.same]
  have hmrob : m.rob = s.rob := by rw [hr.same]
  have hqck : q.checkpointBuffer = s.checkpointBuffer := by rw [hp.same, hr.same]
  have hbuf : s'.phyIdFreeList.ring.buffer = s.phyIdFreeList.ring.buffer := by
    rw [hfree, hr.buffer]
  generalize hfl : (⟨info, s', g.released.length⟩ : Flight) = f at hfresh ⊢
  have hinfo : f.info = info := by rw [← hfl]
  have hal : f.info.allocates = (rev.valid && rev.needRename) := by rw [hinfo, hs.allocates]
  have htip := g.push_tip f
  have hafree : (advance f g.tip).free = g.tip.free + (rev.valid && rev.needRename).toNat := by
    simp only [advance, hal]
  have hmap : (advance f g.tip).map
      = if rev.valid && rev.needRename then Function.update g.tip.map rev.rd rdPhy
        else g.tip.map := by
    simp only [advance, hinfo, hs.allocates, hs.rd, hs.rdPhy]
  have hlqt : (advance f g.tip).lq = g.tip.lq + rev.takesLoadQueue.toNat := by
    simp only [advance, hinfo, hs.takesLoadQueue]
  have hsbt : (advance f g.tip).sb = g.tip.sb + rev.takesStoreBuffer.toNat := by
    simp only [advance, hinfo, hs.takesStoreBuffer]
  have hckt : (advance f g.tip).ck = g.tip.ck + info.hasCheckpoint.toNat := by
    simp only [advance, hinfo]
  -- every earlier entry keeps its cells: a ring never wraps onto its own window
  have hold : Window.EachAt advance (EntryOk s' g.freed g.released) g.base g.flight := by
    refine h.entries.imp fun l₁ i l₂ hl he => he.congr ?_ hbuf fun hc => ?_
    · have hpos : (Window.tip advance g.base l₁).rob = g.base.rob + l₁.length := tip_rob ..
      have hend := tip_rob g.base g.flight
      have hlen : l₁.length < g.flight.length := by rw [hl]; simp
      have h₁ := hb.rob.1
      have h₂ := hp.robRoom
      rw [hrob, hp.robBuffer, hmrob, Function.update_of_ne]
      refine mod_ne_of_window ?_ ?_
      · simp only [Ghost.tip]
        omega
      · simp only [Ghost.tip] at h₂ ⊢
        omega
    · rw [hm.kept, hqck]
      · exact Nat.le_trans h.ckHead (ck_le_tip g.base l₁)
      · have hle := g.advance_le_tip (c := Shadow.ck) (fun _ _ => Nat.le_add_right _ _) hl
        simp only [advance, hc, Bool.toNat_true] at hle
        omega
  constructor
  · refine ⟨?_, ?_, hbuf ▸ h.nodup, hbuf ▸ h.bound, hret ▸ h.retire, ?_, ?_, ?_, h.ckHead, ?_, ?_,
      ?_, Window.eachAt_snoc.mpr ⟨hold, hfresh⟩⟩
    · rw [htip, hrob]
      exact hp.rob
    · rw [htip, hfree, hafree]
      exact hr.window
    · rw [htip, hspec, hmap]
      exact hr.table
    · intro l₁ l₂ hl a ha
      have htab : s'.speculativeRat.phyMapTable = m.speculativeRat.phyMapTable := by rw [hspec]
      rcases List.eq_nil_or_concat l₂ with rfl | ⟨l₃, i, rfl⟩
      · -- the whole window: the new map itself
        rw [List.append_nil] at hl
        have hwhole : tip (g.push f).base l₁ = advance f g.tip := by rw [← hl, ← htip]; rfl
        rw [hwhole, htab, hmap]
        exact ⟨hr.table.arch a ha, hr.table.lt a ha⟩
      · -- an older map: the new register is not one of its homes
        have hl' : g.flight = l₁ ++ l₃ := by
          simp only [Ghost.push, List.concat_eq_append, ← List.append_assoc] at hl
          exact (List.append_inj' hl rfl).1
        have hrew := h.rewind l₁ l₃ hl' a ha
        refine ⟨?_, hrew.2⟩
        rw [htab, hr.arch]
        cases hv : rev.valid && rev.needRename with
        | false =>
          rw [if_neg Bool.false_ne_true]
          exact hrew.1
        | true =>
          obtain ⟨-, -, hphy, hlt⟩ := hr.dest hv
          have hlt' : g.tip.free < g.freed := Nat.lt_of_lt_of_le hlt hb.free.1
          rw [if_pos rfl, Function.update_of_ne]
          · exact hrew.1
          · rw [← hphy]
            exact h.fresh hlt' hl' ha
    · rw [htip, hckt]
      exact hm.window
    · rw [htip, hlq, hlqt]
      exact hp.lq
    · rw [htip, hsb, hsbt]
      exact hp.sb
    · intro id
      rw [hlq]
      exact hp.lqPlain id
  · have hroom := hm.room
    have hle : (advance f g.tip).free ≤ g₀.freed := by
      rw [hafree]
      cases hv : rev.valid && rev.needRename with
      | false => exact hb.free.2
      | true => exact (hr.dest hv).2.2.2
    refine ⟨⟨hb.rob.1, ?_⟩, ⟨hb.ck.1, ?_⟩, ⟨hb.lq.1, ?_⟩, ⟨hb.sb.1, ?_⟩, ⟨hb.free.1, ?_⟩, ?_⟩
    · rw [htip]
      exact hp.robRoom
    · rw [htip, hckt]
      exact hroom
    · rw [htip, hlqt]
      exact hp.lqRoom
    · rw [htip, hsbt]
      exact hp.sbRoom
    · rw [htip]
      exact hle
    · intro j hj hj'
      rw [htip] at hj
      rw [hbuf]
      exact hb.frame j (Nat.le_trans (advance_free_le f g.tip) hj) hj'

/-! ## The loop -/

/-- The instructions one run of rename adds to the window. -/
def flights (released : Nat) (turns : List (OpInfo × Core)) : List Flight :=
  turns.map fun t => ⟨t.1, t.2, released⟩

/-- **The loop keeps the invariant**, turn by turn. -/
theorem Inv.afterLoop (hcur : Inv cur g₀) {n i : Nat} {foundFence : Bool}
    {fifo : List DecodeRenamePack} {turns : List (OpInfo × Core)} (h : Inv s g)
    (hb : Behind cur s g₀ g) (hfifo : ∀ p ∈ fifo, p.Shaped)
    (hl : renameLoop cur n i foundFence s fifo = some turns) :
    Inv ((turns.getLast?.map Prod.snd).getD s)
      { g with flight := g.flight ++ flights g.released.length turns } := by
  have hnil : Inv ((([] : List (OpInfo × Core)).getLast?.map Prod.snd).getD s)
      { g with flight := g.flight ++ flights g.released.length [] } := by
    simpa [flights] using h
  induction n generalizing i foundFence s g fifo turns with
  | zero => cases hl; exact hnil
  | succ n ih =>
    cases fifo with
    | nil => cases hl; exact hnil
    | cons rev fifo =>
      unfold renameLoop at hl
      split at hl
      · cases hl; exact hnil
      · split at hl
        · cases hl; exact hnil
        · rename_i last fence _
          obtain ⟨⟨info, s₁⟩, ho, hl⟩ := Option.bind_eq_some_iff.mp hl
          obtain ⟨h₁, hb₁⟩ := hcur.afterRename h hb (hfifo rev (List.mem_cons_self ..)) ho
          have hone : Inv s₁ { g with
              flight := g.flight ++ flights g.released.length [(info, s₁)] } := h₁
          cases last with
          | true => cases hl; exact hone
          | false =>
            simp only [Bool.false_eq_true, if_false] at hl
            obtain ⟨rest, hrest, hl⟩ := Option.bind_eq_some_iff.mp hl
            cases hl
            have := ih h₁ hb₁ (fun p hp => hfifo p (List.mem_cons_of_mem _ hp)) hrest
              (by simpa [flights] using h₁)
            have hlast : ((((info, s₁) :: rest).getLast?.map Prod.snd).getD s)
                = (rest.getLast?.map Prod.snd).getD s₁ := by
              cases rest with
              | nil => rfl
              | cons t rest =>
                rw [List.getLast?_cons_cons]
                cases hx : (t :: rest).getLast? with
                | none => simp at hx
                | some x => rfl
            rw [hlast]
            simpa [Ghost.push, flights, List.append_assoc] using this

/-- **Rename keeps the invariant.** -/
theorem renameRun_effect {stall flush waiting : Bool} {fifo : List DecodeRenamePack}
    {r : RenameResult} (hcur : Inv cur g₀) (h : Inv s g) (hfifo : ∀ p ∈ fifo, p.Shaped)
    (hb : flush = false → Behind cur s g₀ g)
    (hr : renameRun cur s stall flush waiting fifo = some r) :
    Inv r.new { g with flight := g.flight ++ flights g.released.length r.turns }
      ∧ (flush = true → r.turns = [] ∧ r.new = s) := by
  have hidle : ∀ port, Inv (RenameResult.mk [] s port).new
      { g with flight := g.flight ++ flights g.released.length (RenameResult.mk [] s port).turns } :=
    fun _ => by simpa [flights] using h
  unfold renameRun at hr
  split at hr
  · cases hr; exact ⟨hidle _, fun _ => ⟨rfl, rfl⟩⟩
  · rename_i hfl
    have hnf : flush = false := by simpa using hfl
    refine ⟨?_, fun hc => absurd hc hfl⟩
    split at hr
    · cases hr; exact hidle _
    · split at hr
      · cases hr; exact hidle _
      · obtain ⟨turns, ht, hr⟩ := Option.bind_eq_some_iff.mp hr
        cases hr
        exact hcur.afterLoop h (hb hnf) hfifo ht

end DreamCore
