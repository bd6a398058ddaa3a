import DreamCore.Backend.Invariant
import DreamCore.Backend.World

/-!
# Commit moves the old end of the window

Commit only ever does three things to the window: it leaves it alone, it retires
the oldest entry, or it drops everything behind the retired end. The lemmas of
this file first say so for the code, one function at a time, and then say what
each of the three does to the invariant.
-/

namespace DreamCore

open Ring

/-! ## What the code does -/

/-- **What a flush of commit does.** -/
structure Core.Flushes (s s' : Core) (rptr : Ptr) : Prop where
  rob : s'.rob = s.rob.flush
  retireRat : s'.retireRat = s.retireRat
  speculativeRat : s'.speculativeRat = s.retireRat
  free : s'.phyIdFreeList.ring = { s.phyIdFreeList.ring with rptr := rptr }
  ck : s'.checkpointBuffer = s.checkpointBuffer.flush
  lq : s'.loadQueue.ring = s.loadQueue.ring.flush
  sb : s'.storeBuffer.ring = s.storeBuffer.ring.flush

/-- **What the retirement of `item` does.** -/
structure Core.Retires (cur s s' : Core) (item : RobItem) : Prop where
  rob : s'.rob = Fifo.drop cur.rob s.rob
  allocated : item.oldPhyRegIdValid = true →
    s.retireRat.setMap false item.rd item.newPhyRegId = some s'.retireRat ∧
      ∃ ok, FreeList.push cur.phyIdFreeList s.phyIdFreeList item.oldPhyRegId
        = some (s'.phyIdFreeList, ok)
  kept : item.oldPhyRegIdValid = false →
    s'.retireRat = s.retireRat ∧ s'.phyIdFreeList = s.phyIdFreeList
  speculativeRat : s'.speculativeRat = s.speculativeRat
  ck : s'.checkpointBuffer
    = if item.bruOp && item.branchPredictorInfoPack.predicted
          && item.branchPredictorInfoPack.checkpointIdValid then
        Fifo.drop cur.checkpointBuffer s.checkpointBuffer
      else s.checkpointBuffer
  lq : s'.loadQueue.ring
    = if item.loadQueueIdValid then Fifo.drop cur.loadQueue.ring s.loadQueue.ring
      else s.loadQueue.ring
  sb : s'.storeBuffer.ring
    = if item.storeBufferIdValid then Fifo.drop cur.storeBuffer.ring s.storeBuffer.ring
      else s.storeBuffer.ring

theorem flushPipeline_eq_some {cur s s' : Core} {rptr : Ptr}
    (h : flushPipeline cur s rptr = some s') : s.Flushes s' rptr := by
  simp only [flushPipeline, Option.bind_eq_bind, Option.bind_eq_some_iff] at h
  obtain ⟨fl, hfl, h⟩ := h
  cases h
  exact ⟨rfl, rfl, rfl, FreeList.restore_eq_some hfl, rfl, rfl, rfl⟩

/-- An entry that took a load queue slot is no store, and its result brought no checkpoint. -/
def RobItem.PlainLoad (item : RobItem) : Prop :=
  item.loadQueueIdValid = true →
    item.branchPredictorInfoPack.checkpointIdValid = false ∧ item.storeBufferIdValid = false

variable {cur : Core} {st st' : CommitState} {id : Nat} {item : RobItem} {go : Bool}

/-- The fields of a commit state that only an exception, a flush or a retirement changes. -/
structure CommitState.SameLog (st st' : CommitState) : Prop where
  flush : st'.feedback.flush = st.feedback.flush
  hasException : st'.feedback.hasException = st.feedback.hasException
  needFlush : st'.needFlush = st.needFlush
  retireQueue : st'.retireQueue = st.retireQueue

/-- Commit has flushed, and the log says so. -/
structure CommitState.Flushed (st st' : CommitState) (hasException : Bool)
    (retired : List (Nat × RobItem)) : Prop where
  flush : st'.feedback.flush = true
  hasException : st'.feedback.hasException = (st.feedback.hasException || hasException)
  needFlush : st'.needFlush = true
  retireQueue : st'.retireQueue = st.retireQueue ++ retired

theorem commitException_eq_some {e : RiscvException} {v : Word}
    (h : commitException cur id item e v st = some st') :
    (∃ s, st.new.Flushes s item.newPhyIdFreeListRptr ∧ s.SameWindow st'.new)
      ∧ st.Flushed st' true [(id, item)] := by
  simp only [commitException, Option.bind_eq_bind, Option.bind_eq_some_iff] at h
  obtain ⟨s, hs, h⟩ := h
  cases h
  refine ⟨⟨s, flushPipeline_eq_some hs, ⟨rfl, rfl, rfl, rfl, rfl, rfl, rfl, fun h => h, rfl, rfl⟩⟩,
    ⟨rfl, ?_, rfl, rfl⟩⟩
  simp

/-- **The load handle**: nothing, a flush, or a pop. -/
theorem commitLoad_cases (hplain : item.PlainLoad)
    (h : commitLoad cur item st = some (st', go)) :
    (item.loadQueueIdValid = false ∧ st' = st ∧ go = true) ∨
    (item.loadQueueIdValid = true ∧ cur.loadQueue.itemConflict item.loadQueueId = true
      ∧ go = false ∧ st.new.Flushes st'.new item.oldPhyIdFreeListRptr
      ∧ st.Flushed st' false []) ∨
    (item.loadQueueIdValid = true ∧ cur.loadQueue.itemConflict item.loadQueueId = false
      ∧ go = true ∧ st' = { st with new := { st.new with
          loadQueue := { st.new.loadQueue with
            ring := Fifo.drop cur.loadQueue.ring st.new.loadQueue.ring } } }) := by
  unfold commitLoad at h
  cases hv : item.loadQueueIdValid with
  | false =>
    simp only [hv, Bool.not_false, if_true, Option.some.injEq, Prod.mk.injEq] at h
    exact .inl ⟨rfl, h.1.symm, h.2.symm⟩
  | true =>
    simp only [hv, (hplain hv).1, Bool.not_true, Bool.not_false, Bool.and_true, if_false,
      Bool.false_eq_true] at h
    cases hc : cur.loadQueue.itemConflict item.loadQueueId with
    | true =>
      simp only [hc, if_true, Option.bind_eq_bind, Option.bind_eq_some_iff] at h
      obtain ⟨s, hs, h⟩ := h
      cases h
      exact .inr (.inl ⟨rfl, rfl, rfl, flushPipeline_eq_some hs, ⟨rfl, by simp, rfl, by simp⟩⟩)
    | false =>
      simp only [hc, if_false, Bool.false_eq_true, Option.some.injEq, Prod.mk.injEq] at h
      exact .inr (.inr ⟨rfl, rfl, h.2.symm, h.1.symm⟩)

/-- **The store handle**: nothing, a pause, an exception, or a pop. -/
theorem commitStore_cases {writeAck : Option BusErrno}
    (h : commitStore cur writeAck id item st = some (st', go)) :
    (item.storeBufferIdValid = false ∧ st' = st ∧ go = true) ∨
    (item.storeBufferIdValid = true ∧ go = false ∧ st.new.SameWindow st'.new
      ∧ st.SameLog st') ∨
    (item.storeBufferIdValid = true ∧ go = false ∧ st.Flushed st' true [(id, item)]
      ∧ ∃ s s', st.new.SameWindow s ∧ s.Flushes s' item.newPhyIdFreeListRptr
        ∧ s'.SameWindow st'.new) ∨
    (item.storeBufferIdValid = true ∧ go = true ∧ st.SameLog st'
      ∧ (if st.new.isWaitingAck then writeAck = some .none
        else isCacheable (cur.storeBuffer.itemAddr item.storeBufferId) = true)
      ∧ ∃ b r, st'.new = { st.new with
          isWaitingAck := b
          retiredStoreBuffer := r
          storeBuffer := { st.new.storeBuffer with
            ring := Fifo.drop cur.storeBuffer.ring st.new.storeBuffer.ring } }) := by
  unfold commitStore at h
  cases hv : item.storeBufferIdValid with
  | false =>
    simp only [hv, Bool.not_false, if_true, Option.some.injEq, Prod.mk.injEq] at h
    exact .inl ⟨rfl, h.1.symm, h.2.symm⟩
  | true =>
    simp only [hv, Bool.not_true, if_false, Bool.false_eq_true, Option.bind_eq_bind,
      Option.bind_eq_some_iff] at h
    obtain ⟨tItem, -, addr, haddr, size, -, -, -, h⟩ := h
    have haddr' := StoreBuffer.getAddr_eq_some haddr
    have hsame : ∀ (b : Bool) (r : Fifo retiredStoreBufferSize RetiredStoreBufferItem),
        st.new.SameWindow { st.new with
          isWaitingAck := b, retiredStoreBuffer := { st.new.retiredStoreBuffer with ring := r } } :=
      fun _ _ => ⟨rfl, rfl, rfl, rfl, rfl, rfl, rfl, fun h => h, rfl, rfl⟩
    split at h
    · rename_i hw
      split at h
      · cases h
        exact .inr (.inl ⟨rfl, rfl, .refl _, ⟨rfl, rfl, rfl, rfl⟩⟩)
      · rename_i errno
        split at h
        · rw [Option.bind_eq_some_iff] at h
          obtain ⟨st₁, h₁, h⟩ := h
          cases h
          obtain ⟨⟨s, hs, hs'⟩, hlog⟩ := commitException_eq_some h₁
          exact .inr (.inr (.inl ⟨rfl, rfl,
            ⟨hlog.flush, hlog.hasException, hlog.needFlush, hlog.retireQueue⟩, _, s,
            hsame false st.new.retiredStoreBuffer.ring, hs, hs'⟩))
        · rename_i herr
          cases h
          have herrno : errno = .none := by cases errno <;> simp_all
          exact .inr (.inr (.inr ⟨rfl, rfl, ⟨rfl, rfl, rfl, rfl⟩, by simp [hw, herrno],
            false, st.new.retiredStoreBuffer, rfl⟩))
    · rename_i hw
      split at h
      · rename_i hcache
        rw [Option.bind_eq_some_iff] at h
        obtain ⟨ring, -, h⟩ := h
        cases h
        exact .inr (.inr (.inr ⟨rfl, rfl, ⟨rfl, rfl, rfl, rfl⟩,
          by simp only [hw]; rw [← haddr']; simpa using hcache,
          st.new.isWaitingAck, { st.new.retiredStoreBuffer with ring := ring }, rfl⟩))
      · cases h
        exact .inr (.inl ⟨rfl, rfl, hsame true st.new.retiredStoreBuffer.ring,
          ⟨rfl, rfl, rfl, rfl⟩⟩)


theorem retireEffects_sameWindow (s : Core) (item : RobItem) :
    s.SameWindow (retireEffects s item) := by
  unfold retireEffects
  split <;> split <;> exact ⟨rfl, rfl, rfl, rfl, rfl, rfl, rfl, fun h => h, rfl, rfl⟩

theorem commitMret_spec (cur : Core) (item : RobItem) (st : CommitState) :
    st.new.SameWindow (commitMret cur item st).new ∧ st.SameLog (commitMret cur item st) := by
  unfold commitMret
  split
  · exact ⟨⟨rfl, rfl, rfl, rfl, rfl, rfl, rfl, fun h => h, rfl, rfl⟩, ⟨rfl, rfl, rfl, rfl⟩⟩
  · exact ⟨.refl _, ⟨rfl, rfl, rfl, rfl⟩⟩

/-- **A predicted branch**: its checkpoint is popped, or everything behind it is dropped. -/
theorem commitPredicted_cases (h : commitPredicted cur item st = some st') :
    (st.SameLog st' ∧ st'.new = { st.new with
      checkpointBuffer :=
        if item.branchPredictorInfoPack.checkpointIdValid then
          Fifo.drop cur.checkpointBuffer st.new.checkpointBuffer
        else st.new.checkpointBuffer }) ∨
    (item.branchPredictorInfoPack.checkpointIdValid = false
      ∧ st.new.Flushes st'.new item.newPhyIdFreeListRptr ∧ st.Flushed st' false []) := by
  simp only [commitPredicted] at h
  split at h
  · cases h
    exact .inl ⟨⟨rfl, rfl, rfl, rfl⟩, rfl⟩
  · split at h
    · cases h
    · split at h
      · cases h
        exact .inl ⟨⟨rfl, rfl, rfl, rfl⟩, rfl⟩
      · rename_i hck
        simp only [commitMispredict, Option.bind_eq_bind, Option.bind_eq_some_iff] at h
        obtain ⟨s, hs, h⟩ := h
        cases h
        exact .inr ⟨by simpa using hck, flushPipeline_eq_some hs,
          ⟨rfl, by simp [addUpdate], rfl, by simp [addUpdate]⟩⟩

/-- **The branch handle**: nothing, the end of the group, or a flush. -/
theorem commitBranch_cases (h : commitBranch cur item st = some (st', go)) :
    (item.bruOp = false ∧ st' = st ∧ go = true) ∨
    (item.bruOp = true ∧ go = false ∧ ∃ s, st.new.SameWindow s ∧
      ((st.SameLog st' ∧ st'.new = { s with
          checkpointBuffer :=
            if item.branchPredictorInfoPack.predicted
                && item.branchPredictorInfoPack.checkpointIdValid then
              Fifo.drop cur.checkpointBuffer s.checkpointBuffer
            else s.checkpointBuffer }) ∨
       (item.branchPredictorInfoPack.checkpointIdValid = false
        ∧ s.Flushes st'.new item.newPhyIdFreeListRptr ∧ st.Flushed st' false []))) := by
  unfold commitBranch at h
  cases hb : item.bruOp with
  | false =>
    simp only [hb, Bool.not_false, if_true, Option.some.injEq, Prod.mk.injEq] at h
    exact .inl ⟨rfl, h.1.symm, h.2.symm⟩
  | true =>
    simp only [hb, Bool.not_true, if_false, Bool.false_eq_true] at h
    obtain ⟨hwin, hlog⟩ := commitMret_spec cur item st
    cases hp : item.branchPredictorInfoPack.predicted with
    | false =>
      simp only [hp, if_false, Bool.false_eq_true, Option.some.injEq, Prod.mk.injEq] at h
      obtain ⟨rfl, rfl⟩ := h
      exact .inr ⟨rfl, rfl, _, hwin, .inl ⟨⟨hlog.flush, hlog.hasException, hlog.needFlush,
        hlog.retireQueue⟩, by simp⟩⟩
    | true =>
      simp only [hp, if_true, Option.map_eq_some_iff, Prod.mk.injEq] at h
      obtain ⟨st₁, h₁, rfl, rfl⟩ := h
      refine .inr ⟨rfl, rfl, _, hwin, ?_⟩
      rcases commitPredicted_cases h₁ with ⟨hl, hn⟩ | ⟨hck, hf, hl⟩
      · refine .inl ⟨⟨hl.flush.trans hlog.flush, hl.hasException.trans hlog.hasException,
          hl.needFlush.trans hlog.needFlush, hl.retireQueue.trans hlog.retireQueue⟩, ?_⟩
        simpa using hn
      · exact .inr ⟨hck, hf, hl.flush, by rw [hl.hasException, hlog.hasException], hl.needFlush,
          by rw [hl.retireQueue, hlog.retireQueue]⟩

/-- **The retirement itself**, once the load and store handles have popped their queues. -/
theorem commitRetire_eq_some (h : commitRetire cur id item st = some st') :
    st'.feedback = st.feedback ∧ st'.needFlush = st.needFlush
      ∧ st'.retireQueue = st.retireQueue ++ [(id, item)]
      ∧ ∃ s : Core, s.SameWindow st'.new ∧ s.rob = Fifo.drop cur.rob st.new.rob
      ∧ (item.oldPhyRegIdValid = true →
          st.new.retireRat.setMap false item.rd item.newPhyRegId = some s.retireRat ∧
          ∃ ok, FreeList.push cur.phyIdFreeList st.new.phyIdFreeList item.oldPhyRegId
            = some (s.phyIdFreeList, ok))
      ∧ (item.oldPhyRegIdValid = false → s.retireRat = st.new.retireRat
          ∧ s.phyIdFreeList = st.new.phyIdFreeList)
      ∧ s.speculativeRat = st.new.speculativeRat
      ∧ s.checkpointBuffer = st.new.checkpointBuffer
      ∧ s.loadQueue = st.new.loadQueue ∧ s.storeBuffer = st.new.storeBuffer := by
  simp only [commitRetire, Option.bind_eq_bind, Option.bind_eq_some_iff] at h
  obtain ⟨s, hs, h⟩ := h
  cases h
  refine ⟨rfl, rfl, rfl, s, retireEffects_sameWindow s item, ?_⟩
  unfold retireMap at hs
  split at hs
  · rename_i hv
    simp only [Option.bind_eq_bind, Option.bind_eq_some_iff] at hs
    obtain ⟨rat, hrat, ⟨fl, ok⟩, hfl, hs⟩ := hs
    cases hs
    exact ⟨rfl, fun _ => ⟨hrat, ok, hfl⟩, fun hf => by simp [hv] at hf, rfl, rfl, rfl, rfl⟩
  · rename_i hv
    cases hs
    exact ⟨rfl, fun hf => absurd hf hv, fun _ => ⟨rfl, rfl⟩, rfl, rfl, rfl, rfl⟩

/-- **What one turn of the output loop does.** -/
inductive CommitTurn (cur : Core) (st st' : CommitState) : Bool → Prop where
  /-- Nothing the window sees. -/
  | pause : st.new.SameWindow st'.new → st.SameLog st' → CommitTurn cur st st' false
  /-- The front entry takes an exception. -/
  | exception (id : Nat) (s s' : Core) :
      Fifo.customerGetFrontId cur.rob st.new.rob = some id →
      (cur.rob.buffer id).finish = true →
      ((cur.rob.buffer id).hasException = true ∨ (cur.rob.buffer id).storeBufferIdValid = true) →
      st.new.SameWindow s → s.Flushes s' (cur.rob.buffer id).newPhyIdFreeListRptr →
      s'.SameWindow st'.new → st.Flushed st' true [(id, cur.rob.buffer id)] →
      CommitTurn cur st st' false
  /-- The front entry is a load that a store has overtaken. -/
  | conflict (id : Nat) :
      Fifo.customerGetFrontId cur.rob st.new.rob = some id →
      (cur.rob.buffer id).finish = true →
      st.new.Flushes st'.new (cur.rob.buffer id).oldPhyIdFreeListRptr →
      st.Flushed st' false [] → CommitTurn cur st st' false
  /-- The front entry retires. -/
  | retire (id : Nat) (s : Core) (go : Bool) :
      Fifo.customerGetFrontId cur.rob st.new.rob = some id →
      (cur.rob.buffer id).finish = true →
      cur.Retires st.new s (cur.rob.buffer id) → s.SameWindow st'.new →
      st'.feedback.flush = st.feedback.flush →
      st'.feedback.hasException = st.feedback.hasException → st'.needFlush = st.needFlush →
      st'.retireQueue = st.retireQueue ++ [(id, cur.rob.buffer id)] →
      (go = false → (cur.rob.buffer id).bruOp = true) → CommitTurn cur st st' go
  /-- The front entry is a mispredicted branch without a checkpoint: it retires, and the rest
  is dropped. -/
  | mispredict (id : Nat) (s s' : Core) :
      Fifo.customerGetFrontId cur.rob st.new.rob = some id →
      (cur.rob.buffer id).finish = true → (cur.rob.buffer id).bruOp = true →
      cur.Retires st.new s (cur.rob.buffer id) → s.SameWindow s' →
      s'.Flushes st'.new (cur.rob.buffer id).newPhyIdFreeListRptr →
      st.Flushed st' false [(id, cur.rob.buffer id)] → CommitTurn cur st st' false

theorem andThen_eq_some {turn : Option (CommitState × Bool)}
    {handle : CommitState → Option (CommitState × Bool)} {r : CommitState × Bool}
    (h : andThen turn handle = some r) :
    (∃ st, turn = some (st, true) ∧ handle st = some r) ∨ (turn = some r ∧ r.2 = false) := by
  unfold andThen at h
  obtain ⟨⟨st, go⟩, ht, h⟩ := Option.bind_eq_some_iff.mp h
  cases go with
  | true => exact .inl ⟨st, ht, h⟩
  | false => cases h; exact .inr ⟨ht, rfl⟩

/-- The load handle and the store handle, where both let the entry retire. -/
theorem commitHandles_retire {st₁ st₂ : CommitState} {writeAck : Option BusErrno}
    (hplain : item.PlainLoad)
    (h₁ : commitLoad cur item st = some (st₁, true))
    (h₂ : commitStore cur writeAck id item st₁ = some (st₂, true)) :
    st.SameLog st₂ ∧ ∃ b r, st₂.new = { st.new with
      isWaitingAck := b
      retiredStoreBuffer := r
      loadQueue := { st.new.loadQueue with
        ring := if item.loadQueueIdValid then
            Fifo.drop cur.loadQueue.ring st.new.loadQueue.ring
          else st.new.loadQueue.ring }
      storeBuffer := { st.new.storeBuffer with
        ring := if item.storeBufferIdValid then
            Fifo.drop cur.storeBuffer.ring st.new.storeBuffer.ring
          else st.new.storeBuffer.ring } } := by
  have h₁' : st.SameLog st₁ ∧ st₁.new = { st.new with
      loadQueue := { st.new.loadQueue with
        ring := if item.loadQueueIdValid then
            Fifo.drop cur.loadQueue.ring st.new.loadQueue.ring
          else st.new.loadQueue.ring } } := by
    rcases commitLoad_cases hplain h₁ with ⟨hv, rfl, -⟩ | ⟨-, -, hgo, -⟩ | ⟨hv, -, -, rfl⟩
    · exact ⟨⟨rfl, rfl, rfl, rfl⟩, by simp [hv]⟩
    · cases hgo
    · exact ⟨⟨rfl, rfl, rfl, rfl⟩, by simp [hv]⟩
  obtain ⟨hlog, hnew⟩ := h₁'
  rcases commitStore_cases h₂ with ⟨hv, rfl, -⟩ | ⟨-, hgo, -⟩ | ⟨-, hgo, -⟩ | ⟨hv, -, hl, -, b, r, hn⟩
  · refine ⟨hlog, st₂.new.isWaitingAck, st₂.new.retiredStoreBuffer, ?_⟩
    simp only [hv, if_false, Bool.false_eq_true]
    rw [hnew]
  · cases hgo
  · cases hgo
  · refine ⟨⟨hl.flush.trans hlog.flush, hl.hasException.trans hlog.hasException,
      hl.needFlush.trans hlog.needFlush, hl.retireQueue.trans hlog.retireQueue⟩, b, r, ?_⟩
    rw [hn, hnew]
    simp only [hv, if_true]

theorem Core.SameWindow.mapCk {s s' : Core} (h : s.SameWindow s')
    (f : Fifo checkpointBufferSize Checkpoint → Fifo checkpointBufferSize Checkpoint) :
    { s with checkpointBuffer := f s.checkpointBuffer }.SameWindow
      { s' with checkpointBuffer := f s'.checkpointBuffer } :=
  ⟨h.rob, h.retireRat, h.speculativeRat, h.free, congrArg f h.ck, h.lqRptr, h.lqWptr, h.lqPlain,
    h.sbRptr, h.sbWptr⟩

/-- **The handles of an entry that is finished**, in the order of the source. -/
theorem commitHandles_turn {writeAck : Option BusErrno}
    (hplain : item.PlainLoad)
    (hid : Fifo.customerGetFrontId cur.rob st.new.rob = some id)
    (hitem : item = cur.rob.buffer id) (hfin : item.finish = true)
    (h : commitHandles cur writeAck id item st = some (st', go)) : CommitTurn cur st st' go := by
  subst hitem
  rcases andThen_eq_some h with ⟨st₁, h₁, hrest⟩ | ⟨hload, hgo⟩
  · rcases andThen_eq_some hrest with ⟨st₂, h₂, hlast⟩ | ⟨hstore, hgo⟩
    · obtain ⟨hlog, b, r, hnew⟩ := commitHandles_retire hplain h₁ h₂
      obtain ⟨st₃, h₃, h₄⟩ := Option.bind_eq_some_iff.mp hlast
      obtain ⟨hfb, hnf, hq, s, hs, hrob, hal, hke, hsp, hck, hlq, hsb⟩ := commitRetire_eq_some h₃
      have hret : ∀ c, cur.Retires st.new { s with checkpointBuffer := c } (cur.rob.buffer id) ↔
          c = if (cur.rob.buffer id).bruOp && (cur.rob.buffer id).branchPredictorInfoPack.predicted
              && (cur.rob.buffer id).branchPredictorInfoPack.checkpointIdValid then
            Fifo.drop cur.checkpointBuffer st.new.checkpointBuffer
          else st.new.checkpointBuffer := by
        rw [hnew] at hrob hal hke hsp hck hlq hsb
        exact fun c => ⟨fun h => h.ck, fun h => ⟨hrob, hal, hke, hsp, h, by rw [hlq], by rw [hsb]⟩⟩
      rw [hnew] at hck
      have hfl : st₃.feedback.flush = st.feedback.flush := by rw [hfb, hlog.flush]
      have hex : st₃.feedback.hasException = st.feedback.hasException := by
        rw [hfb, hlog.hasException]
      have hnf' : st₃.needFlush = st.needFlush := by rw [hnf, hlog.needFlush]
      rw [hlog.retireQueue] at hq
      rcases commitBranch_cases h₄ with
        ⟨hb, rfl, rfl⟩ | ⟨hb, rfl, s', hs', ⟨hl, hn⟩ | ⟨hckv, hf, hl⟩⟩
      · refine .retire id s true hid hfin ?_ hs hfl hex hnf' hq (fun hc => by cases hc)
        exact (hret s.checkpointBuffer).mpr (by simp [hb, hck])
      · refine .retire id _ false hid hfin ((hret _).mpr rfl) ?_ (hl.flush.trans hfl)
          (hl.hasException.trans hex) (hl.needFlush.trans hnf') (by rw [hl.retireQueue, hq])
          fun _ => hb
        have := (hs.trans hs').mapCk fun c =>
          if (cur.rob.buffer id).branchPredictorInfoPack.predicted
              && (cur.rob.buffer id).branchPredictorInfoPack.checkpointIdValid then
            Fifo.drop cur.checkpointBuffer c
          else c
        rw [hn]
        simpa [hb, hck] using this
      · refine .mispredict id s s' hid hfin hb ?_ (hs.trans hs') hf
          ⟨hl.flush, by rw [hl.hasException, hex], hl.needFlush, by rw [hl.retireQueue, hq]; simp⟩
        exact (hret s.checkpointBuffer).mpr (by simp [hckv, hck])
    · dsimp only at hgo
      subst hgo
      -- the store handle left the loop, so the entry is a store and the load handle did nothing
      rcases commitLoad_cases hplain h₁ with ⟨-, rfl, -⟩ | ⟨-, -, hgo, -⟩ | ⟨hv, -⟩
      · rcases commitStore_cases hstore with
          ⟨-, -, hgo⟩ | ⟨-, -, hw, hl⟩ | ⟨hv, -, hl, s, s', hw, hf, hw'⟩ | ⟨-, hgo, -⟩
        · cases hgo
        · exact .pause hw hl
        · exact .exception id s s' hid hfin (.inr hv) hw hf hw' hl
        · cases hgo
      · cases hgo
      · rcases commitStore_cases hstore with ⟨-, -, hgo⟩ | ⟨hs, -⟩ | ⟨hs, -⟩ | ⟨hs, -⟩
        · cases hgo
        all_goals rw [(hplain hv).2] at hs; cases hs
  · dsimp only at hgo
    subst hgo
    rcases commitLoad_cases hplain hload with ⟨-, -, hgo⟩ | ⟨-, -, -, hf, hl⟩ | ⟨-, -, hgo, -⟩
    · cases hgo
    · exact .conflict id hid hfin hf hl
    · cases hgo

/-- The feedback fields filled in early do not matter for what the turn does. -/
theorem CommitTurn.of_seen (i id : Nat) (next : Option Nat)
    (h : CommitTurn cur (commitSeen i id next st) st' go) : CommitTurn cur st st' go := by
  cases h with
  | pause hw hl => exact .pause hw ⟨hl.flush, hl.hasException, hl.needFlush, hl.retireQueue⟩
  | exception id' s s' hid hfin he hw hf hw' hl =>
    exact .exception id' s s' hid hfin he hw hf hw'
      ⟨hl.flush, hl.hasException, hl.needFlush, hl.retireQueue⟩
  | conflict id' hid hfin hf hl =>
    exact .conflict id' hid hfin hf ⟨hl.flush, hl.hasException, hl.needFlush, hl.retireQueue⟩
  | retire id' s _ hid hfin hr hw h1 h2 h3 h4 h5 =>
    exact .retire id' s _ hid hfin hr hw h1 h2 h3 h4 h5
  | mispredict id' s s' hid hfin hb hr hw hf hl =>
    exact .mispredict id' s s' hid hfin hb hr hw hf
      ⟨hl.flush, hl.hasException, hl.needFlush, hl.retireQueue⟩

/-- **One turn of the output loop is one of the five.** -/
theorem commitOne_turn {writeAck : Option BusErrno} {firstId i : Nat}
    (hplain : ∀ id, Fifo.customerGetFrontId cur.rob st.new.rob = some id →
      (cur.rob.buffer id).finish = true → (cur.rob.buffer id).PlainLoad)
    (h : commitOne cur writeAck firstId i st = some (st', go)) : CommitTurn cur st st' go := by
  unfold commitOne at h
  split at h
  · cases h
    exact .pause (.refl _) ⟨rfl, rfl, rfl, rfl⟩
  · rename_i id hid
    dsimp only [Fifo.customerGetItem] at h
    cases hfin : (cur.rob.buffer id).finish with
    | false =>
      simp only [hfin, Bool.not_false, if_true, Option.some.injEq, Prod.mk.injEq] at h
      obtain ⟨rfl, rfl⟩ := h
      exact .pause (.refl _) ⟨rfl, rfl, rfl, rfl⟩
    | true =>
      simp only [hfin, Bool.not_true, if_false, Bool.false_eq_true, Option.bind_eq_some_iff] at h
      obtain ⟨⟨next, nextValid⟩, -, h⟩ := h
      refine CommitTurn.of_seen i id (if nextValid && next != firstId then some next else none) ?_
      unfold commitFinished at h
      split at h
      · rename_i hex
        obtain ⟨st₁, h₁, he⟩ := Option.map_eq_some_iff.mp h
        cases he
        obtain ⟨⟨s, hs, hw⟩, hl⟩ := commitException_eq_some h₁
        exact .exception id _ s hid hfin (.inl hex) (.refl _) hs hw hl
      · obtain ⟨blocked, -, h⟩ := Option.bind_eq_some_iff.mp h
        split at h
        · cases h
          exact .pause (.refl _) ⟨rfl, rfl, rfl, rfl⟩
        · exact commitHandles_turn (hplain id hid hfin) hid rfl hfin h

end DreamCore
