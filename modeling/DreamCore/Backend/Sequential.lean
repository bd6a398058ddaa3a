import DreamCore.Backend.Feedback

/-!
# Commit, one instruction a cycle

`commit::run` retires up to `COMMIT_WIDTH` entries in one cycle. Within it some
components are read as they were at the start and some as the turns before have
left them. The measure of both is a machine that retires one instruction a cycle
and syncs its registers in between, where the two readings are the same.
-/

namespace DreamCore

open Ring

/-- `commit::run`, built with a `COMMIT_WIDTH` of `width`. -/
def commitRunWidth (width : Nat) (cur new : Core) (inp : CommitInput) : Option CommitState :=
  let st := commitInterrupt cur new inp
  match Fifo.customerGetFrontId cur.rob st.new.rob with
  | none => some st
  | some firstId => do
      let st := { st with feedback := { st.feedback with
        idle := false, nextHandleRobId := some firstId } }
      let st ← commitLoop cur inp.writeAck firstId width 0 st
      if st.needFlush then return st
      else return { st with new := inp.executeCommitPort.foldl (commitInput cur) st.new }

/-- The model of `commit::run` is the one with the width of the configuration. -/
theorem commitRunWidth_commitWidth : commitRunWidth commitWidth = commitRun := rfl

/-- A cycle in which no stage but commit does anything. `new` of the result is what
`sync_all` makes the next snapshot. -/
def Core.commitCycle (width : Nat) (s : Core) (inp : CommitInput) : Option CommitState :=
  commitRunWidth width s { s with committed := false } inp

/-- The cycle has handled one instruction: it has retired it or taken its exception, or it has
flushed the pipeline at a load that has read too early. -/
def CommitState.HandlesOne (st : CommitState) : Prop :=
  st.retireQueue.length = 1 ∨ (st.retireQueue = [] ∧ st.needFlush = true)

/-- **Successive cycles of a commit of width one**, each of which handles one instruction. The
results that wait on the ports come in with the last. -/
inductive OneByOne (inp : CommitInput) : Core → List CommitState → Prop where
  | last {s : Core} {st : CommitState} : s.commitCycle 1 inp = some st → st.HandlesOne →
      OneByOne inp s [st]
  | next {s : Core} {st : CommitState} {sts : List CommitState} :
      s.commitCycle 1 { inp with executeCommitPort := [] } = some st → st.retireQueue.length = 1 →
      st.needFlush = false → OneByOne inp st.new sts → OneByOne inp s (st :: sts)

/-! ## Two snapshots that read alike -/

/-- **The loop of `restore` reads the popped cells only.** -/
theorem FreeList.restoreLoop_congr {n a b : Nat} {cur s : FreeList n} (hn : 0 < n)
    (hc : cur.ring.rptr = Ptr.fold n b) (hs : s.ring.rptr = Ptr.fold n b) (hab : a ≤ b)
    (hb : b ≤ a + n)
    (hcell : ∀ j, a ≤ j → j < b → s.ring.buffer (j % n) = cur.ring.buffer (j % n))
    (fuel : Nat) (set : List Nat) :
    restoreLoop s fuel (Ptr.fold n a) set = restoreLoop cur fuel (Ptr.fold n a) set := by
  induction fuel generalizing a set with
  | zero => rw [restoreLoop, restoreLoop, hc, hs]
  | succ fuel ih =>
    rw [restoreLoop, restoreLoop, hc, hs]
    by_cases he : a = b
    · rw [he]
      simp
    · have hrest := ih (a := a + 1) (by omega) (by omega) (fun j h₁ h₂ => hcell j (by omega) h₂)
        (cur.ring.buffer (a % n) :: set)
      rw [Ptr.fold_id, hcell a (Nat.le_refl a) (by omega), Ptr.next_fold hn, hrest]

theorem FreeList.restore_congr {n a b : Nat} {cur s : FreeList n} (hn : 0 < n)
    (hc : cur.ring.rptr = Ptr.fold n b) (hs : s.ring.rptr = Ptr.fold n b) (hab : a ≤ b)
    (hb : b ≤ a + n)
    (hcell : ∀ j, a ≤ j → j < b → s.ring.buffer (j % n) = cur.ring.buffer (j % n))
    (new : FreeList n) :
    restore s new (Ptr.fold n a) = restore cur new (Ptr.fold n a) := by
  unfold restore Fifo.producerGetUsedSpace
  rw [restoreLoop_congr hn hc hs hab hb hcell, hc, hs]

/-- A pop looks at the write pointer of the registered snapshot only. -/
theorem Fifo.drop_congr {n : Nat} {α : Type} {cur s : Fifo n α} (h : s.wptr = cur.wptr)
    (new : Fifo n α) : drop s new = drop cur new := by
  rw [drop, drop, customerIsEmpty, customerIsEmpty, h]

/-- **What commit reads of a registered snapshot**, for the entry `item`, is the same in both. -/
structure Core.ReadsAlike (cur s : Core) (item : RobItem) : Prop where
  robWptr : s.rob.wptr = cur.rob.wptr
  ckWptr : s.checkpointBuffer.wptr = cur.checkpointBuffer.wptr
  lqWptr : s.loadQueue.ring.wptr = cur.loadQueue.ring.wptr
  freeRptr : s.phyIdFreeList.ring.rptr = cur.phyIdFreeList.ring.rptr
  conflict : s.loadQueue.itemConflict = cur.loadQueue.itemConflict
  oldFree : ∀ new, FreeList.restore s.phyIdFreeList new item.oldPhyIdFreeListRptr
    = FreeList.restore cur.phyIdFreeList new item.oldPhyIdFreeListRptr
  newFree : ∀ new, FreeList.restore s.phyIdFreeList new item.newPhyIdFreeListRptr
    = FreeList.restore cur.phyIdFreeList new item.newPhyIdFreeListRptr
  csr : s.csrFile = cur.csrFile

/-! ## One turn in both machines -/

/-- `sq` is where the turn of the narrow commit is, when `st` is where the one of the wide commit
is: the components are equal, `q` is what had been logged before the turn, and `b` says whether
something had been committed. -/
structure CommitState.Follows (q : List (Nat × RobItem)) (b : Bool) (st sq : CommitState) :
    Prop where
  new : sq.new = { st.new with committed := sq.new.committed }
  committed : st.new.committed = (b || sq.new.committed)
  queue : st.retireQueue = q ++ sq.retireQueue
  needFlush : sq.needFlush = st.needFlush

variable {cur s : Core} {item : RobItem} {st st' sq : CommitState} {id : Nat} {go : Bool}
  {q : List (Nat × RobItem)} {b : Bool}

/-- The flush does not look at the flag a cycle begins by clearing. -/
theorem flushPipeline_alike {new : Core} {rptr : Ptr} (c : Bool)
    (h : ∀ new, FreeList.restore s.phyIdFreeList new rptr
      = FreeList.restore cur.phyIdFreeList new rptr) :
    flushPipeline s { new with committed := c } rptr
      = (flushPipeline cur new rptr).map fun n => { n with committed := c } := by
  unfold flushPipeline
  dsimp only
  rw [h]
  cases FreeList.restore cur.phyIdFreeList new.phyIdFreeList rptr <;> rfl

theorem flushPipeline_committed {new n : Core} {rptr : Ptr}
    (h : flushPipeline cur new rptr = some n) : n.committed = new.committed := by
  simp only [flushPipeline, Option.bind_eq_bind, Option.bind_eq_some_iff] at h
  obtain ⟨_, -, h⟩ := h
  cases h
  rfl

theorem commitException_follows {e : RiscvException} {v : Word} (ha : cur.ReadsAlike s item)
    (hf : st.Follows q b sq) (h : commitException cur id item e v st = some st') :
    ∃ sq', commitException s id item e v sq = some sq' ∧ st'.Follows q b sq' := by
  simp only [commitException, Option.bind_eq_bind, Option.bind_eq_some_iff] at h
  obtain ⟨n, hn, h⟩ := h
  cases h
  unfold commitException
  rw [hf.new, flushPipeline_alike _ ha.newFree, hn]
  refine ⟨_, rfl, rfl, ?_, ?_, rfl⟩
  · exact (Bool.or_true b).symm
  · exact (congrArg (· ++ [(id, item)]) hf.queue).trans (List.append_assoc ..)

theorem commitLoad_follows (ha : cur.ReadsAlike s item) (hf : st.Follows q b sq)
    (h : commitLoad cur item st = some (st', go)) :
    ∃ sq', commitLoad s item sq = some (sq', go) ∧ st'.Follows q b sq' := by
  unfold commitLoad at h ⊢
  rw [ha.conflict]
  split at h
  · rename_i hv
    cases h
    exact ⟨sq, if_pos hv, hf⟩
  · rename_i hv
    rw [if_neg hv]
    split at h
    · rename_i hc
      simp only [Option.bind_eq_bind, Option.bind_eq_some_iff] at h
      obtain ⟨n, hn, h⟩ := h
      cases h
      rw [if_pos hc, hf.new, flushPipeline_alike _ ha.oldFree, hn]
      exact ⟨_, rfl, rfl, (flushPipeline_committed hn).trans hf.committed, hf.queue, rfl⟩
    · rename_i hc
      cases h
      rw [if_neg hc, hf.new, Fifo.drop_congr ha.ckWptr, Fifo.drop_congr ha.lqWptr]
      exact ⟨_, rfl, rfl, hf.committed, hf.queue, hf.needFlush⟩

/-- A push looks at the read pointer of the registered snapshot only. -/
theorem FreeList.push_congr {n : Nat} {cur s : FreeList n} (h : s.ring.rptr = cur.ring.rptr)
    (new : FreeList n) (data : Nat) : push s new data = push cur new data := by
  unfold push Fifo.push Fifo.producerIsFull
  rw [h]

theorem retireMap_alike (ha : cur.ReadsAlike s item) (new : Core) (c : Bool) :
    retireMap s { new with committed := c } item
      = (retireMap cur new item).map fun n => { n with committed := c } := by
  unfold retireMap
  dsimp only
  split
  · rw [FreeList.push_congr ha.freeRptr]
    cases new.retireRat.setMap false item.rd item.newPhyRegId with
    | none => rfl
    | some rat => cases FreeList.push cur.phyIdFreeList new.phyIdFreeList item.oldPhyRegId <;> rfl
  · rfl

theorem retireEffects_alike (new : Core) (item : RobItem) (c : Bool) :
    retireEffects { new with committed := c } item
      = { retireEffects new item with committed := item.lastUop || c } := by
  unfold retireEffects
  cases item.lastUop <;> cases item.csrNewvalueValid <;> rfl

theorem retireEffects_committed (new : Core) (item : RobItem) :
    (retireEffects new item).committed = (item.lastUop || new.committed) := by
  unfold retireEffects
  cases item.lastUop <;> cases item.csrNewvalueValid <;> rfl

/-- What the release of the old register leaves alone. -/
theorem retireMap_frame {new n : Core} (h : retireMap cur new item = some n) :
    n.committed = new.committed ∧ n.csrFile = new.csrFile ∧ n.loadQueue = new.loadQueue := by
  unfold retireMap at h
  split at h
  · simp only [Option.bind_eq_bind, Option.bind_eq_some_iff] at h
    obtain ⟨_, -, _, -, h⟩ := h
    cases h
    exact ⟨rfl, rfl, rfl⟩
  · cases h
    exact ⟨rfl, rfl, rfl⟩

theorem commitRetire_follows (ha : cur.ReadsAlike s item) (hf : st.Follows q b sq)
    (h : commitRetire cur id item st = some st') :
    ∃ sq', commitRetire s id item sq = some sq' ∧ st'.Follows q b sq' := by
  simp only [commitRetire, Option.bind_eq_bind, Option.bind_eq_some_iff] at h
  obtain ⟨n, hn, h⟩ := h
  cases h
  have hmap := retireMap_alike ha { st.new with rob := Fifo.drop cur.rob st.new.rob }
    sq.new.committed
  rw [hn] at hmap
  unfold commitRetire
  rw [hf.new, Fifo.drop_congr ha.robWptr]
  dsimp only
  rw [hmap]
  refine ⟨_, rfl, ?_, ?_, ?_, hf.needFlush⟩
  · dsimp only
    rw [retireEffects_alike]
  · dsimp only
    rw [retireEffects_alike, retireEffects_committed, (retireMap_frame hn).1, hf.committed]
    cases b <;> cases item.lastUop <;> rfl
  · exact (congrArg (· ++ [(id, item)]) hf.queue).trans (List.append_assoc ..)

theorem commitMret_follows (ha : cur.ReadsAlike s item) (hf : st.Follows q b sq) :
    (commitMret cur item st).Follows q b (commitMret s item sq) := by
  unfold commitMret
  split
  · rw [ha.csr]
    refine ⟨?_, hf.committed, hf.queue, hf.needFlush⟩
    dsimp only
    rw [hf.new]
  · exact hf

theorem popCheckpoint_follows (ha : cur.ReadsAlike s item) (pack : BranchPredictorInfoPack)
    (hf : st.Follows q b sq) : (popCheckpoint cur pack st).Follows q b (popCheckpoint s pack sq) := by
  unfold popCheckpoint
  refine ⟨?_, hf.committed, hf.queue, hf.needFlush⟩
  dsimp only
  rw [hf.new, Fifo.drop_congr ha.ckWptr]

theorem addUpdate_follows (hit : Bool) (hf : st.Follows q b sq) :
    (addUpdate item hit st).Follows q b (addUpdate item hit sq) :=
  ⟨hf.new, hf.committed, hf.queue, hf.needFlush⟩

theorem commitMispredict_follows (ha : cur.ReadsAlike s item) (hf : st.Follows q b sq)
    (h : commitMispredict cur item st = some st') :
    ∃ sq', commitMispredict s item sq = some sq' ∧ st'.Follows q b sq' := by
  simp only [commitMispredict, Option.bind_eq_bind, Option.bind_eq_some_iff] at h
  obtain ⟨n, hn, h⟩ := h
  cases h
  unfold commitMispredict
  rw [hf.new, flushPipeline_alike _ ha.newFree, hn]
  exact ⟨_, rfl, rfl, (flushPipeline_committed hn).trans hf.committed, hf.queue, rfl⟩

theorem commitPredicted_follows (ha : cur.ReadsAlike s item) (hf : st.Follows q b sq)
    (h : commitPredicted cur item st = some st') :
    ∃ sq', commitPredicted s item sq = some sq' ∧ st'.Follows q b sq' := by
  unfold commitPredicted at h ⊢
  dsimp only at h ⊢
  split at h
  · rename_i hhit
    cases h
    rw [if_pos hhit]
    exact ⟨_, rfl, popCheckpoint_follows ha _ (addUpdate_follows true hf)⟩
  · rename_i hhit
    rw [if_neg hhit]
    split at h
    · cases h
    · rename_i habort
      rw [if_neg habort]
      split at h
      · rename_i hck
        cases h
        rw [if_pos hck]
        exact ⟨_, rfl, popCheckpoint_follows ha _ (addUpdate_follows false hf)⟩
      · rename_i hck
        rw [if_neg hck]
        exact commitMispredict_follows ha (addUpdate_follows false hf) h

theorem commitBranch_follows (ha : cur.ReadsAlike s item) (hf : st.Follows q b sq)
    (h : commitBranch cur item st = some (st', go)) :
    ∃ sq', commitBranch s item sq = some (sq', go) ∧ st'.Follows q b sq' := by
  unfold commitBranch at h ⊢
  cases hb : item.bruOp with
  | false =>
    rw [hb] at h
    cases h
    exact ⟨sq, rfl, hf⟩
  | true =>
    rw [hb] at h
    have hm := commitMret_follows ha hf
    simp only [Bool.not_true, Bool.false_eq_true, if_false] at h ⊢
    split at h
    · rename_i hp
      rw [if_pos hp]
      obtain ⟨st₁, h₁, he⟩ := Option.map_eq_some_iff.mp h
      cases he
      obtain ⟨sq₁, hs₁, hf₁⟩ := commitPredicted_follows ha hm h₁
      exact ⟨sq₁, by rw [hs₁]; rfl, hf₁⟩
    · rename_i hp
      rw [if_neg hp]
      cases h
      exact ⟨_, rfl, hm.new, hm.committed, hm.queue, hm.needFlush⟩

/-- **A finished entry that is no store** is handled alike by both, whatever the turn, and so is
one with an exception. -/
theorem commitFinished_follows {i j : Nat} {writeAck : Option BusErrno}
    (ha : cur.ReadsAlike s item)
    (hs : item.hasException = false → item.storeBufferIdValid = false) (hf : st.Follows q b sq)
    (h : commitFinished cur writeAck i id item st = some (st', go)) :
    ∃ sq', commitFinished s writeAck j id item sq = some (sq', go) ∧ st'.Follows q b sq' := by
  unfold commitFinished at h ⊢
  split at h
  · rename_i hex
    rw [if_pos hex]
    obtain ⟨st₁, h₁, he⟩ := Option.map_eq_some_iff.mp h
    cases he
    obtain ⟨sq₁, hs₁, hf₁⟩ := commitException_follows ha hf h₁
    exact ⟨sq₁, by rw [hs₁]; rfl, hf₁⟩
  · rename_i hex
    have hs' := hs (by simpa using hex)
    have hblocked : ∀ c n st, storeBlocked c n item st = some false := fun c n st => by
      simp [storeBlocked, hs']
    have hstore : ∀ c st, commitStore c writeAck id item st = some (st, true) := fun c st => by
      simp [commitStore, hs']
    rw [if_neg hex, hblocked]
    rw [hblocked] at h
    simp only [Option.bind_some, Bool.false_eq_true, if_false] at h ⊢
    unfold commitHandles at h ⊢
    rcases andThen_eq_some h with ⟨st₁, h₁, h⟩ | ⟨h₁, hgo⟩
    · obtain ⟨sq₁, hs₁, hf₁⟩ := commitLoad_follows ha hf h₁
      rw [hstore] at h
      simp only [andThen, Option.bind_some, if_true] at h
      obtain ⟨st₂, h₂, h₃⟩ := Option.bind_eq_some_iff.mp h
      obtain ⟨sq₂, hs₂, hf₂⟩ := commitRetire_follows ha hf₁ h₂
      obtain ⟨sq₃, hs₃, hf₃⟩ := commitBranch_follows ha hf₂ h₃
      refine ⟨sq₃, ?_, hf₃⟩
      rw [hs₁]
      simp only [andThen, Option.bind_some, if_true, hstore, hs₂, hs₃]
    · dsimp only at hgo
      subst hgo
      obtain ⟨sq₁, hs₁, hf₁⟩ := commitLoad_follows ha hf h₁
      exact ⟨sq₁, by rw [hs₁]; rfl, hf₁⟩

/-! ## Why the snapshots read alike -/

/-- Every id popped in a window was popped for one of its instructions. -/
theorem popped_entry {base : Shadow} {fl : List Flight} {j : Nat} (h₁ : base.free ≤ j)
    (h₂ : j < (tip base fl).free) :
    ∃ l₁ f l₂, fl = l₁ ++ f :: l₂ ∧ f.info.allocates = true ∧ (tip base l₁).free = j := by
  induction fl using List.reverseRecOn with
  | nil => exact absurd h₂ (by simpa using h₁)
  | append_singleton fl f ih =>
    by_cases hlt : j < (tip base fl).free
    · obtain ⟨l₁, f', l₂, rfl, hal, hj⟩ := ih hlt
      exact ⟨l₁, f', l₂ ++ [f], by simp, hal, hj⟩
    · rw [tip, Window.tip_snoc, ← tip] at h₂
      have hal : f.info.allocates = true := by
        cases hal : f.info.allocates with
        | true => rfl
        | false =>
          simp only [advance, hal, Bool.toNat_false] at h₂
          omega
      simp only [advance, hal, Bool.toNat_true] at h₂
      exact ⟨fl, f, [], rfl, hal, by omega⟩

variable {g₀ : Ghost} {k : Nat}

/-- **A popped id stays in its slot** while the instructions before it retire. -/
theorem Inv.popped_eq (hcur : Inv cur g₀) (h : Inv s (g₀.retireN k)) {j : Nat}
    (h₁ : (g₀.retireN k).base.free ≤ j) (h₂ : j < g₀.tip.free) :
    s.phyIdFreeList.ring.buffer (j % phyRegNum) = cur.phyIdFreeList.ring.buffer (j % phyRegNum) := by
  rw [← g₀.retireN_tip k] at h₂
  obtain ⟨l₁, f, l₂, hl, hal, rfl⟩ := popped_entry h₁ h₂
  have hold : g₀.flight = (g₀.flight.take k ++ l₁) ++ f :: l₂ := by
    rw [List.append_assoc, ← hl, Ghost.retireN_flight, List.take_append_drop]
  have htip : tip g₀.base (g₀.flight.take k ++ l₁) = tip (g₀.retireN k).base l₁ := by
    rw [Ghost.retireN_base, tip, tip, tip, Window.tip_append]
  have hcell := ((hcur.entry hold).dest hal).2
  rw [htip] at hcell
  rw [((h.entry hl).dest hal).2, hcell]

/-- **After `k` turns** the snapshot of a synced machine reads as the one the cycle began with. -/
theorem Committing.readsAlike (hc : Committing cur g₀ k st) (hcur : Inv cur g₀)
    (hs : s = { st.new with committed := b })
    (hconf : st.new.loadQueue.itemConflict = cur.loadQueue.itemConflict)
    (hid : Fifo.customerGetFrontId cur.rob st.new.rob = some id)
    (hcsr : st.new.csrFile = cur.csrFile) : cur.ReadsAlike s (cur.rob.buffer id) := by
  obtain ⟨-, f, rest, hf, -, ht, -⟩ := hc.front hid
  have hrest : ∀ a, (g₀.retireN k).base.free ≤ a → a ≤ g₀.tip.free → ∀ new,
      FreeList.restore s.phyIdFreeList new (Ptr.fold phyRegNum a)
        = FreeList.restore cur.phyIdFreeList new (Ptr.fold phyRegNum a) := by
    intro a h₁ h₂
    have hfreed := hc.inv.freed_le
    have hle := hc.inv.free.le
    rw [Ghost.retireN_tip] at hle
    have hrptr := hc.inv.free.rptr
    rw [Ghost.retireN_tip] at hrptr
    refine FreeList.restore_congr (by decide) hcur.free.rptr (by rw [hs]; exact hrptr) h₂
      (by simp only [archRegNum] at hfreed; omega) fun j hj hj' => ?_
    rw [hs]
    exact hcur.popped_eq hc.inv (by omega) hj'
  have htip : (advance f (g₀.retireN k).base).free ≤ g₀.tip.free := by
    rw [← g₀.retireN_tip k]
    exact (g₀.retireN k).advance_free_le_tip (show _ = [] ++ f :: rest from hf)
  have hbase := advance_free_le f (g₀.retireN k).base
  refine ⟨?_, ?_, ?_, ?_, ?_, ?_, ?_, ?_⟩
  · rw [hs]
    exact hc.tail.robWptr.symm
  · rw [hs]
    exact hc.tail.ckWptr.symm
  · rw [hs]
    exact hc.tail.lqWptr.symm
  · rw [hs]
    exact hc.tail.freeRptr.symm
  · rw [hs]
    exact hconf
  · rw [ht.oldFree]
    exact hrest _ (Nat.le_refl _) (by omega)
  · rw [ht.newFree]
    exact hrest _ hbase htip
  · rw [hs]
    exact hcsr

/-! ## A turn behind the first -/

/-- What a turn of the wide commit that goes on leaves alone. -/
structure CommitState.Keeps (cur : Core) (st : CommitState) : Prop where
  conflict : st.new.loadQueue.itemConflict = cur.loadQueue.itemConflict
  csr : (∀ e ∈ st.retireQueue, e.2.csrNewvalueValid = false) → st.new.csrFile = cur.csrFile

/-- Such an entry has been handled when its turn is over. -/
theorem commitFinished_handles {i : Nat} {writeAck : Option BusErrno} (hplain : item.PlainLoad)
    (hs : item.hasException = false → item.storeBufferIdValid = false) (hq : st.retireQueue = [])
    (h : commitFinished cur writeAck i id item st = some (st', go)) : st'.HandlesOne := by
  unfold commitFinished at h
  split at h
  · obtain ⟨st₁, h₁, he⟩ := Option.map_eq_some_iff.mp h
    cases he
    obtain ⟨-, hl⟩ := commitException_eq_some h₁
    exact .inl (by rw [hl.retireQueue, hq]; rfl)
  · rename_i hex
    have hs' := hs (by simpa using hex)
    have hblocked : storeBlocked cur i item st = some false := by simp [storeBlocked, hs']
    rw [hblocked] at h
    simp only [Option.bind_some, Bool.false_eq_true, if_false] at h
    rcases andThen_eq_some h with ⟨st₁, h₁, h⟩ | ⟨h₁, hgo⟩
    · have hq₁ : st₁.retireQueue = [] := by
        rcases commitLoad_cases hplain h₁ with ⟨-, rfl, -⟩ | ⟨-, -, hg, -⟩ | ⟨-, -, -, rfl⟩
        · exact hq
        · cases hg
        · exact hq
      have hstore : commitStore cur writeAck id item st₁ = some (st₁, true) := by
        simp [commitStore, hs']
      rw [hstore] at h
      simp only [andThen, Option.bind_some, if_true] at h
      obtain ⟨st₂, h₂, h₃⟩ := Option.bind_eq_some_iff.mp h
      obtain ⟨-, -, hq₂, -⟩ := commitRetire_eq_some h₂
      obtain ⟨-, hq₃, -⟩ := commitBranch_report h₃
      exact .inl (by rw [hq₃, hq₂, hq₁]; rfl)
    · dsimp only at hgo
      subst hgo
      rcases commitLoad_cases hplain h₁ with ⟨-, -, hg⟩ | ⟨-, -, -, -, hl⟩ | ⟨-, -, hg, -⟩
      · cases hg
      · exact .inr ⟨by rw [hl.retireQueue, hq]; rfl, hl.needFlush⟩
      · cases hg

/-- **The loop goes on behind an entry that has retired** and left the flags of the load queue
alone, and the CSR file as well unless it writes it. -/
theorem commitOne_keeps {firstId i : Nat} {writeAck : Option BusErrno}
    (hplain : ∀ id, Fifo.customerGetFrontId cur.rob st.new.rob = some id →
      (cur.rob.buffer id).finish = true → (cur.rob.buffer id).PlainLoad)
    (hk : st.Keeps cur) (h : commitOne cur writeAck firstId i st = some (st', true)) :
    st'.Keeps cur := by
  unfold commitOne at h
  split at h
  · cases h
  rename_i id hid
  dsimp only [Fifo.customerGetItem] at h
  split at h
  · cases h
  rename_i hfin
  rw [Bool.not_eq_true', Bool.not_eq_false] at hfin
  obtain ⟨⟨next, v⟩, -, h⟩ := Option.bind_eq_some_iff.mp h
  unfold commitFinished at h
  split at h
  · obtain ⟨_, -, he⟩ := Option.map_eq_some_iff.mp h
    cases he
  obtain ⟨blocked, -, h⟩ := Option.bind_eq_some_iff.mp h
  split at h
  · cases h
  rcases andThen_eq_some h with ⟨st₁, h₁, h⟩ | ⟨-, hgo⟩
  swap
  · cases hgo
  rcases andThen_eq_some h with ⟨st₂, h₂, h⟩ | ⟨-, hgo⟩
  swap
  · cases hgo
  obtain ⟨st₃, h₃, h₄⟩ := Option.bind_eq_some_iff.mp h
  -- the handles up to the retirement write neither
  obtain ⟨hlog, wait, ring, hnew⟩ := commitHandles_retire (hplain id hid hfin) h₁ h₂
  simp only [commitRetire, Option.bind_eq_bind, Option.bind_eq_some_iff] at h₃
  obtain ⟨n, hn, h₃⟩ := h₃
  cases h₃
  obtain ⟨-, hcsr, hlq⟩ := retireMap_frame hn
  rw [hnew] at hcsr hlq
  rcases commitBranch_cases h₄ with ⟨-, rfl, -⟩ | ⟨-, hgo, -⟩
  swap
  · cases hgo
  refine ⟨?_, fun hq => ?_⟩
  · have hl : (retireEffects n (cur.rob.buffer id)).loadQueue = n.loadQueue := by
      unfold retireEffects
      split <;> split <;> rfl
    dsimp only
    rw [hl, hlq]
    exact hk.conflict
  · have hlast : (cur.rob.buffer id).csrNewvalueValid = false := hq (id, _) (by simp)
    have hc : (retireEffects n (cur.rob.buffer id)).csrFile = n.csrFile := by
      unfold retireEffects
      rw [hlast]
      split <;> rfl
    dsimp only
    rw [hc, hcsr]
    refine hk.csr fun e he => hq e ?_
    dsimp only
    rw [hlog.retireQueue]
    exact List.mem_append_left _ he

/-- `sq` is where the loop of a cycle that begins in `s` starts. -/
structure CommitState.Starts (s : Core) (sq : CommitState) : Prop where
  new : sq.new = { s with committed := false }
  retireQueue : sq.retireQueue = []
  needFlush : sq.needFlush = false

/-- **A turn behind the first**: the entry is left for a later cycle, or a machine whose registers
hold what the turns before have written does with it in its first turn what the wide commit
does in this one. -/
theorem commitOne_follows {firstId : Nat} {writeAck : Option BusErrno}
    (hc : Committing cur g₀ k st) (hcur : Inv cur g₀) (hpos : k ≠ 0) (hk : st.Keeps cur)
    (hcsr : ∀ id, Fifo.customerGetFrontId cur.rob st.new.rob = some id →
      (cur.rob.buffer id).finish = true → ∀ e ∈ st.retireQueue, e.2.csrNewvalueValid = false)
    (h : commitOne cur writeAck firstId k st = some (st', go)) :
    (go = false ∧ st'.new = st.new ∧ st'.retireQueue = st.retireQueue
      ∧ st'.needFlush = st.needFlush) ∨
    ∀ s : Core, s = { st.new with committed := s.committed } →
      ∃ first, Fifo.customerGetFrontId s.rob s.rob = some first ∧ ∀ sq, sq.Starts s →
        ∃ sq', commitOne s writeAck first 0 sq = some (sq', go)
          ∧ st'.Follows st.retireQueue st.new.committed sq' ∧ sq'.HandlesOne := by
  unfold commitOne at h
  split at h
  · cases h
    exact .inl ⟨rfl, rfl, rfl, rfl⟩
  rename_i id hid
  dsimp only [Fifo.customerGetItem] at h
  split at h
  · cases h
    exact .inl ⟨rfl, rfl, rfl, rfl⟩
  rename_i hfin
  rw [Bool.not_eq_true', Bool.not_eq_false] at hfin
  obtain ⟨⟨next, v⟩, hnext, h⟩ := Option.bind_eq_some_iff.mp h
  by_cases hwait : (cur.rob.buffer id).hasException = false
      ∧ (cur.rob.buffer id).storeBufferIdValid = true
  · -- a store behind the first turn waits for a cycle of its own
    unfold commitFinished storeBlocked at h
    rw [if_neg (by simp [hwait.1])] at h
    simp only [hwait.2, Bool.not_true, Bool.false_eq_true, if_false, ne_eq, hpos, not_false_eq_true,
      if_true, Option.bind_some] at h
    cases h
    exact .inl ⟨rfl, rfl, rfl, rfl⟩
  have hno : (cur.rob.buffer id).hasException = false →
      (cur.rob.buffer id).storeBufferIdValid = false := by
    intro hex
    simpa [hex] using hwait
  refine .inr fun s hs => ?_
  have ha := hc.readsAlike hcur hs hk.conflict hid (hk.csr (hcsr id hid hfin))
  have hrptr : s.rob.rptr = st.new.rob.rptr := by rw [hs]
  have hbuf : s.rob.buffer = cur.rob.buffer := by
    rw [hs]
    exact hc.tail.robBuffer.symm
  have hfront : Fifo.customerGetFrontId s.rob s.rob = some id := by
    rw [← hid]
    unfold Fifo.customerGetFrontId Fifo.customerIsEmpty
    rw [hrptr, ha.robWptr]
  refine ⟨id, hfront, fun sq hsq => ?_⟩
  obtain ⟨hnew, hq, hn⟩ := hsq
  have hnext' : Fifo.customerGetNextId s.rob sq.new.rob id = some (next, v) := by
    rw [← hnext, hnew]
    unfold Fifo.customerGetNextId Fifo.customerCheckIdValid
    dsimp only
    rw [hrptr, ha.robWptr]
  -- where the narrow commit starts its turn
  have hstart : st.Follows st.retireQueue st.new.committed sq := by
    refine ⟨?_, ?_, ?_, ?_⟩
    · rw [hnew, hs]
    · rw [hnew]
      simp
    · rw [hq, List.append_nil]
    · rw [hn, hc.needFlush]
  have hseen : (commitSeen k id (if v && next != firstId then some next else none) st).Follows
      st.retireQueue st.new.committed
      (commitSeen 0 id (if v && next != id then some next else none) sq) :=
    ⟨hstart.new, hstart.committed, hstart.queue, hstart.needFlush⟩
  obtain ⟨sq', hturn, hfol⟩ := commitFinished_follows (j := 0) ha hno hseen h
  refine ⟨sq', ?_, hfol, ?_⟩
  · unfold commitOne
    rw [show sq.new.rob = s.rob by rw [hnew], hfront]
    dsimp only [Fifo.customerGetItem]
    rw [hbuf, hfin]
    rw [hnew] at hnext'
    simp only [Bool.not_true, Bool.false_eq_true, if_false, hnext', Option.bind_some]
    exact hturn
  · refine commitFinished_handles (hc.plainLoad hid hfin) hno ?_ hturn
    exact hq

end DreamCore
