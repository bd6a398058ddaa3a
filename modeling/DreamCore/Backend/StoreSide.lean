import DreamCore.Backend.CommitEffect

/-!
# Commit and the stores

The store side of commit: the retired store buffer, the wait for a
noncacheable write, and the cells of the store buffer. A turn behind the first
never touches it, because a store only retires as the first of its group. So
what a cycle does to it is what its first turn does.
-/

namespace DreamCore

open Ring

/-- The store of a ROB entry, as the store buffer holds it. -/
def Core.storeOf (cur : Core) (item : RobItem) : RetiredStoreBufferItem :=
  ⟨cur.storeBuffer.itemAddr item.storeBufferId, cur.storeBuffer.itemSize item.storeBufferId,
    (cur.storeBuffer.ring.buffer item.storeBufferId).data⟩

/-- The cacheable stores among the entries a cycle retired, in program order. -/
def Core.retiredStores (cur : Core) (retired : List (Nat × RobItem)) :
    List RetiredStoreBufferItem :=
  ((retired.filter fun e => e.2.storeBufferIdValid).map fun e => cur.storeOf e.2).filter
    fun s => isCacheable s.addr

/-- The cells of the store buffer are the same. -/
structure Core.SameCells (s s' : Core) : Prop where
  addr : s'.storeBuffer.itemAddr = s.storeBuffer.itemAddr
  size : s'.storeBuffer.itemSize = s.storeBuffer.itemSize
  cells : s'.storeBuffer.ring.buffer = s.storeBuffer.ring.buffer

/-- The whole store side is the same, but for the pointers of the store buffer. -/
structure Core.SameStores (s s' : Core) : Prop extends s.SameCells s' where
  retired : s'.retiredStoreBuffer = s.retiredStoreBuffer
  waiting : s'.isWaitingAck = s.isWaitingAck

namespace Core.SameCells

theorem refl (s : Core) : s.SameCells s := ⟨rfl, rfl, rfl⟩

theorem trans {s s' s'' : Core} (h : s.SameCells s') (h' : s'.SameCells s'') : s.SameCells s'' :=
  ⟨h'.addr.trans h.addr, h'.size.trans h.size, h'.cells.trans h.cells⟩

end Core.SameCells

namespace Core.SameStores

theorem refl (s : Core) : s.SameStores s := ⟨.refl s, rfl, rfl⟩

theorem trans {s s' s'' : Core} (h : s.SameStores s') (h' : s'.SameStores s'') :
    s.SameStores s'' :=
  ⟨h.toSameCells.trans h'.toSameCells, h'.retired.trans h.retired, h'.waiting.trans h.waiting⟩

end Core.SameStores

variable {cur : Core} {st st' : CommitState} {id : Nat} {item : RobItem} {go : Bool}
  {writeAck : Option BusErrno}

/-- `st'` has retired `l` on top of what `st` had, and goes on only without an exception. -/
structure CommitState.Logs (st st' : CommitState) (l : List (Nat × RobItem)) (go : Bool) :
    Prop where
  retired : st'.retired = st.retired ++ l
  goes : go = true → st'.feedback.hasException = false

/-- None of the entries is a store. -/
def NoStore (l : List (Nat × RobItem)) : Prop := ∀ e ∈ l, e.2.storeBufferIdValid = false

theorem NoStore.retiredStores {l : List (Nat × RobItem)} (h : NoStore l) :
    cur.retiredStores l = [] := by
  have hnil : l.filter (fun e => e.2.storeBufferIdValid) = [] := by
    rw [List.filter_eq_nil_iff]
    intro e he hs
    rw [h e he] at hs
    cases hs
  rw [Core.retiredStores, hnil]
  rfl

theorem CommitState.retired_eq (h : st.feedback.hasException = false) :
    st.retired = st.retireQueue := by
  rw [CommitState.retired, h]
  rfl

/-- Nothing retired. -/
theorem CommitState.Logs.same (hex : st.feedback.hasException = false)
    (h₁ : st'.feedback.hasException = st.feedback.hasException)
    (h₂ : st'.retireQueue = st.retireQueue) : st.Logs st' [] go := by
  rw [hex] at h₁
  refine ⟨?_, fun _ => h₁⟩
  rw [CommitState.retired_eq h₁, CommitState.retired_eq hex, h₂, List.append_nil]

/-- One entry retired. -/
theorem CommitState.Logs.one (hex : st.feedback.hasException = false)
    (h₁ : st'.feedback.hasException = st.feedback.hasException)
    (h₂ : st'.retireQueue = st.retireQueue ++ [(id, item)]) : st.Logs st' [(id, item)] go := by
  rw [hex] at h₁
  refine ⟨?_, fun _ => h₁⟩
  rw [CommitState.retired_eq h₁, CommitState.retired_eq hex, h₂]

/-! ## The handles that are no store handle -/

theorem flushPipeline_stores {s s' : Core} {rptr : Ptr} (h : flushPipeline cur s rptr = some s') :
    s.SameStores s' := by
  simp only [flushPipeline, Option.bind_eq_bind, Option.bind_eq_some_iff] at h
  obtain ⟨_, -, h⟩ := h
  cases h
  exact ⟨⟨rfl, rfl, rfl⟩, rfl, rfl⟩

theorem commitException_stores {e : RiscvException} {v : Word}
    (hex : st.feedback.hasException = false)
    (h : commitException cur id item e v st = some st') :
    st.new.SameStores st'.new ∧ st.Logs st' [] false := by
  simp only [commitException, Option.bind_eq_bind, Option.bind_eq_some_iff] at h
  obtain ⟨s, hs, h⟩ := h
  cases h
  refine ⟨(flushPipeline_stores hs).trans ⟨⟨rfl, rfl, rfl⟩, rfl, rfl⟩, ?_, fun hc => by cases hc⟩
  rw [CommitState.retired_eq hex]
  simp [CommitState.retired]

theorem commitLoad_stores (hex : st.feedback.hasException = false)
    (h : commitLoad cur item st = some (st', go)) :
    st.new.SameStores st'.new ∧ st.Logs st' [] go := by
  unfold commitLoad at h
  split at h
  · cases h
    exact ⟨.refl _, .same hex rfl rfl⟩
  · split at h
    · simp only [Option.bind_eq_bind, Option.bind_eq_some_iff] at h
      obtain ⟨s, hs, h⟩ := h
      cases h
      exact ⟨flushPipeline_stores hs, .same hex rfl rfl⟩
    · cases h
      exact ⟨⟨⟨rfl, rfl, rfl⟩, rfl, rfl⟩, .same hex rfl rfl⟩

theorem retireEffects_stores (s : Core) (item : RobItem) :
    s.SameStores (retireEffects s item) := by
  unfold retireEffects
  split <;> split <;> exact ⟨⟨rfl, rfl, rfl⟩, rfl, rfl⟩

theorem commitRetire_stores (hex : st.feedback.hasException = false)
    (h : commitRetire cur id item st = some st') :
    st.new.SameStores st'.new ∧ st.Logs st' [(id, item)] true := by
  simp only [commitRetire, Option.bind_eq_bind, Option.bind_eq_some_iff] at h
  obtain ⟨s, hs, h⟩ := h
  cases h
  have hmap : st.new.SameStores s := by
    unfold retireMap at hs
    split at hs
    · simp only [Option.bind_eq_bind, Option.bind_eq_some_iff] at hs
      obtain ⟨_, -, _, -, hs⟩ := hs
      cases hs
      exact ⟨⟨rfl, rfl, rfl⟩, rfl, rfl⟩
    · cases hs
      exact ⟨⟨rfl, rfl, rfl⟩, rfl, rfl⟩
  exact ⟨hmap.trans (retireEffects_stores s item), .one hex rfl rfl⟩

theorem commitBranch_stores (hex : st.feedback.hasException = false)
    (h : commitBranch cur item st = some (st', go)) :
    st.new.SameStores st'.new ∧ st.Logs st' [] go := by
  have hmret : st.new.SameStores (commitMret cur item st).new
      ∧ (commitMret cur item st).feedback = st.feedback
      ∧ (commitMret cur item st).retireQueue = st.retireQueue := by
    unfold commitMret
    split
    · exact ⟨⟨⟨rfl, rfl, rfl⟩, rfl, rfl⟩, rfl, rfl⟩
    · exact ⟨.refl _, rfl, rfl⟩
  obtain ⟨hsame, hfb, hq⟩ := hmret
  have hmex : (commitMret cur item st).feedback.hasException = st.feedback.hasException := by
    rw [hfb]
  unfold commitBranch at h
  split at h
  · cases h
    exact ⟨.refl _, .same hex rfl rfl⟩
  · split at h
    · obtain ⟨st₁, h₁, he⟩ := Option.map_eq_some_iff.mp h
      cases he
      simp only [commitPredicted] at h₁
      split at h₁
      · cases h₁
        exact ⟨hsame.trans ⟨⟨rfl, rfl, rfl⟩, rfl, rfl⟩, .same hex hmex hq⟩
      · split at h₁
        · cases h₁
        · split at h₁
          · cases h₁
            exact ⟨hsame.trans ⟨⟨rfl, rfl, rfl⟩, rfl, rfl⟩, .same hex hmex hq⟩
          · simp only [commitMispredict, Option.bind_eq_bind, Option.bind_eq_some_iff] at h₁
            obtain ⟨s, hs, h₁⟩ := h₁
            cases h₁
            exact ⟨hsame.trans (flushPipeline_stores hs), .same hex hmex hq⟩
    · cases h
      exact ⟨hsame, .same hex hmex hq⟩

/-! ## One turn -/

/-- The finished entry `item` is a noncacheable store that nothing keeps from the bus. -/
structure Core.Asks (cur : Core) (item : RobItem) : Prop where
  finish : item.finish = true
  hasException : item.hasException = false
  noLoad : item.loadQueueIdValid = false
  store : item.storeBufferIdValid = true
  device : isCacheable (cur.storeOf item).addr = false

/-- What one turn does to the store side. -/
inductive StoreTurn (cur : Core) (writeAck : Option BusErrno) (st st' : CommitState)
    (go : Bool) : Prop where
  | quiet (l : List (Nat × RobItem)) :
      (∀ id, Fifo.customerGetFrontId cur.rob st.new.rob = some id →
        ¬ cur.Asks (cur.rob.buffer id)) →
      st.new.SameStores st'.new → st.Logs st' l go → NoStore l → StoreTurn cur writeAck st st' go
  /-- A cacheable store retires into the retired store buffer. -/
  | pushed (id : Nat) (item : RobItem) (ring : Fifo retiredStoreBufferSize RetiredStoreBufferItem) :
      item.storeBufferIdValid = true → st.new.isWaitingAck = false →
      isCacheable (cur.storeOf item).addr = true →
      (cur.storeOf item).size = 1 ∨ (cur.storeOf item).size = 2 ∨ (cur.storeOf item).size = 4 →
      Fifo.push cur.retiredStoreBuffer.ring st.new.retiredStoreBuffer.ring (cur.storeOf item)
        = some ring →
      st'.new.retiredStoreBuffer = { st.new.retiredStoreBuffer with ring := ring } →
      st'.new.isWaitingAck = false → st.new.SameCells st'.new →
      st.Logs st' [(id, item)] go → StoreTurn cur writeAck st st' go
  /-- A noncacheable store goes to the bus. -/
  | asked (id : Nat) :
      Fifo.customerGetFrontId cur.rob st.new.rob = some id → cur.Asks (cur.rob.buffer id) →
      st.new.isWaitingAck = false → st'.new.isWaitingAck = true →
      st'.new.retiredStoreBuffer = st.new.retiredStoreBuffer → st.new.SameCells st'.new →
      st.Logs st' [] false → st'.feedback.flush = st.feedback.flush → go = false →
      StoreTurn cur writeAck st st' go
  /-- The bus has not answered yet. -/
  | waits : st.new.isWaitingAck = true → writeAck = none → st.new.SameStores st'.new →
      st.Logs st' [] false → st'.feedback.flush = st.feedback.flush → go = false →
      StoreTurn cur writeAck st st' go
  /-- The bus has answered, and the entry at the front retires. -/
  | answered (id : Nat) :
      Fifo.customerGetFrontId cur.rob st.new.rob = some id →
      st.new.isWaitingAck = true → writeAck = some .none → st'.new.isWaitingAck = false →
      st'.new.retiredStoreBuffer = st.new.retiredStoreBuffer → st.new.SameCells st'.new →
      st.Logs st' [(id, cur.rob.buffer id)] go → StoreTurn cur writeAck st st' go
  /-- The bus has answered with an error. -/
  | failed : st.new.isWaitingAck = true → writeAck = some .error →
      st'.new.isWaitingAck = false →
      st'.new.retiredStoreBuffer = st.new.retiredStoreBuffer → st.new.SameCells st'.new →
      st.Logs st' [] false → go = false → StoreTurn cur writeAck st st' go

theorem CommitState.Logs.trans {st₁ : CommitState} {l₁ l₂ : List (Nat × RobItem)} {g : Bool}
    (h₁ : st.Logs st₁ l₁ g) (h₂ : st₁.Logs st' l₂ go) : st.Logs st' (l₁ ++ l₂) go :=
  ⟨by rw [h₂.retired, h₁.retired, List.append_assoc], h₂.goes⟩

/-- The retirement of an entry whose store part is done. -/
theorem retireBranch_stores (hex : st.feedback.hasException = false)
    (h : (commitRetire cur id item st).bind (commitBranch cur item) = some (st', go)) :
    st.new.SameStores st'.new ∧ st.Logs st' [(id, item)] go := by
  obtain ⟨st₁, h₁, h₂⟩ := Option.bind_eq_some_iff.mp h
  obtain ⟨hs₁, hl₁⟩ := commitRetire_stores hex h₁
  obtain ⟨hs₂, hl₂⟩ := commitBranch_stores (hl₁.goes rfl) h₂
  exact ⟨hs₁.trans hs₂, hl₁.trans hl₂⟩

/-- **The store handle at a store.** -/
inductive StoreHandle (cur : Core) (writeAck : Option BusErrno) (item : RobItem)
    (st st' : CommitState) (go : Bool) : Prop where
  | waits : st.new.isWaitingAck = true → writeAck = none → st' = st → go = false →
      StoreHandle cur writeAck item st st' go
  | failed : st.new.isWaitingAck = true → writeAck = some .error → go = false →
      st'.new.isWaitingAck = false → st'.new.retiredStoreBuffer = st.new.retiredStoreBuffer →
      st.new.SameCells st'.new → st.Logs st' [] false → StoreHandle cur writeAck item st st' go
  | answered : st.new.isWaitingAck = true → writeAck = some .none → go = true →
      st'.new.isWaitingAck = false → st'.new.retiredStoreBuffer = st.new.retiredStoreBuffer →
      st.new.SameCells st'.new → st.Logs st' [] true → StoreHandle cur writeAck item st st' go
  | pushed (ring : Fifo retiredStoreBufferSize RetiredStoreBufferItem) :
      st.new.isWaitingAck = false → isCacheable (cur.storeOf item).addr = true →
      (cur.storeOf item).size = 1 ∨ (cur.storeOf item).size = 2 ∨ (cur.storeOf item).size = 4 →
      Fifo.push cur.retiredStoreBuffer.ring st.new.retiredStoreBuffer.ring (cur.storeOf item)
        = some ring → go = true → st'.new.isWaitingAck = false →
      st'.new.retiredStoreBuffer = { st.new.retiredStoreBuffer with ring := ring } →
      st.new.SameCells st'.new → st.Logs st' [] true → StoreHandle cur writeAck item st st' go
  | asked : st.new.isWaitingAck = false → isCacheable (cur.storeOf item).addr = false →
      go = false → st'.new.isWaitingAck = true →
      st'.new.retiredStoreBuffer = st.new.retiredStoreBuffer → st.new.SameCells st'.new →
      st.Logs st' [] false → st'.feedback.flush = st.feedback.flush →
      StoreHandle cur writeAck item st st' go

theorem commitStore_store (hex : st.feedback.hasException = false)
    (hv : item.storeBufferIdValid = true)
    (h : commitStore cur writeAck id item st = some (st', go)) :
    StoreHandle cur writeAck item st st' go := by
  unfold commitStore at h
  rw [hv] at h
  simp only [Bool.not_true, Bool.false_eq_true, if_false, Option.bind_eq_bind,
    Option.bind_eq_some_iff] at h
  obtain ⟨tItem, hitem, addr, haddr, size, hsize, _, hguard, h⟩ := h
  have hread : (⟨addr, size, tItem.data⟩ : RetiredStoreBufferItem) = cur.storeOf item := by
    simp only [StoreBuffer.getItem, StoreBuffer.getSize, Option.bind_eq_bind,
      Option.bind_eq_some_iff] at hitem hsize
    obtain ⟨_, -, hitem⟩ := hitem
    obtain ⟨_, -, hsize⟩ := hsize
    cases hitem
    cases hsize
    rw [StoreBuffer.getAddr_eq_some haddr]
    rfl
  have haddr' : (cur.storeOf item).addr = addr := by rw [← hread]
  have hsize' : (cur.storeOf item).size = size := by rw [← hread]
  have hwidth : size = 1 ∨ size = 2 ∨ size = 4 := by
    by_contra hc
    unfold guard at hguard
    rw [if_neg hc] at hguard
    cases hguard
  rcases Bool.eq_false_or_eq_true st.new.isWaitingAck with hw | hw
  · rw [hw, if_pos rfl] at h
    split at h
    · cases h
      exact .waits hw rfl rfl rfl
    · rename_i errno
      split at h
      · rename_i herr
        obtain ⟨st₁, h₁, h⟩ := Option.bind_eq_some_iff.mp h
        cases h
        obtain ⟨hs, hl⟩ := commitException_stores (by exact hex) h₁
        exact .failed hw (congrArg some herr) rfl hs.waiting hs.retired
          ⟨hs.addr, hs.size, hs.cells⟩ ⟨hl.retired, hl.goes⟩
      · rename_i herr
        cases h
        have herrno : errno = .none := by cases errno <;> simp_all
        exact .answered hw (congrArg some herrno) rfl rfl rfl ⟨rfl, rfl, Fifo.drop_buffer⟩
          (.same hex rfl rfl)
  · rw [hw, if_neg Bool.false_ne_true] at h
    split at h
    · rename_i hc
      obtain ⟨ring, hring, h⟩ := Option.bind_eq_some_iff.mp h
      cases h
      rw [hread] at hring
      exact .pushed ring hw (haddr'.symm ▸ hc) (hsize'.symm ▸ hwidth) hring rfl rfl rfl
        ⟨rfl, rfl, Fifo.drop_buffer⟩ (.same hex rfl rfl)
    · rename_i hc
      cases h
      exact .asked hw (by rw [haddr']; simpa using hc) rfl rfl rfl ⟨rfl, rfl, rfl⟩
        (.same hex rfl rfl) rfl

/-- **The handles of the entry at the front.** -/
theorem commitHandles_store (hex : st.feedback.hasException = false)
    (hplain : (cur.rob.buffer id).PlainLoad)
    (hid : Fifo.customerGetFrontId cur.rob st.new.rob = some id)
    (hfin : (cur.rob.buffer id).finish = true)
    (hne : (cur.rob.buffer id).hasException = false)
    (h : commitHandles cur writeAck id (cur.rob.buffer id) st = some (st', go)) :
    StoreTurn cur writeAck st st' go := by
  have hfront : ¬ cur.Asks (cur.rob.buffer id) → ∀ id',
      Fifo.customerGetFrontId cur.rob st.new.rob = some id' → ¬ cur.Asks (cur.rob.buffer id') := by
    intro hn id' hid'
    rw [hid] at hid'
    rwa [← Option.some.inj hid']
  rcases andThen_eq_some h with ⟨st₁, h₁, hrest⟩ | ⟨hload, hgo⟩
  · obtain ⟨hs₁, hl₁⟩ := commitLoad_stores hex h₁
    have hex₁ := hl₁.goes rfl
    cases hv : (cur.rob.buffer id).storeBufferIdValid with
    | false =>
      have hskip : commitStore cur writeAck id (cur.rob.buffer id) st₁ = some (st₁, true) := by
        unfold commitStore
        rw [hv]
        rfl
      rcases andThen_eq_some hrest with ⟨st₂, h₂, h₃⟩ | ⟨h₂, hgo⟩
      · rw [hskip] at h₂
        cases h₂
        obtain ⟨hs₃, hl₃⟩ := retireBranch_stores hex₁ h₃
        refine .quiet _ (hfront fun ha => ?_) (hs₁.trans hs₃) (hl₁.trans hl₃) ?_
        · rw [ha.store] at hv
          cases hv
        · intro e he
          rw [List.nil_append, List.mem_singleton] at he
          rw [he]
          exact hv
      · rw [hskip] at h₂
        cases h₂
        cases hgo
    | true =>
      have hnl : (cur.rob.buffer id).loadQueueIdValid = false := by
        rw [Bool.eq_false_iff]
        intro hl
        rw [(hplain hl).2] at hv
        cases hv
      have hst₁ : st₁ = st := by
        unfold commitLoad at h₁
        rw [hnl] at h₁
        cases h₁
        rfl
      subst hst₁
      rcases andThen_eq_some hrest with ⟨st₂, h₂, h₃⟩ | ⟨h₂, hgo⟩
      · cases commitStore_store hex hv h₂ with
        | waits _ _ _ hgo => cases hgo
        | failed _ _ hgo => cases hgo
        | asked _ _ hgo => cases hgo
        | answered hw hack _ hw' hr hc hl =>
          obtain ⟨hs₃, hl₃⟩ := retireBranch_stores (hl.goes rfl) h₃
          exact .answered id hid hw hack (hs₃.waiting.trans hw') (hs₃.retired.trans hr)
            (hc.trans hs₃.toSameCells) (hl.trans hl₃)
        | pushed ring hw hca hsize hring _ hw' hr hc hl =>
          obtain ⟨hs₃, hl₃⟩ := retireBranch_stores (hl.goes rfl) h₃
          exact .pushed id _ ring hv hw hca hsize hring (hs₃.retired.trans hr)
            (hs₃.waiting.trans hw') (hc.trans hs₃.toSameCells) (hl.trans hl₃)
      · dsimp only at hgo
        subst hgo
        cases commitStore_store hex hv h₂ with
        | waits hw hack he _ =>
          subst he
          exact .waits hw hack (.refl _) (.same hex rfl rfl) rfl rfl
        | failed hw hack _ hw' hr hc hl => exact .failed hw hack hw' hr hc hl rfl
        | answered _ _ hgo => cases hgo
        | pushed _ _ _ _ _ hgo => cases hgo
        | asked hw hd _ hw' hr hc hl hfl =>
          exact .asked id hid ⟨hfin, hne, hnl, hv, hd⟩ hw hw' hr hc hl hfl rfl
  · dsimp only at hgo
    subst hgo
    obtain ⟨hs₁, hl₁⟩ := commitLoad_stores hex hload
    refine .quiet [] (hfront fun ha => ?_) hs₁ hl₁ (fun e he => by cases he)
    -- the load handle only stops at a load
    unfold commitLoad at hload
    rw [ha.noLoad] at hload
    cases hload

/-- The fields filled in early do not matter. -/
theorem StoreTurn.of_seen (i id : Nat) (next : Option Nat)
    (h : StoreTurn cur writeAck (commitSeen i id next st) st' go) :
    StoreTurn cur writeAck st st' go := by
  have hlogs : ∀ {l g}, (commitSeen i id next st).Logs st' l g → st.Logs st' l g :=
    fun hl => ⟨hl.retired, hl.goes⟩
  cases h with
  | quiet l hn hs hl hno => exact .quiet l hn hs (hlogs hl) hno
  | pushed id' item ring hv hw hc hz hp hr hw' hs hl =>
    exact .pushed id' item ring hv hw hc hz hp hr hw' hs (hlogs hl)
  | asked id' hid ha hw hw' hr hs hl hfl hgo =>
    exact .asked id' hid ha hw hw' hr hs (hlogs hl) hfl hgo
  | waits hw hack hs hl hfl hgo => exact .waits hw hack hs (hlogs hl) hfl hgo
  | answered id' hid hw hack hw' hr hs hl =>
    exact .answered id' hid hw hack hw' hr hs (hlogs hl)
  | failed hw hack hw' hr hs hl hgo => exact .failed hw hack hw' hr hs (hlogs hl) hgo

/-- A store that may not retire now is no noncacheable store at the front. -/
theorem storeBlocked_asks {id' : Nat} (ha : cur.Asks (cur.rob.buffer id')) {b : Bool}
    (h : storeBlocked cur 0 (cur.rob.buffer id') st = some b) : b = false := by
  unfold storeBlocked at h
  rw [ha.store] at h
  simp only [Bool.not_true, Bool.false_eq_true, if_false, ne_eq, not_true_eq_false,
    Option.bind_eq_bind, Option.bind_eq_some_iff] at h
  obtain ⟨addr, haddr, h⟩ := h
  have hd : isCacheable addr = false := by
    rw [StoreBuffer.getAddr_eq_some haddr]
    exact ha.device
  rw [hd] at h
  exact (Option.some.inj h).symm

/-- **The first turn of the output loop.** -/
theorem commitOne_store {firstId : Nat} (hex : st.feedback.hasException = false)
    (hplain : ∀ id, Fifo.customerGetFrontId cur.rob st.new.rob = some id →
      (cur.rob.buffer id).finish = true → (cur.rob.buffer id).PlainLoad)
    (h : commitOne cur writeAck firstId 0 st = some (st', go)) :
    StoreTurn cur writeAck st st' go := by
  unfold commitOne at h
  split at h
  · rename_i hnone
    cases h
    exact .quiet [] (fun id hid => by rw [hnone] at hid; cases hid) (.refl _) (.same hex rfl rfl)
      fun e he => by cases he
  · rename_i id hid
    have hfront : ¬ cur.Asks (cur.rob.buffer id) → ∀ id',
        Fifo.customerGetFrontId cur.rob st.new.rob = some id' →
        ¬ cur.Asks (cur.rob.buffer id') := by
      intro hn id' hid'
      rw [hid] at hid'
      rwa [← Option.some.inj hid']
    dsimp only [Fifo.customerGetItem] at h
    cases hfin : (cur.rob.buffer id).finish with
    | false =>
      rw [hfin] at h
      cases h
      refine .quiet [] (hfront fun ha => ?_) (.refl _) (.same hex rfl rfl) fun e he => by cases he
      rw [ha.finish] at hfin
      cases hfin
    | true =>
      simp only [hfin, Bool.not_true, if_false, Bool.false_eq_true, Option.bind_eq_some_iff] at h
      obtain ⟨⟨next, nextValid⟩, -, h⟩ := h
      refine .of_seen 0 id (if nextValid && next != firstId then some next else none) ?_
      unfold commitFinished at h
      split at h
      · rename_i he
        obtain ⟨st₁, h₁, heq⟩ := Option.map_eq_some_iff.mp h
        cases heq
        obtain ⟨hs, hl⟩ := commitException_stores (by exact hex) h₁
        refine .quiet [] (hfront fun ha => ?_) hs hl fun e he => by cases he
        rw [ha.hasException] at he
        cases he
      · rename_i he
        obtain ⟨blocked, hb, h⟩ := Option.bind_eq_some_iff.mp h
        split at h
        · rename_i hblocked
          cases h
          refine .quiet [] (hfront fun ha => ?_) (.refl _) (.same hex rfl rfl)
            fun e he => by cases he
          rw [storeBlocked_asks ha hb] at hblocked
          cases hblocked
        · exact commitHandles_store (by exact hex) (hplain id hid hfin) hid hfin
            (by simpa using he) h

/-- **A turn behind the first leaves the store side alone.** -/
theorem commitOne_later {firstId i : Nat} (hi : i ≠ 0) (hex : st.feedback.hasException = false)
    (h : commitOne cur writeAck firstId i st = some (st', go)) :
    st.new.SameStores st'.new ∧ ∃ l, st.Logs st' l go ∧ NoStore l := by
  have hnone : ∀ {s : CommitState} {g : Bool}, s = st → st.new.SameStores s.new
      ∧ ∃ l, st.Logs s l g ∧ NoStore l := by
    rintro s g rfl
    exact ⟨.refl _, [], .same hex rfl rfl, fun e he => by cases he⟩
  unfold commitOne at h
  split at h
  · cases h
    exact hnone rfl
  · rename_i id hid
    dsimp only [Fifo.customerGetItem] at h
    cases hfin : (cur.rob.buffer id).finish with
    | false =>
      rw [hfin] at h
      cases h
      exact hnone rfl
    | true =>
      simp only [hfin, Bool.not_true, if_false, Bool.false_eq_true, Option.bind_eq_some_iff] at h
      obtain ⟨⟨next, nextValid⟩, -, h⟩ := h
      unfold commitFinished at h
      split at h
      · obtain ⟨st₁, h₁, heq⟩ := Option.map_eq_some_iff.mp h
        cases heq
        obtain ⟨hs, hl⟩ := commitException_stores (by exact hex) h₁
        exact ⟨hs, [], ⟨hl.retired, hl.goes⟩, fun e he => by cases he⟩
      · obtain ⟨blocked, hb, h⟩ := Option.bind_eq_some_iff.mp h
        split at h
        · cases h
          exact ⟨.refl _, [], .same hex rfl rfl, fun e he => by cases he⟩
        · rename_i hnb
          have hv : (cur.rob.buffer id).storeBufferIdValid = false := by
            rw [Bool.eq_false_iff]
            intro hv
            rw [Bool.not_eq_true] at hnb
            rw [hnb] at hb
            exact hi (storeBlocked_eq_false hb hv).1
          rcases andThen_eq_some h with ⟨st₁, h₁, hrest⟩ | ⟨hload, hgo⟩
          · obtain ⟨hs₁, hl₁⟩ := commitLoad_stores (by exact hex) h₁
            have hskip : commitStore cur writeAck id (cur.rob.buffer id) st₁
                = some (st₁, true) := by
              unfold commitStore
              rw [hv]
              rfl
            rcases andThen_eq_some hrest with ⟨st₂, h₂, h₃⟩ | ⟨h₂, hgo⟩
            · rw [hskip] at h₂
              cases h₂
              obtain ⟨hs₃, hl₃⟩ := retireBranch_stores (hl₁.goes rfl) h₃
              refine ⟨hs₁.trans hs₃, _, ⟨(hl₁.trans hl₃).retired, (hl₁.trans hl₃).goes⟩, ?_⟩
              intro e he
              rw [List.nil_append, List.mem_singleton] at he
              rw [he]
              exact hv
            · rw [hskip] at h₂
              cases h₂
              cases hgo
          · dsimp only at hgo
            subst hgo
            obtain ⟨hs₁, hl₁⟩ := commitLoad_stores (by exact hex) hload
            exact ⟨hs₁, [], ⟨hl₁.retired, hl₁.goes⟩, fun e he => by cases he⟩

/-- **The turns behind the first.** -/
theorem commitLoop_later {firstId k i : Nat} (hi : i ≠ 0)
    (hex : st.feedback.hasException = false)
    (h : commitLoop cur writeAck firstId k i st = some st') :
    st.new.SameStores st'.new ∧ ∃ l, st.Logs st' l false ∧ NoStore l := by
  induction k generalizing i st with
  | zero =>
    cases h
    exact ⟨.refl _, [], .same hex rfl rfl, fun e he => by cases he⟩
  | succ k ih =>
    obtain ⟨⟨st₁, go⟩, h₁, h⟩ := Option.bind_eq_some_iff.mp h
    obtain ⟨hs₁, l₁, hl₁, hn₁⟩ := commitOne_later hi hex h₁
    cases go with
    | false =>
      cases h
      exact ⟨hs₁, l₁, hl₁, hn₁⟩
    | true =>
      obtain ⟨hs₂, l₂, hl₂, hn₂⟩ := ih (Nat.succ_ne_zero i) (hl₁.goes rfl) h
      refine ⟨hs₁.trans hs₂, l₁ ++ l₂, hl₁.trans hl₂, fun e he => ?_⟩
      rcases List.mem_append.mp he with he | he
      · exact hn₁ e he
      · exact hn₂ e he

/-! ## The whole of commit -/

/-- **What commit does to the store side in one cycle**, from the snapshot `new` it starts with. -/
inductive StoreEffect (cur new : Core) (writeAck : Option BusErrno) (c : CommitState) : Prop where
  | quiet : (∀ id, Fifo.customerGetFrontId cur.rob new.rob = some id →
        ¬ cur.Asks (cur.rob.buffer id)) → new.SameStores c.new → NoStore c.retired →
      StoreEffect cur new writeAck c
  /-- A cacheable store retires into the retired store buffer, the only store of the cycle. -/
  | pushed (id : Nat) (item : RobItem) (l : List (Nat × RobItem))
      (ring : Fifo retiredStoreBufferSize RetiredStoreBufferItem) :
      c.retired = (id, item) :: l → NoStore l → item.storeBufferIdValid = true →
      new.isWaitingAck = false → isCacheable (cur.storeOf item).addr = true →
      (cur.storeOf item).size = 1 ∨ (cur.storeOf item).size = 2 ∨ (cur.storeOf item).size = 4 →
      Fifo.push cur.retiredStoreBuffer.ring new.retiredStoreBuffer.ring (cur.storeOf item)
        = some ring →
      c.new.retiredStoreBuffer = { new.retiredStoreBuffer with ring := ring } →
      c.new.isWaitingAck = false → new.SameCells c.new → StoreEffect cur new writeAck c
  | asked (id : Nat) : Fifo.customerGetFrontId cur.rob new.rob = some id →
      cur.Asks (cur.rob.buffer id) → c.retired = [] → c.feedback.flush = false →
      new.isWaitingAck = false → c.new.isWaitingAck = true →
      c.new.retiredStoreBuffer = new.retiredStoreBuffer → new.SameCells c.new →
      StoreEffect cur new writeAck c
  | waits : c.retired = [] → c.feedback.flush = false → new.isWaitingAck = true →
      writeAck = none → new.SameStores c.new → StoreEffect cur new writeAck c
  | answered (id : Nat) (l : List (Nat × RobItem)) :
      Fifo.customerGetFrontId cur.rob new.rob = some id →
      c.retired = (id, cur.rob.buffer id) :: l → NoStore l → new.isWaitingAck = true →
      writeAck = some .none → c.new.isWaitingAck = false →
      c.new.retiredStoreBuffer = new.retiredStoreBuffer → new.SameCells c.new →
      StoreEffect cur new writeAck c
  | failed : c.retired = [] → new.isWaitingAck = true → writeAck = some .error →
      c.new.isWaitingAck = false → c.new.retiredStoreBuffer = new.retiredStoreBuffer →
      new.SameCells c.new → StoreEffect cur new writeAck c

theorem foldl_commitInput_stores (cur : Core) (ports : List ExecuteWbPack) (s : Core) :
    s.SameStores (ports.foldl (commitInput cur) s) := by
  induction ports generalizing s with
  | nil => exact .refl s
  | cons rev ports ih =>
    refine Core.SameStores.trans ?_ (ih _)
    unfold commitInput
    split
    · exact ⟨⟨rfl, rfl, rfl⟩, rfl, rfl⟩
    · exact .refl s

/-- The output loop, its first turn and the others. -/
theorem commitLoop_store {new : Core} {firstId : Nat} (hnew : st.new = new)
    (hex : st.feedback.hasException = false) (hfl : st.feedback.flush = false)
    (hq : st.retireQueue = [])
    (hplain : ∀ id, Fifo.customerGetFrontId cur.rob st.new.rob = some id →
      (cur.rob.buffer id).finish = true → (cur.rob.buffer id).PlainLoad)
    (h : commitLoop cur writeAck firstId commitWidth 0 st = some st') :
    StoreEffect cur new writeAck st' := by
  subst hnew
  have hret : st.retired = [] := by rw [CommitState.retired_eq hex, hq]
  obtain ⟨⟨st₁, go⟩, h₁, h⟩ := Option.bind_eq_some_iff.mp h
  have hlater : ∀ l, st.Logs st₁ l go → st₁.new.SameStores st'.new
      ∧ ∃ l', st'.retired = l ++ l' ∧ NoStore l' := by
    intro l hl
    have hl' : st₁.retired = l := by rw [hl.retired, hret, List.nil_append]
    cases go with
    | false =>
      cases h
      exact ⟨.refl _, [], by rw [hl', List.append_nil], fun e he => by cases he⟩
    | true =>
      obtain ⟨hs, l', hl₂, hn⟩ := commitLoop_later Nat.one_ne_zero (hl.goes rfl) h
      exact ⟨hs, l', by rw [hl₂.retired, hl'], hn⟩
  have hstop : go = false → st' = st₁ := by
    intro hgo
    subst hgo
    exact (Option.some.inj h).symm
  cases commitOne_store hex hplain h₁ with
  | quiet l hn hs hl hno =>
    obtain ⟨hs', l', hl', hno'⟩ := hlater l hl
    refine .quiet hn (hs.trans hs') ?_
    rw [hl']
    intro e he
    rcases List.mem_append.mp he with he | he
    · exact hno e he
    · exact hno' e he
  | pushed id item ring hv hw hc hz hp hr hw' hs hl =>
    obtain ⟨hs', l', hl', hno'⟩ := hlater _ hl
    exact .pushed id item l' ring hl' hno' hv hw hc hz hp (hs'.retired.trans hr)
      (hs'.waiting.trans hw') (hs.trans hs'.toSameCells)
  | asked id hid ha hw hw' hr hs hl hfl' hgo =>
    have he := hstop hgo
    subst he
    exact .asked id hid ha (by rw [hl.retired, hret]; rfl) (hfl'.trans hfl) hw hw' hr hs
  | waits hw hack hs hl hfl' hgo =>
    have he := hstop hgo
    subst he
    exact .waits (by rw [hl.retired, hret]; rfl) (hfl'.trans hfl) hw hack hs
  | answered id hid hw hack hw' hr hs hl =>
    obtain ⟨hs', l', hl', hno'⟩ := hlater _ hl
    exact .answered id l' hid hl' hno' hw hack (hs'.waiting.trans hw') (hs'.retired.trans hr)
      (hs.trans hs'.toSameCells)
  | failed hw hack hw' hr hs hl hgo =>
    have he := hstop hgo
    subst he
    exact .failed (by rw [hl.retired, hret]; rfl) hw hack hw' hr hs

/-- **Commit and the store side.** -/
theorem commitRun_store {new : Core} {inp : CommitInput}
    (hplain : ∀ id, Fifo.customerGetFrontId cur.rob new.rob = some id →
      (cur.rob.buffer id).finish = true → (cur.rob.buffer id).PlainLoad)
    (h : commitRun cur new inp = some st') : StoreEffect cur new inp.writeAck st' := by
  unfold commitRun at h
  dsimp only at h
  -- the interrupt block changes nothing the stores see, and finds no entry if it flushes
  have hempty : Fifo.customerGetFrontId cur.rob new.rob = none →
      new.SameStores (commitInterrupt cur new inp).new →
      (commitInterrupt cur new inp).retired = [] →
      StoreEffect cur new inp.writeAck (commitInterrupt cur new inp) := by
    intro hnone hs hr
    refine .quiet (fun id hid => by rw [hnone] at hid; cases hid) hs ?_
    rw [hr]
    intro e he
    cases he
  rcases commitInterrupt_cases cur new inp with ⟨w, hint⟩ | ⟨he, hw, -, hret⟩
  · rw [hint] at h hempty
    split at h
    · rename_i hnone
      cases h
      exact hempty hnone (.refl _) rfl
    · rename_i firstId _
      rw [Option.bind_eq_bind, Option.bind_eq_some_iff] at h
      obtain ⟨st₁, hloop, h⟩ := h
      have heff : StoreEffect cur new inp.writeAck st₁ :=
        commitLoop_store rfl rfl rfl rfl hplain hloop
      split at h
      · cases h
        exact heff
      · cases h
        have hin := foldl_commitInput_stores cur inp.executeCommitPort st₁.new
        cases heff with
        | quiet hn hs hno => exact .quiet hn (hs.trans hin) hno
        | pushed id item l ring hr hno hv hw hc hz hp hr' hw' hs =>
          exact .pushed id item l ring hr hno hv hw hc hz hp (hin.retired.trans hr')
            (hin.waiting.trans hw') (hs.trans hin.toSameCells)
        | asked id hid ha hr hfl hw hw' hr' hs =>
          exact .asked id hid ha hr hfl hw (hin.waiting.trans hw') (hin.retired.trans hr')
            (hs.trans hin.toSameCells)
        | waits hr hfl hw hack hs => exact .waits hr hfl hw hack (hs.trans hin)
        | answered id l hid hr hno hw hack hw' hr' hs =>
          exact .answered id l hid hr hno hw hack (hin.waiting.trans hw')
            (hin.retired.trans hr') (hs.trans hin.toSameCells)
        | failed hr hw hack hw' hr' hs =>
          exact .failed hr hw hack (hin.waiting.trans hw') (hin.retired.trans hr')
            (hs.trans hin.toSameCells)
  · have hfront : Fifo.customerGetFrontId cur.rob (commitInterrupt cur new inp).new.rob = none := by
      rw [front_none, Fifo.customerIsEmpty, hw.rob]
      exact he
    rw [hfront] at h
    cases h
    refine hempty (front_none.mpr he) ?_ hret
    unfold commitInterrupt
    split
    · exact .refl _
    · split
      · exact ⟨⟨rfl, rfl, rfl⟩, rfl, rfl⟩
      · exact .refl _

end DreamCore
