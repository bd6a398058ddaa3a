import DreamCore.Backend.CommitRun

/-!
# The output loop of commit

The loop retires a prefix of the window and may then drop the rest. Where it
drops the rest because of an exception, the free list goes back to the pointer
saved behind the excepting instruction's own pop, and the register that
instruction had popped is gone. `Core.leaks` is that event, read off the state
and the input before the cycle.
-/

namespace DreamCore

open Ring

/-! ## Retiring a prefix -/

/-- The window after its `k` oldest instructions have retired. -/
def Ghost.retireN : Nat → Ghost → Ghost
  | 0, g => g
  | k + 1, g =>
      match g.flight with
      | [] => g
      | f :: rest => Ghost.retireN k (g.retire f rest)

namespace Ghost

/-- Retiring one more, at the end. -/
theorem retireN_succ {k : Nat} {g : Ghost} {f : Flight} {rest : List Flight}
    (h : (g.retireN k).flight = f :: rest) :
    g.retireN (k + 1) = (g.retireN k).retire f rest := by
  induction k generalizing g with
  | zero =>
    have h' : g.flight = f :: rest := h
    simp only [retireN, h']
  | succ k ih =>
    cases hf : g.flight with
    | nil => simp only [retireN, hf] at h; simp at h
    | cons f' rest' =>
      have hstep : ∀ n, g.retireN (n + 1) = (g.retire f' rest').retireN n := fun n => by
        simp only [retireN, hf]
      rw [hstep] at h
      rw [hstep, hstep, ih h]

theorem retireN_flight (k : Nat) (g : Ghost) : (g.retireN k).flight = g.flight.drop k := by
  induction k generalizing g with
  | zero => rfl
  | succ k ih =>
    cases hf : g.flight with
    | nil => simp [retireN, hf]
    | cons f rest =>
      simp only [retireN, hf]
      rw [ih]
      rfl

theorem retireN_base (k : Nat) (g : Ghost) :
    (g.retireN k).base = DreamCore.tip g.base (g.flight.take k) := by
  induction k generalizing g with
  | zero => rfl
  | succ k ih =>
    cases hf : g.flight with
    | nil => simp [retireN, hf]
    | cons f rest =>
      simp only [retireN, hf]
      rw [ih]
      rfl

/-- **Retirements neither lose nor add an id.** -/
theorem retireN_freed (k : Nat) (g : Ghost) :
    (g.retireN k).freed + g.base.free = g.freed + (g.retireN k).base.free := by
  induction k generalizing g with
  | zero => rfl
  | succ k ih =>
    cases hf : g.flight with
    | nil => simp [retireN, hf]
    | cons f rest =>
      have := ih (g.retire f rest)
      simp only [retireN, hf]
      simp only [retire, advance] at this ⊢
      omega

/-- **Checkpoints are popped in step** with the window, unless a load owned one. -/
theorem retireN_ckHead {k : Nat} {g : Ghost}
    (h : ∀ f ∈ g.flight.take k, f.pops = f.info.hasCheckpoint) :
    (g.retireN k).ckHead + g.base.ck = g.ckHead + (g.retireN k).base.ck := by
  induction k generalizing g with
  | zero => rfl
  | succ k ih =>
    cases hf : g.flight with
    | nil => simp [retireN, hf]
    | cons f rest =>
      rw [hf] at h
      have hf' := h f (List.mem_cons_self ..)
      have := ih (g := g.retire f rest) fun i hi => h i (List.mem_cons_of_mem _ hi)
      simp only [retireN, hf]
      simp only [retire, advance, hf'] at this ⊢
      omega

theorem retireN_ckHead_le (k : Nat) (g : Ghost) : g.ckHead ≤ (g.retireN k).ckHead := by
  induction k generalizing g with
  | zero => exact Nat.le_refl _
  | succ k ih =>
    cases hf : g.flight with
    | nil => simp [retireN, hf]
    | cons f rest =>
      simp only [retireN, hf]
      exact Nat.le_trans (Nat.le_add_right _ _) (ih (g.retire f rest))

theorem retireN_freed_le (k : Nat) (g : Ghost) : g.freed ≤ (g.retireN k).freed := by
  have h := g.retireN_freed k
  have := free_le_tip g.base (g.flight.take k)
  rw [← retireN_base] at this
  omega

theorem retireN_tip (k : Nat) (g : Ghost) : (g.retireN k).tip = g.tip := by
  rw [Ghost.tip, retireN_base, retireN_flight, DreamCore.tip, ← Window.tip_append,
    List.take_append_drop]
  rfl

end Ghost

/-! ## What goes wrong, read off before the cycle -/

/-- The entry of turn `j` retires, and the loop goes on behind it. -/
def Core.passes (cur : Core) (writeAck : Option BusErrno) (j : Nat) (item : RobItem) : Bool :=
  item.finish && !item.hasException && !item.bruOp
    && !(item.loadQueueIdValid && cur.loadQueue.itemConflict item.loadQueueId)
    && (!item.storeBufferIdValid
      || (j == 0
        && !(isCacheable (cur.storeBuffer.itemAddr item.storeBufferId)
          && Fifo.producerIsFull cur.retiredStoreBuffer.ring cur.retiredStoreBuffer.ring)
        && (if cur.isWaitingAck then writeAck == some .none
          else isCacheable (cur.storeBuffer.itemAddr item.storeBufferId))))

/-- Among `items`, the entries from turn `j` on, the loop meets one that takes an exception
after it was given a physical register. -/
def Core.leaksFrom (cur : Core) (writeAck : Option BusErrno) : Nat → List RobItem → Bool
  | _, [] => false
  | j, item :: items =>
      if item.finish && item.hasException then item.oldPhyRegIdValid
      else cur.passes writeAck j item && cur.leaksFrom writeAck (j + 1) items

/-- **This cycle commit takes an exception on an entry that was given a physical register.** -/
def Core.leaks (cur : Core) (writeAck : Option BusErrno) : Bool :=
  cur.leaksFrom writeAck 0 (cur.rob.contents.take commitWidth)

/-- Among the instructions `fl`, from turn `j` on, the loop retires a load that was given a
checkpoint. -/
def Core.dropsFrom (cur : Core) (writeAck : Option BusErrno) : Nat → List Flight → Bool
  | _, [] => false
  | j, f :: fl =>
      cur.passes writeAck j (cur.rob.buffer f.info.robId.id)
        && ((f.info.hasCheckpoint && f.info.opUnit == .lu) || cur.dropsFrom writeAck (j + 1) fl)

/-- **This cycle commit retires a load that was given a checkpoint.** -/
def Core.dropsCheckpoint (cur : Core) (writeAck : Option BusErrno) (fl : List Flight) : Bool :=
  cur.dropsFrom writeAck 0 (fl.take commitWidth)

variable {cur : Core} {st st' : CommitState} {writeAck : Option BusErrno}

/-- A store that is not blocked stands first in its group and has room. -/
theorem storeBlocked_eq_false {i : Nat} {item : RobItem}
    (h : storeBlocked cur i item st = some false) (hs : item.storeBufferIdValid = true) :
    i = 0 ∧ (isCacheable (cur.storeBuffer.itemAddr item.storeBufferId)
      && Fifo.producerIsFull cur.retiredStoreBuffer.ring st.new.retiredStoreBuffer.ring)
        = false := by
  unfold storeBlocked at h
  simp only [hs, Bool.not_true, if_false, Bool.false_eq_true] at h
  split at h
  · cases h
  · rename_i hi
    simp only [Option.bind_eq_bind, Option.bind_eq_some_iff] at h
    obtain ⟨addr, haddr, h⟩ := h
    rw [StoreBuffer.getAddr_eq_some haddr] at h
    exact ⟨not_not.mp hi, Option.some.inj h⟩

/-- **The loop goes on only behind an entry that passes.** -/
theorem commitOne_passes {firstId i : Nat} {id : Nat}
    (hplain : ∀ id, Fifo.customerGetFrontId cur.rob st.new.rob = some id →
      (cur.rob.buffer id).finish = true → (cur.rob.buffer id).PlainLoad)
    (hid : Fifo.customerGetFrontId cur.rob st.new.rob = some id)
    (h0 : i = 0 → st.new.isWaitingAck = cur.isWaitingAck
      ∧ st.new.retiredStoreBuffer = cur.retiredStoreBuffer)
    (h : commitOne cur writeAck firstId i st = some (st', true)) :
    cur.passes writeAck i (cur.rob.buffer id) = true := by
  unfold commitOne at h
  rw [hid] at h
  dsimp only [Fifo.customerGetItem] at h
  cases hfin : (cur.rob.buffer id).finish with
  | false => simp [hfin] at h
  | true =>
    simp only [hfin, Bool.not_true, if_false, Bool.false_eq_true, Option.bind_eq_some_iff] at h
    obtain ⟨⟨next, nextValid⟩, -, h⟩ := h
    unfold commitFinished at h
    cases hex : (cur.rob.buffer id).hasException with
    | true =>
      simp only [hex, if_true] at h
      obtain ⟨_, -, he⟩ := Option.map_eq_some_iff.mp h
      cases he
    | false =>
      simp only [hex, if_false, Bool.false_eq_true] at h
      obtain ⟨blocked, hblk, h⟩ := Option.bind_eq_some_iff.mp h
      cases blocked with
      | true => cases h
      | false =>
        simp only [if_false, Bool.false_eq_true] at h
        rcases andThen_eq_some h with ⟨st₁, h₁, h⟩ | ⟨-, hgo⟩
        · rcases andThen_eq_some h with ⟨st₂, h₂, h⟩ | ⟨-, hgo⟩
          · obtain ⟨st₃, -, h₃⟩ := Option.bind_eq_some_iff.mp h
            have hbru : (cur.rob.buffer id).bruOp = false := by
              rcases commitBranch_cases h₃ with ⟨hb, -⟩ | ⟨-, hgo, -⟩
              · exact hb
              · cases hgo
            obtain ⟨hload, hsame⟩ : ((cur.rob.buffer id).loadQueueIdValid
                && cur.loadQueue.itemConflict (cur.rob.buffer id).loadQueueId) = false
                ∧ st₁.new.isWaitingAck = st.new.isWaitingAck := by
              rcases commitLoad_cases (hplain id hid hfin) h₁ with
                ⟨hv, rfl, -⟩ | ⟨-, -, hgo, -⟩ | ⟨-, hc, -, rfl⟩
              · exact ⟨by simp [hv], rfl⟩
              · cases hgo
              · exact ⟨by simp [hc], rfl⟩
            unfold Core.passes
            rw [hfin, hex, hbru, hload]
            cases hsv : (cur.rob.buffer id).storeBufferIdValid with
            | false => rfl
            | true =>
              obtain ⟨hi, hroom⟩ := storeBlocked_eq_false hblk hsv
              obtain ⟨hack, hrsb⟩ := h0 hi
              have hsend : (if cur.isWaitingAck then writeAck = some .none
                  else isCacheable (cur.storeBuffer.itemAddr (cur.rob.buffer id).storeBufferId)
                    = true) := by
                rcases commitStore_cases h₂ with
                  ⟨hv, -⟩ | ⟨-, hgo, -⟩ | ⟨-, hgo, -⟩ | ⟨-, -, -, hack', -⟩
                · rw [hsv] at hv; cases hv
                · cases hgo
                · cases hgo
                · rwa [hsame, hack] at hack'
              have hroom' : (isCacheable (cur.storeBuffer.itemAddr (cur.rob.buffer id).storeBufferId)
                  && Fifo.producerIsFull cur.retiredStoreBuffer.ring cur.retiredStoreBuffer.ring)
                  = false := by
                have h' : (commitSeen i id (if nextValid && next != firstId then some next else none)
                  st).new.retiredStoreBuffer = st.new.retiredStoreBuffer := rfl
                rwa [h', hrsb] at hroom
              rw [hroom', hi]
              split at hsend <;> simp_all
          · cases hgo
        · cases hgo

/-! ## The loop -/

/-- The loop has retired `k` entries and flushed nothing. -/
structure Committing (cur : Core) (g₀ : Ghost) (k : Nat) (st : CommitState) : Prop where
  inv : Inv st.new (g₀.retireN k)
  tail : cur.SameTail st.new
  flush : st.feedback.flush = false
  needFlush : st.needFlush = false
  hasException : st.feedback.hasException = false
  le : k ≤ g₀.flight.length
  queue : st.retireQueue = (g₀.flight.take k).map fun f =>
    (f.info.robId.id, cur.rob.buffer f.info.robId.id)
  finished : ∀ f ∈ g₀.flight.take k, (cur.rob.buffer f.info.robId.id).finish = true
  released : (g₀.retireN k).released = g₀.released ++ releasedIds st.retireQueue
  /-- What was free when the cycle began is still in its slot. -/
  frame : ∀ j, g₀.tip.free ≤ j → j < g₀.freed →
    st.new.phyIdFreeList.ring.buffer (j % phyRegNum) = cur.phyIdFreeList.ring.buffer (j % phyRegNum)

/-- The loop has retired `k` entries and dropped the rest. The free list went back to counter
`j`, which is the tip of what is retired unless the dropped entry leaked. -/
structure Dropped (cur : Core) (g₀ : Ghost) (leak : Bool) (k j : Nat) (st : CommitState) :
    Prop where
  inv : Inv st.new ((g₀.retireN k).flush j)
  flush : st.feedback.flush = true
  needFlush : st.needFlush = true
  le : k ≤ g₀.flight.length
  released : (g₀.retireN k).released = g₀.released ++ releasedIds st.retired
  restored : j = (g₀.retireN k).base.free ∨ (leak = true ∧ j = (g₀.retireN k).base.free + 1)

theorem releasedIds_append (l₁ l₂ : List (Nat × RobItem)) :
    releasedIds (l₁ ++ l₂) = releasedIds l₁ ++ releasedIds l₂ := by
  simp [releasedIds]

variable {g₀ : Ghost} {k : Nat}

/-- **The entry the loop looks at** is the oldest of the window that is left. -/
theorem Committing.front (hc : Committing cur g₀ k st) {id : Nat}
    (hid : Fifo.customerGetFrontId cur.rob st.new.rob = some id) :
    id = (g₀.retireN k).base.rob % robSize
      ∧ ∃ f rest, (g₀.retireN k).flight = f :: rest ∧ f.info.robId.id = id
        ∧ (cur.rob.buffer id).Tracks (g₀.retireN k).base f ∧ f.info.Shaped := by
  have hw := hc.inv.rob
  unfold Fifo.customerGetFrontId at hid
  split at hid
  · cases hid
  · rename_i he
    have hid' : id = (g₀.retireN k).base.rob % robSize := by
      rw [← Option.some.inj hid, hw.rptr, Ptr.fold_id]
    refine ⟨hid', ?_⟩
    cases hf : (g₀.retireN k).flight with
    | nil =>
      refine absurd ?_ he
      rw [Fifo.customerIsEmpty_iff (by decide) hw.rptr (hc.tail.robWptr.trans hw.wptr) hw.le hw.size]
      rw [Ghost.tip, hf]
      rfl
    | cons f rest =>
      have hentry := hc.inv.frontEntry hf
      refine ⟨f, rest, rfl, ?_, ?_, hentry.shaped⟩
      · rw [hentry.robId, Ptr.fold_id, hid']
      · rw [hid', hc.tail.robBuffer]
        exact hentry.item

theorem Committing.plainLoad (hc : Committing cur g₀ k st) {id : Nat}
    (hid : Fifo.customerGetFrontId cur.rob st.new.rob = some id)
    (hfin : (cur.rob.buffer id).finish = true) : (cur.rob.buffer id).PlainLoad := by
  obtain ⟨-, f, rest, -, -, ht, -⟩ := hc.front hid
  intro hv
  rw [ht.loadQueue] at hv
  have hlu : f.info.opUnit = .lu := by
    simp only [DecodeRenamePack.takesLoadQueue, Bool.and_eq_true, beq_iff_eq] at hv
    exact hv.2
  refine ⟨?_, ?_⟩
  · rw [ht.pack hfin]
    simp [OpInfo.toIssue, OpInfo.toLsu, hlu, OpUnit.isLsu]
  · rw [ht.storeBuffer]
    simp [DecodeRenamePack.takesStoreBuffer, hlu]

/-- Commit's own pops and pushes keep the pointers it compares with. -/
theorem Core.Retires.sameTail {s s' : Core} {item : RobItem} (hr : cur.Retires s s' item)
    (ht : cur.SameTail s) : cur.SameTail s' where
  robWptr := by rw [hr.rob, Fifo.drop_wptr, ht.robWptr]
  robBuffer := by rw [hr.rob, Fifo.drop_buffer, ht.robBuffer]
  ckWptr := by
    rw [hr.ck]
    split
    · rw [Fifo.drop_wptr, ht.ckWptr]
    · exact ht.ckWptr
  lqWptr := by
    rw [hr.lq]
    split
    · rw [Fifo.drop_wptr, ht.lqWptr]
    · exact ht.lqWptr
  sbWptr := by
    rw [hr.sb]
    split
    · rw [Fifo.drop_wptr, ht.sbWptr]
    · exact ht.sbWptr
  freeRptr := by
    cases hv : item.oldPhyRegIdValid with
    | false => rw [(hr.kept hv).2, ht.freeRptr]
    | true =>
      obtain ⟨-, ok, hpush⟩ := hr.allocated hv
      rcases FreeList.push_eq_some hpush with ⟨hp, -⟩ | ⟨-, he, -⟩
      · rw [(Fifo.push_eq_some hp).2.1, ht.freeRptr]
      · rw [he, ht.freeRptr]

/-- A retirement takes the loop one entry further. -/
theorem Committing.retire (hc : Committing cur g₀ k st) {id : Nat} {s : Core}
    (hid : Fifo.customerGetFrontId cur.rob st.new.rob = some id)
    (hfin : (cur.rob.buffer id).finish = true)
    (hr : cur.Retires st.new s (cur.rob.buffer id)) (hw : s.SameWindow st'.new)
    (hfl : st'.feedback.flush = st.feedback.flush)
    (hex : st'.feedback.hasException = st.feedback.hasException)
    (hnf : st'.needFlush = st.needFlush)
    (hq : st'.retireQueue = st.retireQueue ++ [(id, cur.rob.buffer id)]) :
    Committing cur g₀ (k + 1) st' := by
  obtain ⟨hid', f, rest, hf, hfid, ht, -⟩ := hc.front hid
  have hbuf : st.new.rob.buffer ((g₀.retireN k).base.rob % robSize) = cur.rob.buffer id := by
    rw [← hc.tail.robBuffer, hid']
  have hlen : k < g₀.flight.length := by
    rw [Ghost.retireN_flight] at hf
    have := congrArg List.length hf
    rw [List.length_drop, List.length_cons] at this
    omega
  have hget : g₀.flight[k]? = some f := by
    rw [Ghost.retireN_flight] at hf
    rw [← List.head?_drop, hf]
    rfl
  have hinv := hc.inv.afterRetire hc.tail hf (by rw [hbuf]; exact hfin) (by rw [hbuf]; exact hr)
  refine ⟨?_, (hr.sameTail hc.tail).congr hw, hfl.trans hc.flush, hnf.trans hc.needFlush,
    hex.trans hc.hasException, hlen, ?_, ?_, ?_, ?_⟩
  · rw [Ghost.retireN_succ hf]
    exact hinv.congr hw
  · rw [hq, hc.queue, List.take_add_one, hget, List.map_append, Option.toList_some,
      List.map_singleton, hfid]
  · intro i hi
    rw [List.take_add_one, hget, List.mem_append] at hi
    rcases hi with hi | hi
    · exact hc.finished i hi
    · rw [List.mem_singleton.mp hi, hfid]
      exact hfin
  · rw [Ghost.retireN_succ hf, hq, releasedIds_append, ← List.append_assoc, ← hc.released]
    have hone : releasedIds [(id, cur.rob.buffer id)]
        = if f.info.allocates then [(g₀.retireN k).base.map f.info.rd] else [] := by
      cases hal : f.info.allocates with
      | false => simp [releasedIds, ht.allocates, hal]
      | true => simp [releasedIds, ht.allocates, hal, (ht.oldPhyRegId hal).1]
    rw [hone]
    rfl
  · intro j hj hj'
    rw [hw.free]
    have hle := g₀.retireN_freed_le k
    have hb := g₀.retireN_freed k
    have hfreed := hc.inv.freed_le
    simp only [archRegNum, phyRegNum] at hfreed
    cases hal : f.info.allocates with
    | false =>
      rw [(hr.kept (ht.allocates.trans hal)).2]
      exact hc.frame j hj hj'
    | true =>
      have hr' := hr
      rw [← hbuf] at hr'
      obtain ⟨-, -, -, -, hupd⟩ := hc.inv.releases hc.tail hf hr' hal
      rw [hupd, Function.update_of_ne]
      · exact hc.frame j hj hj'
      · refine mod_ne_of_window (by omega) ?_
        have htip := free_le_tip (g₀.retireN k).base (g₀.retireN k).flight
        rw [← Ghost.tip, Ghost.retireN_tip] at htip
        simp only [phyRegNum]
        omega

/-- Dropping the window at the entry the loop looks at, before it or behind it. -/
theorem Committing.drop (hc : Committing cur g₀ k st) {s s' : Core} {j : Nat} {leak : Bool}
    {f : Flight} {rest : List Flight} (hf : (g₀.retireN k).flight = f :: rest)
    (hw : st.new.SameWindow s) (hfl : s.Flushes s' (Ptr.fold phyRegNum j))
    (hw' : s'.SameWindow st'.new) (hflush : st'.feedback.flush = true)
    (hneed : st'.needFlush = true) (hret : st'.retired = st.retireQueue)
    (hj : j = (g₀.retireN k).base.free ∨ (leak = true ∧ j = (g₀.retireN k).base.free + 1
      ∧ f.info.allocates = true)) :
    Dropped cur g₀ leak k j st' := by
  have hle : (advance f (g₀.retireN k).base).free ≤ (g₀.retireN k).freed := by
    have hs : (g₀.retireN k).flight = [] ++ f :: rest := hf
    exact Nat.le_trans ((g₀.retireN k).advance_free_le_tip hs) hc.inv.free.le
  have hge := hc.inv.base_free_le
  refine ⟨((hc.inv.congr hw).afterFlush hfl ?_ ?_).congr hw', hflush, hneed, hc.le, ?_, ?_⟩
  · rcases hj with rfl | ⟨-, rfl, -⟩ <;> omega
  · rcases hj with rfl | ⟨-, rfl, hal⟩
    · exact hge
    · simpa [advance, hal] using hle
  · rw [hret, hc.released]
  · rcases hj with h | ⟨h₁, h₂, -⟩
    · exact .inl h
    · exact .inr ⟨h₁, h₂⟩

/-- An instruction that is no load pops the checkpoint it was given. -/
theorem OpInfo.Shaped.pops {f : Flight} (h : f.info.Shaped)
    (hl : (f.info.hasCheckpoint && f.info.opUnit == .lu) = false) :
    f.pops = f.info.hasCheckpoint := by
  unfold Flight.pops
  cases hc : f.info.hasCheckpoint with
  | false => simp
  | true =>
    rcases h.checkpoint hc with ⟨hb, -⟩ | hu
    · simp [hb]
    · simp [hc, hu] at hl

/-- **What one turn does to the window.** -/
theorem Committing.turn (hc : Committing cur g₀ k st) {go : Bool} (leak : Bool)
    (hleak : ∀ id, Fifo.customerGetFrontId cur.rob st.new.rob = some id →
      (cur.rob.buffer id).finish = true → (cur.rob.buffer id).hasException = true →
      (cur.rob.buffer id).oldPhyRegIdValid = true → leak = true)
    (h : CommitTurn cur st st' go) :
    (Committing cur g₀ (k + 1) st' ∧ ∃ f rest, (g₀.retireN k).flight = f :: rest
        ∧ (go = false → f.info.opUnit = .bru)) ∨
      (go = false ∧ (Committing cur g₀ k st' ∨ (∃ j, Dropped cur g₀ leak k j st')
        ∨ (∃ j, Dropped cur g₀ leak (k + 1) j st')
          ∧ ∃ f rest, (g₀.retireN k).flight = f :: rest ∧ f.info.opUnit = .bru)) := by
  cases h with
  | pause hw hl =>
    refine .inr ⟨rfl, .inl ⟨hc.inv.congr hw, hc.tail.congr hw, hl.flush.trans hc.flush,
      hl.needFlush.trans hc.needFlush, hl.hasException.trans hc.hasException, hc.le,
      hl.retireQueue.trans hc.queue, hc.finished, ?_, ?_⟩⟩
    · rw [hl.retireQueue, hc.released]
    · rw [hw.free]
      exact hc.frame
  | exception id s s' hid hfin hex hw hfl hw' hl =>
    obtain ⟨-, f, rest, hf, -, ht, hsh⟩ := hc.front hid
    refine .inr ⟨rfl, .inr (.inl ⟨(advance f (g₀.retireN k).base).free, ?_⟩)⟩
    rw [ht.newFree] at hfl
    have hret : st'.retired = st.retireQueue := by
      simp [CommitState.retired, hl.hasException, hl.retireQueue]
    refine hc.drop hf hw hfl hw' hl.flush hl.needFlush hret ?_
    cases hal : f.info.allocates with
    | false => exact .inl (by simp [advance, hal])
    | true =>
      have hexc : (cur.rob.buffer id).hasException = true := by
        rcases hex with h | h
        · exact h
        · rw [ht.storeBuffer] at h
          have := hsh.store h
          rw [hal] at this
          cases this
      exact .inr ⟨hleak id hid hfin hexc (ht.allocates.trans hal), by simp [advance, hal], rfl⟩
  | conflict id hid hfin hfl hl =>
    obtain ⟨-, f, rest, hf, -, ht, -⟩ := hc.front hid
    rw [ht.oldFree] at hfl
    have hret : st'.retired = st.retireQueue := by
      simp [CommitState.retired, hl.hasException, hc.hasException, hl.retireQueue]
    exact .inr ⟨rfl, .inr (.inl ⟨_, hc.drop hf (.refl _) hfl (.refl _) hl.flush hl.needFlush hret
      (.inl rfl)⟩)⟩
  | retire id s _ hid hfin hr hw h₁ h₂ h₃ h₄ hgo =>
    obtain ⟨-, f, rest, hf, -, ht, -⟩ := hc.front hid
    refine .inl ⟨hc.retire hid hfin hr hw h₁ h₂ h₃ h₄, f, rest, hf, fun hg => ?_⟩
    have hb := hgo hg
    rw [ht.bruOp] at hb
    exact beq_iff_eq.mp hb
  | mispredict id s s' hid hfin hb hr hw hfl hl =>
    obtain ⟨-, f, rest, hf, -, ht, -⟩ := hc.front hid
    -- the branch retires first; what is dropped is the window behind it
    have hc' : Committing cur g₀ (k + 1) { st with
        new := s', retireQueue := st.retireQueue ++ [(id, cur.rob.buffer id)] } :=
      hc.retire hid hfin hr hw rfl rfl rfl rfl
    rw [ht.newFree] at hfl
    have hbase : (g₀.retireN (k + 1)).base = advance f (g₀.retireN k).base := by
      rw [Ghost.retireN_succ hf]
      rfl
    rw [← hbase] at hfl
    have hret : st'.retired = st.retireQueue ++ [(id, cur.rob.buffer id)] := by
      simp [CommitState.retired, hl.hasException, hc.hasException, hl.retireQueue]
    rw [ht.bruOp] at hb
    refine .inr ⟨rfl, .inr (.inr ⟨⟨_, hc'.inv.afterFlush hfl (Nat.le_refl _) hc'.inv.base_free_le,
      hl.flush, hl.needFlush, hc'.le, ?_, .inl rfl⟩, f, rest, hf, beq_iff_eq.mp hb⟩)⟩
    rw [hret]
    exact hc'.released

/-- The entry the loop looks at is the next one of the contents. -/
theorem Committing.contents (hc : Committing cur g₀ k st)
    (hrob : Fifo.Window cur.rob g₀.base.rob g₀.tip.rob) {id : Nat}
    (hid : Fifo.customerGetFrontId cur.rob st.new.rob = some id) (n : Nat) :
    (cur.rob.contents.drop k).take (n + 1)
      = cur.rob.buffer id :: (cur.rob.contents.drop (k + 1)).take n := by
  obtain ⟨hid', f, rest, hf, -⟩ := hc.front hid
  have hlen : k < g₀.flight.length := by
    rw [Ghost.retireN_flight] at hf
    have := congrArg List.length hf
    rw [List.length_drop, List.length_cons] at this
    omega
  have hbase : (g₀.retireN k).base.rob = g₀.base.rob + k := by
    rw [Ghost.retireN_base, tip_rob, List.length_take, Nat.min_eq_left (Nat.le_of_lt hlen)]
  have htip : g₀.tip.rob = g₀.base.rob + g₀.flight.length := tip_rob _ _
  rw [hrob.contents_eq (by decide)]
  have hk : k < (slots robSize cur.rob.buffer g₀.base.rob g₀.tip.rob).length := by
    rw [slots_length]
    omega
  rw [List.drop_eq_getElem_cons hk, List.take_succ_cons]
  congr 1
  have := slots_getElem? (n := robSize) cur.rob.buffer (a := g₀.base.rob) (b := g₀.tip.rob) (k := k)
    (by omega)
  rw [List.getElem?_eq_getElem hk] at this
  rw [Option.some.inj this, hid', hbase]

/-- The instruction of the turn is the next one of the window. -/
theorem take_drop_retireN {f : Flight} {rest : List Flight}
    (hf : (g₀.retireN k).flight = f :: rest) (n : Nat) :
    (g₀.flight.drop k).take (n + 1) = f :: (g₀.flight.drop (k + 1)).take n := by
  rw [Ghost.retireN_flight] at hf
  rw [hf, List.take_succ_cons, ← List.drop_drop, hf]
  rfl

/-- The instructions retired from turn `k` on, when one more was retired in that turn. -/
theorem mem_take_drop {f : Flight} {rest : List Flight} {k' : Nat}
    (hf : (g₀.retireN k).flight = f :: rest) {i : Flight}
    (hi : i ∈ (g₀.flight.take k').drop k) :
    i = f ∨ i ∈ (g₀.flight.take k').drop (k + 1) := by
  rw [Ghost.retireN_flight] at hf
  rw [List.drop_take, hf] at hi
  rw [List.drop_take, ← List.drop_drop, hf]
  cases hn : k' - k with
  | zero => rw [hn] at hi; simp at hi
  | succ n =>
    rw [hn, List.take_succ_cons] at hi
    rw [show k' - (k + 1) = n by omega]
    exact List.mem_cons.mp hi

/-- **The output loop retires a prefix, and may drop the rest.** -/
theorem commitLoop_effect (hrob : Fifo.Window cur.rob g₀.base.rob g₀.tip.rob) {firstId n : Nat}
    (hc : Committing cur g₀ k st)
    (h0 : k = 0 → st.new.isWaitingAck = cur.isWaitingAck
      ∧ st.new.retiredStoreBuffer = cur.retiredStoreBuffer)
    (h : commitLoop cur writeAck firstId n k st = some st') :
    ∃ k', (Committing cur g₀ k' st' ∨
        ∃ j, Dropped cur g₀ (cur.leaksFrom writeAck k ((cur.rob.contents.drop k).take n)) k' j st')
      ∧ (cur.dropsFrom writeAck k ((g₀.flight.drop k).take n) = false →
        ∀ f ∈ (g₀.flight.take k').drop k, f.pops = f.info.hasCheckpoint) := by
  induction n generalizing k st with
  | zero =>
    cases h
    exact ⟨k, .inl hc, fun _ f hf => by simp at hf⟩
  | succ n ih =>
    obtain ⟨⟨st₁, go⟩, h₁, h₂⟩ := Option.bind_eq_some_iff.mp h
    have hturn := commitOne_turn (fun id hid hfin => hc.plainLoad hid hfin) h₁
    have hstep := hc.turn (cur.leaksFrom writeAck k ((cur.rob.contents.drop k).take (n + 1)))
      (fun id hid hfin hex hold => by
        rw [hc.contents hrob hid, Core.leaksFrom, hfin, hex, hold]
        rfl) hturn
    have hbru : ∀ {f rest}, (g₀.retireN k).flight = f :: rest → f.info.opUnit = .bru →
        ∀ i ∈ (g₀.flight.take (k + 1)).drop k, i.pops = i.info.hasCheckpoint := by
      intro f rest hf hb i hi
      rcases mem_take_drop hf hi with rfl | hi
      · exact (hc.inv.frontEntry hf).shaped.pops (by simp [hb])
      · simp at hi
    cases go with
    | false =>
      cases h₂
      rcases hstep with ⟨h, f, rest, hf, hb⟩ | ⟨-, h | ⟨j, h⟩ | ⟨⟨j, h⟩, f, rest, hf, hb⟩⟩
      · exact ⟨k + 1, .inl h, fun _ => hbru hf (hb rfl)⟩
      · exact ⟨k, .inl h, fun _ f hf => by simp at hf⟩
      · exact ⟨k, .inr ⟨j, h⟩, fun _ f hf => by simp at hf⟩
      · exact ⟨k + 1, .inr ⟨j, h⟩, fun _ => hbru hf hb⟩
    | true =>
      rcases hstep with ⟨hc', f, rest, hf, -⟩ | ⟨hgo, -⟩
      · obtain ⟨k', hk', hpops⟩ := ih hc' (fun hk => absurd hk (Nat.succ_ne_zero k)) h₂
        cases hid : Fifo.customerGetFrontId cur.rob st.new.rob with
        | none =>
          simp only [commitOne, hid, Option.some.injEq, Prod.mk.injEq] at h₁
          cases h₁.2
        | some id =>
          have hp := commitOne_passes (fun id hid hfin => hc.plainLoad hid hfin) hid h0 h₁
          obtain ⟨-, f', rest', hf', hfid, -, hsh⟩ := hc.front hid
          have hff : f' = f := by
            rw [hf] at hf'
            exact (List.cons.inj hf').1.symm
          subst hff
          refine ⟨k', hk'.imp_right ?_, fun hd i hi => ?_⟩
          · rintro ⟨j, h⟩
            refine ⟨j, ?_⟩
            have hexc : (cur.rob.buffer id).hasException = false := by
              simp only [Core.passes, Bool.and_eq_true, Bool.not_eq_true'] at hp
              exact hp.1.1.1.2
            rw [hc.contents hrob hid, Core.leaksFrom, hexc, hp]
            simpa using h
          · rw [take_drop_retireN hf, Core.dropsFrom, hfid, hp, Bool.true_and,
              Bool.or_eq_false_iff] at hd
            rcases mem_take_drop hf hi with rfl | hi
            · exact hsh.pops hd.1
            · exact hpops hd.2 i hi
      · cases hgo

end DreamCore
