import DreamCore.Backend.Outcome

/-!
# What commit tells dispatch

Dispatch learns from commit which instructions are done and which one is next.
Commit fills both fields in as soon as it sees a finished entry, before it knows
whether the entry can retire. An entry that then stays — a store that has to wait,
a load that has read too early — has been reported all the same, and the one
behind it has been named as the next.
-/

namespace DreamCore

open Ring

/-- The ROB slot of the `n`-th oldest instruction. -/
def slotAt (fl : List Flight) (n : Nat) : Option Nat := fl[n]?.map fun f => f.info.robId.id

/-- **A report on the `n` oldest instructions.** -/
structure CommitFeedback.Reports (fb : CommitFeedback) (fl : List Flight) (n : Nat) : Prop where
  committed : ∀ j, fb.committedRobId j = if j < n then slotAt fl j else none
  next : fb.nextHandleRobId = slotAt fl n

/-- **The entry of turn `j` is finished and stays**: a load that has to be fetched again, a store
that is not the first of its group, finds no room or waits for the bus. -/
def Core.stays (cur : Core) (writeAck : Option BusErrno) (j : Nat) (item : RobItem) : Bool :=
  item.finish && !item.hasException
    && ((item.loadQueueIdValid && cur.loadQueue.itemConflict item.loadQueueId)
      || (item.storeBufferIdValid
        && !(j == 0
          && !(isCacheable (cur.storeBuffer.itemAddr item.storeBufferId)
            && Fifo.producerIsFull cur.retiredStoreBuffer.ring cur.retiredStoreBuffer.ring)
          && (if cur.isWaitingAck then writeAck.isSome
            else isCacheable (cur.storeBuffer.itemAddr item.storeBufferId)))))

/-- Among `items`, the entries from turn `j` on, the loop meets one that stays. -/
def Core.staysFrom (cur : Core) (writeAck : Option BusErrno) : Nat → List RobItem → Bool
  | _, [] => false
  | j, item :: items =>
      cur.stays writeAck j item
        || (cur.passes writeAck j item && cur.staysFrom writeAck (j + 1) items)

/-- **This cycle commit leaves its loop at a finished entry that stays.** -/
def Core.misreports (cur : Core) (writeAck : Option BusErrno) : Bool :=
  cur.staysFrom writeAck 0 (cur.rob.contents.take commitWidth)

variable {cur : Core} {st st' : CommitState} {writeAck : Option BusErrno} {id : Nat}
  {item : RobItem} {go : Bool}

/-! ## One turn -/

/-- The two fields of the report are as they were, and so is `idle`. -/
def CommitState.SameReport (st st' : CommitState) : Prop :=
  st'.feedback.nextHandleRobId = st.feedback.nextHandleRobId
    ∧ st'.feedback.committedRobId = st.feedback.committedRobId
    ∧ st'.feedback.idle = st.feedback.idle

theorem CommitState.SameReport.trans {st₁ : CommitState} (h : st.SameReport st₁)
    (h' : st₁.SameReport st') : st.SameReport st' :=
  ⟨h'.1.trans h.1, h'.2.1.trans h.2.1, h'.2.2.trans h.2.2⟩

theorem commitException_report {e : RiscvException} {v : Word}
    (h : commitException cur id item e v st = some st') : st.SameReport st' := by
  simp only [commitException, Option.bind_eq_bind, Option.bind_eq_some_iff] at h
  obtain ⟨s, -, h⟩ := h
  cases h
  exact ⟨rfl, rfl, rfl⟩

theorem commitLoad_report (h : commitLoad cur item st = some (st', go)) : st.SameReport st' := by
  unfold commitLoad at h
  split at h
  · cases h
    exact ⟨rfl, rfl, rfl⟩
  · split at h
    · simp only [Option.bind_eq_bind, Option.bind_eq_some_iff] at h
      obtain ⟨s, -, h⟩ := h
      cases h
      exact ⟨rfl, rfl, rfl⟩
    · cases h
      exact ⟨rfl, rfl, rfl⟩

/-- **The store handle and the log**: it goes on, stays without a trace, or logs an exception. -/
theorem commitStore_report (hs : item.storeBufferIdValid = true)
    (h : commitStore cur writeAck id item st = some (st', go)) :
    st.SameReport st' ∧
      ((go = false ∧ st'.retireQueue = st.retireQueue
          ∧ (if st.new.isWaitingAck then writeAck.isSome
            else isCacheable (cur.storeBuffer.itemAddr item.storeBufferId)) = false) ∨
        (go = false ∧ st'.retireQueue = st.retireQueue ++ [(id, item)]
          ∧ st.new.isWaitingAck = true ∧ writeAck = some .error) ∨
        (go = true ∧ st'.retireQueue = st.retireQueue)) := by
  unfold commitStore at h
  simp only [hs, Bool.not_true, if_false, Bool.false_eq_true, Option.bind_eq_bind,
    Option.bind_eq_some_iff] at h
  obtain ⟨tItem, -, addr, haddr, size, -, -, -, h⟩ := h
  have haddr' := StoreBuffer.getAddr_eq_some haddr
  split at h
  · rename_i hw
    split at h
    · cases h
      refine ⟨⟨rfl, rfl, rfl⟩, .inl ⟨rfl, rfl, ?_⟩⟩
      rw [if_pos hw]
      rfl
    · rename_i errno
      split at h
      · rename_i herr
        rw [Option.bind_eq_some_iff] at h
        obtain ⟨st₁, h₁, h⟩ := h
        cases h
        obtain ⟨-, hlog⟩ := commitException_eq_some h₁
        have hrep := commitException_report h₁
        refine ⟨⟨hrep.1, hrep.2.1, hrep.2.2⟩, .inr (.inl ⟨rfl, hlog.retireQueue, hw, ?_⟩)⟩
        rw [herr]
      · cases h
        exact ⟨⟨rfl, rfl, rfl⟩, .inr (.inr ⟨rfl, rfl⟩)⟩
  · rename_i hw
    split at h
    · rw [Option.bind_eq_some_iff] at h
      obtain ⟨ring, -, h⟩ := h
      cases h
      exact ⟨⟨rfl, rfl, rfl⟩, .inr (.inr ⟨rfl, rfl⟩)⟩
    · rename_i hcache
      cases h
      refine ⟨⟨rfl, rfl, rfl⟩, .inl ⟨rfl, rfl, ?_⟩⟩
      rw [if_neg hw, ← haddr']
      simpa using hcache

theorem commitBranch_report (h : commitBranch cur item st = some (st', go)) :
    st.SameReport st' ∧ st'.retireQueue = st.retireQueue ∧ go = !item.bruOp := by
  have hmret : st.SameReport (commitMret cur item st)
      ∧ (commitMret cur item st).retireQueue = st.retireQueue := by
    unfold commitMret
    split
    · exact ⟨⟨rfl, rfl, rfl⟩, rfl⟩
    · exact ⟨⟨rfl, rfl, rfl⟩, rfl⟩
  unfold commitBranch at h
  split at h
  · rename_i hb
    cases h
    rw [hb]
    exact ⟨⟨rfl, rfl, rfl⟩, rfl, rfl⟩
  · rename_i hb
    rw [Bool.not_eq_true, Bool.not_eq_false'] at hb
    rw [hb]
    split at h
    · obtain ⟨st₁, h₁, h⟩ := Option.map_eq_some_iff.mp h
      cases h
      refine ⟨hmret.1.trans ?_, ?_, rfl⟩
      · unfold commitPredicted at h₁
        dsimp only at h₁
        split at h₁
        · cases h₁
          exact ⟨rfl, rfl, rfl⟩
        · split at h₁
          · cases h₁
          · split at h₁
            · cases h₁
              exact ⟨rfl, rfl, rfl⟩
            · simp only [commitMispredict, Option.bind_eq_bind, Option.bind_eq_some_iff] at h₁
              obtain ⟨s, -, h₁⟩ := h₁
              cases h₁
              exact ⟨rfl, rfl, rfl⟩
      · rcases commitPredicted_cases h₁ with ⟨hl, -⟩ | ⟨-, -, hl⟩
        · exact hl.retireQueue.trans hmret.2
        · rw [hl.retireQueue, List.append_nil]
          exact hmret.2
    · cases h
      exact ⟨⟨hmret.1.1, hmret.1.2⟩, hmret.2, rfl⟩

/-- A store that is blocked is not the first of its group, or has no room. -/
theorem storeBlocked_eq_true {i : Nat} (h : storeBlocked cur i item st = some true) :
    item.storeBufferIdValid = true
      ∧ (i = 0 → (isCacheable (cur.storeBuffer.itemAddr item.storeBufferId)
        && Fifo.producerIsFull cur.retiredStoreBuffer.ring st.new.retiredStoreBuffer.ring)
          = true) := by
  unfold storeBlocked at h
  split at h
  · cases h
  · rename_i hs
    refine ⟨by simpa using hs, fun hi => ?_⟩
    rw [if_neg (not_not.mpr hi), Option.bind_eq_bind, Option.bind_eq_some_iff] at h
    obtain ⟨addr, haddr, h⟩ := h
    rw [← StoreBuffer.getAddr_eq_some haddr]
    exact Option.some.inj h

/-- **The handles of a finished entry and the log.** -/
theorem commitHandles_report {i : Nat} (hplain : item.PlainLoad) (hfin : item.finish = true)
    (hex : item.hasException = false)
    (hblk : item.storeBufferIdValid = true → i = 0 ∧ st.new.isWaitingAck = cur.isWaitingAck
      ∧ (isCacheable (cur.storeBuffer.itemAddr item.storeBufferId)
        && Fifo.producerIsFull cur.retiredStoreBuffer.ring cur.retiredStoreBuffer.ring) = false)
    (h : commitHandles cur writeAck id item st = some (st', go)) :
    st.SameReport st'
      ∧ st'.retireQueue = st.retireQueue
          ++ (if cur.stays writeAck i item then [] else [(id, item)])
      ∧ (go = false → cur.passes writeAck i item = false)
      ∧ (go = true → cur.stays writeAck i item = false) := by
  rcases andThen_eq_some h with ⟨st₁, h₁, h⟩ | ⟨h₁, hgo⟩
  · -- the load handle lets the entry through, so it stays only as a store
    obtain ⟨hload, hwait, hq₁⟩ : (item.loadQueueIdValid
        && cur.loadQueue.itemConflict item.loadQueueId) = false
        ∧ st₁.new.isWaitingAck = st.new.isWaitingAck ∧ st₁.retireQueue = st.retireQueue := by
      rcases commitLoad_cases hplain h₁ with ⟨hv, rfl, -⟩ | ⟨-, -, hgo, -⟩ | ⟨-, hc, -, rfl⟩
      · exact ⟨by simp [hv], rfl, rfl⟩
      · cases hgo
      · exact ⟨by simp [hc], rfl, rfl⟩
    have hrep₁ := commitLoad_report h₁
    rcases andThen_eq_some h with ⟨st₂, h₂, h⟩ | ⟨h₂, hgo⟩
    · obtain ⟨st₃, h₃, h₄⟩ := Option.bind_eq_some_iff.mp h
      obtain ⟨hfb, -, hq₃, -⟩ := commitRetire_eq_some h₃
      obtain ⟨hrep₄, hq₄, hgo⟩ := commitBranch_report h₄
      have hstore : st₁.SameReport st₂ ∧ st₂.retireQueue = st₁.retireQueue
          ∧ cur.stays writeAck i item = false := by
        cases hs : item.storeBufferIdValid with
        | false =>
          rcases commitStore_cases h₂ with ⟨-, rfl, -⟩ | ⟨hv, -⟩ | ⟨hv, -⟩ | ⟨hv, -⟩
          · refine ⟨⟨rfl, rfl, rfl⟩, rfl, ?_⟩
            rw [Core.stays, hload, hs]
            simp
          all_goals rw [hs] at hv; cases hv
        | true =>
          obtain ⟨hi, hack, hroom⟩ := hblk hs
          obtain ⟨hrep, hcases⟩ := commitStore_report hs h₂
          rcases commitStore_cases h₂ with ⟨hv, -⟩ | ⟨-, hg, -⟩ | ⟨-, hg, -⟩ | ⟨-, -, hl, hsend, -⟩
          · rw [hs] at hv
            cases hv
          · cases hg
          · cases hg
          · refine ⟨hrep, hl.retireQueue, ?_⟩
            rw [hwait, hack] at hsend
            rw [Core.stays, hload, hs, hi, hroom]
            split at hsend <;> rename_i hw
            · simp [hw, hsend]
            · simp [hw, hsend]
      obtain ⟨hrep₂, hq₂, hstays⟩ := hstore
      refine ⟨hrep₁.trans (hrep₂.trans (.trans ⟨by rw [hfb], by rw [hfb], by rw [hfb]⟩ hrep₄)), ?_, ?_,
        fun _ => hstays⟩
      · rw [hq₄, hq₃, hq₂, hq₁, hstays]
        rfl
      · intro hg
        rw [hg] at hgo
        have hb : item.bruOp = true := by
          cases hb : item.bruOp with
          | true => rfl
          | false =>
            rw [hb] at hgo
            cases hgo
        simp [Core.passes, hb]
    · dsimp only at hgo
      subst hgo
      have hs : item.storeBufferIdValid = true := by
        rcases commitStore_cases h₂ with ⟨-, -, hg⟩ | ⟨hv, -⟩ | ⟨hv, -⟩ | ⟨hv, -⟩
        · cases hg
        all_goals exact hv
      obtain ⟨hi, hack, hroom⟩ := hblk hs
      obtain ⟨hrep, hcases⟩ := commitStore_report hs h₂
      rw [hwait, hack] at hcases
      refine ⟨hrep₁.trans hrep, ?_, fun _ => ?_, fun hg => by cases hg⟩
      · rw [Core.stays, hload, hs, hi, hroom, hfin, hex]
        rcases hcases with ⟨-, hq, hsend⟩ | ⟨-, hq, hw, herr⟩ | ⟨hg, -⟩
        · rw [hq, hq₁, hsend]
          simp
        · rw [hq, hq₁, if_pos hw, herr]
          simp
        · cases hg
      · rw [Core.passes, hs]
        rcases hcases with ⟨-, -, hsend⟩ | ⟨-, -, hw, herr⟩ | ⟨hg, -⟩
        · split at hsend <;> rename_i hw
          · have : writeAck = none := by simpa using hsend
            simp [hw, this]
          · simp [hw, hsend]
        · simp [hw, herr]
        · cases hg
  · -- the load handle sends the load back
    dsimp only at hgo
    subst hgo
    rcases commitLoad_cases hplain h₁ with ⟨-, -, hg⟩ | ⟨hv, hc, -, -, hl⟩ | ⟨-, -, hg, -⟩
    · cases hg
    · refine ⟨commitLoad_report h₁, ?_, fun _ => by simp [Core.passes, hv, hc], fun hg => by cases hg⟩
      rw [hl.retireQueue, Core.stays, hfin, hex, hv, hc]
      rfl
    · cases hg

/-- **No handle touches the report.** -/
theorem commitFinished_sameReport {i : Nat}
    (h : commitFinished cur writeAck i id item st = some (st', go)) :
    st.SameReport st' := by
  unfold commitFinished at h
  split at h
  · obtain ⟨st₁, h₁, h⟩ := Option.map_eq_some_iff.mp h
    cases h
    exact commitException_report h₁
  · obtain ⟨blocked, -, h⟩ := Option.bind_eq_some_iff.mp h
    split at h
    · cases h
      exact ⟨rfl, rfl, rfl⟩
    · rcases andThen_eq_some h with ⟨st₁, h₁, h⟩ | ⟨h₁, -⟩
      · have hload := commitLoad_report h₁
        have hstore : ∀ {st₂ go'}, commitStore cur writeAck id item st₁ = some (st₂, go') →
            st.SameReport st₂ := by
          intro st₂ go' h₂
          cases hs : item.storeBufferIdValid with
          | true => exact hload.trans (commitStore_report hs h₂).1
          | false =>
            rcases commitStore_cases h₂ with ⟨-, rfl, -⟩ | ⟨hv, -⟩ | ⟨hv, -⟩ | ⟨hv, -⟩
            · exact hload
            all_goals rw [hs] at hv; cases hv
        rcases andThen_eq_some h with ⟨st₂, h₂, h⟩ | ⟨h₂, -⟩
        · obtain ⟨st₃, h₃, h₄⟩ := Option.bind_eq_some_iff.mp h
          obtain ⟨hfb, -⟩ := commitRetire_eq_some h₃
          have hretire : st₂.SameReport st₃ := ⟨by rw [hfb], by rw [hfb], by rw [hfb]⟩
          exact ((hstore h₂).trans hretire).trans (commitBranch_report h₄).1
        · exact hstore h₂
      · exact commitLoad_report h₁

/-- **One finished entry**: it is logged unless it stays, and the loop goes on where it passes. -/
theorem commitFinished_report {i : Nat} (hplain : item.PlainLoad) (hfin : item.finish = true)
    (h : commitFinished cur writeAck i id item st = some (st', go))
    (h0 : i = 0 → st.new.isWaitingAck = cur.isWaitingAck
      ∧ st.new.retiredStoreBuffer = cur.retiredStoreBuffer) :
    st.SameReport st'
      ∧ st'.retireQueue = st.retireQueue
          ++ (if cur.stays writeAck i item then [] else [(id, item)])
      ∧ (go = false → cur.passes writeAck i item = false)
      ∧ (go = true → cur.stays writeAck i item = false) := by
  unfold commitFinished at h
  split at h
  · rename_i hex
    obtain ⟨st₁, h₁, h⟩ := Option.map_eq_some_iff.mp h
    cases h
    obtain ⟨-, hlog⟩ := commitException_eq_some h₁
    refine ⟨commitException_report h₁, ?_, fun _ => by simp [Core.passes, hex],
      fun hg => by cases hg⟩
    rw [hlog.retireQueue]
    simp [Core.stays, hex]
  · rename_i hex
    rw [Bool.not_eq_true] at hex
    obtain ⟨blocked, hblk, h⟩ := Option.bind_eq_some_iff.mp h
    cases blocked with
    | true =>
      cases h
      obtain ⟨hs, hfull⟩ := storeBlocked_eq_true hblk
      have hno : ∀ b, (i == 0 && !(isCacheable (cur.storeBuffer.itemAddr item.storeBufferId)
          && Fifo.producerIsFull cur.retiredStoreBuffer.ring cur.retiredStoreBuffer.ring) && b)
          = false := by
        intro b
        by_cases hi : i = 0
        · have := hfull hi
          rw [(h0 hi).2] at this
          simp [this]
        · simp [hi]
      refine ⟨⟨rfl, rfl, rfl⟩, ?_, fun _ => ?_, fun hg => by cases hg⟩
      · rw [Core.stays, hno, hfin, hex, hs]
        simp
      · rw [Core.passes, hno, hs]
        simp
    | false =>
      simp only [Bool.false_eq_true, if_false] at h
      refine commitHandles_report hplain hfin hex (fun hs => ?_) h
      obtain ⟨hi, hroom⟩ := storeBlocked_eq_false hblk hs
      rw [(h0 hi).2] at hroom
      exact ⟨hi, (h0 hi).1, hroom⟩

/-! ## The loop -/

variable {g₀ : Ghost} {k : Nat}

/-- **The front of what is left** is the next instruction of the window. -/
theorem Committing.front_eq (hc : Committing cur g₀ k st) :
    Fifo.customerGetFrontId cur.rob st.new.rob = slotAt g₀.flight k := by
  have hget : g₀.flight[k]? = (g₀.retireN k).flight.head? := by
    rw [Ghost.retireN_flight, List.head?_drop]
  have hw := hc.inv.rob
  have hempty := Fifo.customerIsEmpty_iff (by decide) hw.rptr (hc.tail.robWptr.trans hw.wptr) hw.le
    hw.size
  rw [Ghost.tip, tip_rob] at hempty
  unfold Fifo.customerGetFrontId slotAt
  rw [hget]
  cases hf : (g₀.retireN k).flight with
  | nil =>
    rw [hf] at hempty
    rw [if_pos (hempty.mpr rfl)]
    rfl
  | cons f rest =>
    rw [hf, List.length_cons] at hempty
    rw [if_neg fun he => by have := hempty.mp he; omega, hw.rptr, List.head?_cons, Option.map_some,
      (hc.inv.frontEntry hf).robId]

/-- **Where the `n`-th instruction of a window sits** in the ROB. -/
theorem Inv.slotAt_eq {s : Core} {g : Ghost} (h : Inv s g) (n : Nat) :
    slotAt g.flight n
      = if n < g.flight.length then some ((g.base.rob + n) % robSize) else none := by
  unfold slotAt
  by_cases hn : n < g.flight.length
  · have hsplit : g.flight = g.flight.take n ++ g.flight[n] :: g.flight.drop (n + 1) := by
      rw [← List.drop_eq_getElem_cons hn, List.take_append_drop]
    rw [if_pos hn, List.getElem?_eq_getElem hn, Option.map_some, (h.entry hsplit).robId, Ptr.fold_id,
      tip_rob, List.length_take, Nat.min_eq_left (Nat.le_of_lt hn)]
  · rw [if_neg hn, List.getElem?_eq_none (Nat.le_of_not_lt hn)]
    rfl

/-- **The next id behind the front** is the instruction after the next, where there is one. -/
theorem Committing.next_eq (hcur : Inv cur g₀) (hc : Committing cur g₀ k st)
    {id firstId next : Nat} {v : Bool}
    (hfirst : slotAt g₀.flight 0 = some firstId) (hid : slotAt g₀.flight k = some id)
    (h : Fifo.customerGetNextId cur.rob st.new.rob id = some (next, v)) :
    (if v && next != firstId then some next else none) = slotAt g₀.flight (k + 1) := by
  have hsize := hcur.rob.size
  have htip : g₀.tip.rob = g₀.base.rob + g₀.flight.length := tip_rob _ _
  have hrptr : st.new.rob.rptr = Ptr.fold robSize (g₀.base.rob + k) := by
    rw [hc.inv.rob.rptr, Ghost.retireN_base, tip_rob, List.length_take, Nat.min_eq_left hc.le]
  rw [hcur.slotAt_eq] at hfirst hid ⊢
  split at hid
  · rename_i hk
    unfold Fifo.customerGetNextId at h
    split at h
    · cases h
      have hnext : (id + 1) % robSize = (g₀.base.rob + (k + 1)) % robSize := by
        rw [← Option.some.inj hid, Nat.mod_add_mod, Nat.add_assoc]
      have hvalid : Fifo.customerCheckIdValid cur.rob st.new.rob ((id + 1) % robSize) = true
          ↔ k + 1 < g₀.flight.length := by
        rw [Fifo.customerCheckIdValid, hrptr, hcur.rob.wptr, htip,
          Fifo.checkIdValid_fold (by decide) (by omega) (by omega), hnext]
        constructor
        · rintro ⟨j, hj₁, hj₂, hj⟩
          by_contra hlast
          have hclose : g₀.base.rob + (k + 1) < j + robSize := by
            simp only [robSize]
            omega
          exact absurd hj.symm (mod_ne_of_window (by omega) hclose)
        · intro hlt
          exact ⟨g₀.base.rob + (k + 1), by omega, by omega, rfl⟩
      by_cases hlt : k + 1 < g₀.flight.length
      · -- the ring is not so full that the next entry is the first again
        have hne : ((id + 1) % robSize != firstId) = true := by
          rw [if_pos (by omega)] at hfirst
          rw [hnext, ← Option.some.inj hfirst, bne_iff_ne]
          exact (mod_ne_of_window (by omega) (by omega)).symm
        rw [hvalid.mpr hlt, hne, if_pos hlt, hnext]
        rfl
      · rw [Bool.eq_false_iff.mpr fun hv => hlt (hvalid.mp hv), if_neg hlt]
        rfl
    · cases h
  · cases hid

/-- What the loop has logged: the `q` oldest instructions. -/
def CommitState.Logged (st : CommitState) (fl : List Flight) (q : Nat) : Prop :=
  st.retireQueue.map Prod.fst = (fl.take q).map fun f => f.info.robId.id

/-- The entry behind the `n` oldest instructions is one of a load or of a store. -/
def Core.waitsOnMemory (cur : Core) (fl : List Flight) (n : Nat) : Prop :=
  ∃ id, slotAt fl n = some id
    ∧ ((cur.rob.buffer id).loadQueueIdValid || (cur.rob.buffer id).storeBufferIdValid) = true

/-- Only memory accesses stay once they are finished. -/
theorem Core.stays_memory {j : Nat} (h : cur.stays writeAck j item = true) :
    (item.loadQueueIdValid || item.storeBufferIdValid) = true := by
  unfold Core.stays at h
  cases hl : item.loadQueueIdValid with
  | true => rfl
  | false =>
    cases hs : item.storeBufferIdValid with
    | true => rfl
    | false => simp [hl, hs] at h

/-- **One turn of the loop and the report.** -/
theorem commitOne_report (hcur : Inv cur g₀) (hc : Committing cur g₀ k st) {firstId : Nat}
    (hfirst : slotAt g₀.flight 0 = some firstId)
    (hrep : st.feedback.Reports g₀.flight k)
    (h0 : k = 0 → st.new.isWaitingAck = cur.isWaitingAck
      ∧ st.new.retiredStoreBuffer = cur.retiredStoreBuffer)
    (h : commitOne cur writeAck firstId k st = some (st', go)) (n : Nat) :
    (go = false ∧ ∃ q, st'.Logged g₀.flight q ∧ q ≤ g₀.flight.length
        ∧ st'.feedback.Reports g₀.flight (q
          + (cur.staysFrom writeAck k ((cur.rob.contents.drop k).take (n + 1))).toNat)
        ∧ (cur.staysFrom writeAck k ((cur.rob.contents.drop k).take (n + 1)) = true →
          cur.waitsOnMemory g₀.flight q)) ∨
      (go = true ∧ st'.feedback.Reports g₀.flight (k + 1)
        ∧ cur.staysFrom writeAck k ((cur.rob.contents.drop k).take (n + 1))
          = cur.staysFrom writeAck (k + 1) ((cur.rob.contents.drop (k + 1)).take n)) := by
  have hlog : st.Logged g₀.flight k := by
    rw [CommitState.Logged, hc.queue, List.map_map]
    rfl
  have hpass : ∀ id, slotAt g₀.flight k = some id → go = true →
      cur.passes writeAck k (cur.rob.buffer id) = true := by
    rintro id hid rfl
    exact commitOne_passes (fun id hid hfin => hc.plainLoad hid hfin) (hc.front_eq.trans hid) h0 h
  unfold commitOne at h
  rw [hc.front_eq] at h
  cases hid : slotAt g₀.flight k with
  | none =>
    rw [hid] at h
    cases h
    have hlen : g₀.flight.length ≤ k := by
      by_contra hlt
      rw [hcur.slotAt_eq, if_pos (by omega)] at hid
      cases hid
    have hnil : cur.rob.contents.drop k = [] := by
      rw [List.drop_eq_nil_iff, hcur.rob.contents_eq (by decide), slots_length, Ghost.tip, tip_rob]
      omega
    refine .inl ⟨rfl, k, hlog, hc.le, ?_⟩
    rw [hnil]
    exact ⟨hrep, fun hc => by cases hc⟩
  | some id =>
    have hfront := hc.front_eq.trans hid
    rw [hc.contents hcur.rob hfront, Core.staysFrom]
    rw [hid] at h
    dsimp only [Fifo.customerGetItem] at h
    split at h
    · rename_i hfin
      rw [Bool.not_eq_true'] at hfin
      cases h
      refine .inl ⟨rfl, k, hlog, hc.le, ?_⟩
      have : (cur.stays writeAck k (cur.rob.buffer id)
          || (cur.passes writeAck k (cur.rob.buffer id)
            && cur.staysFrom writeAck (k + 1) ((cur.rob.contents.drop (k + 1)).take n))) = false := by
        simp [Core.stays, Core.passes, hfin]
      rw [this]
      exact ⟨hrep, fun hc => by cases hc⟩
    · rename_i hfin
      rw [Bool.not_eq_true', Bool.not_eq_false] at hfin
      obtain ⟨⟨next, v⟩, hnext, h⟩ := Option.bind_eq_some_iff.mp h
      have hplain := hc.plainLoad hfront hfin
      obtain ⟨hsame, hq, hstop, hgo⟩ := commitFinished_report hplain hfin h h0
      -- the report is filled in before anything else is known
      have hseen : st'.feedback.Reports g₀.flight (k + 1) := by
        refine ⟨fun j => ?_, ?_⟩
        · rw [hsame.2.1]
          by_cases hj : j = k
          · rw [hj, if_pos (Nat.lt_succ_self k), hid]
            exact Function.update_self ..
          · refine (Function.update_of_ne hj ..).trans ?_
            rw [hrep.committed]
            by_cases hlt : j < k
            · rw [if_pos hlt, if_pos (by omega)]
            · rw [if_neg hlt, if_neg (by omega)]
        · rw [hsame.1]
          exact hc.next_eq hcur hfirst hid hnext
      have hlen : k < g₀.flight.length := by
        by_contra hge
        rw [hcur.slotAt_eq, if_neg hge] at hid
        cases hid
      have hold : st.retireQueue.map Prod.fst
          = (g₀.flight.take k).map fun f => f.info.robId.id := hlog
      cases go with
      | false =>
        refine .inl ⟨rfl, ?_⟩
        rw [hstop rfl, Bool.false_and, Bool.or_false]
        cases hst : cur.stays writeAck k (cur.rob.buffer id) with
        | true =>
          rw [hst] at hq
          refine ⟨k, ?_, hc.le, hseen, fun _ => ⟨id, hid, Core.stays_memory hst⟩⟩
          rw [CommitState.Logged, hq]
          simpa [commitSeen] using hold
        | false =>
          rw [hst] at hq
          refine ⟨k + 1, ?_, hlen, hseen, fun hs => by cases hs⟩
          obtain ⟨f, hf, hfid⟩ := Option.map_eq_some_iff.mp hid
          rw [CommitState.Logged, hq, List.take_add_one, hf, List.map_append, List.map_append]
          simp [commitSeen, hold, hfid]
      | true =>
        refine .inr ⟨rfl, hseen, ?_⟩
        rw [hgo rfl, hpass id hid rfl, Bool.false_or, Bool.true_and]

/-- **The report of a whole cycle.** Commit handles `q` entries, and reports on one more where it
meets one that stays. -/
theorem commitLoop_report (hcur : Inv cur g₀) {firstId n : Nat} (hc : Committing cur g₀ k st)
    (hfirst : slotAt g₀.flight 0 = some firstId) (hrep : st.feedback.Reports g₀.flight k)
    (h0 : k = 0 → st.new.isWaitingAck = cur.isWaitingAck
      ∧ st.new.retiredStoreBuffer = cur.retiredStoreBuffer)
    (h : commitLoop cur writeAck firstId n k st = some st') :
    ∃ q, st'.Logged g₀.flight q ∧ q ≤ g₀.flight.length ∧ st'.feedback.Reports g₀.flight (q
        + (cur.staysFrom writeAck k ((cur.rob.contents.drop k).take n)).toNat)
      ∧ (cur.staysFrom writeAck k ((cur.rob.contents.drop k).take n) = true →
        cur.waitsOnMemory g₀.flight q) := by
  induction n generalizing k st with
  | zero =>
    cases h
    refine ⟨k, ?_, hc.le, hrep, fun hs => by cases hs⟩
    rw [CommitState.Logged, hc.queue, List.map_map]
    rfl
  | succ n ih =>
    obtain ⟨⟨st₁, go⟩, h₁, h₂⟩ := Option.bind_eq_some_iff.mp h
    rcases commitOne_report hcur hc hfirst hrep h0 h₁ n with ⟨hgo, hdone⟩ | ⟨hgo, hrep₁, hrest⟩
    · subst hgo
      cases h₂
      exact hdone
    · subst hgo
      have hturn := commitOne_turn (fun id hid hfin => hc.plainLoad hid hfin) h₁
      rcases hc.turn true (fun _ _ _ _ _ => rfl) hturn with ⟨hc₁, -⟩ | ⟨hgo, -⟩
      · rw [hrest]
        exact ih hc₁ hrep₁ (fun hk => absurd hk (Nat.succ_ne_zero k)) h₂
      · cases hgo

/-- The interrupt block reports nothing. -/
theorem commitInterrupt_report (cur new : Core) (inp : CommitInput) :
    (commitInterrupt cur new inp).retireQueue = []
      ∧ (commitInterrupt cur new inp).feedback.committedRobId = (fun _ => none)
      ∧ (commitInterrupt cur new inp).feedback.nextHandleRobId = none := by
  unfold commitInterrupt
  split
  · exact ⟨rfl, rfl, rfl⟩
  · split
    · exact ⟨rfl, rfl, rfl⟩
    · exact ⟨rfl, rfl, rfl⟩

/-- **What a run of commit reports**, and what it has handled. -/
theorem commitRun_report {new : Core} {inp : CommitInput} (hcur : Inv cur g₀)
    (hsame : cur.SameWindow new) (hack : new.isWaitingAck = cur.isWaitingAck)
    (hrsb : new.retiredStoreBuffer = cur.retiredStoreBuffer)
    (h : commitRun cur new inp = some st) :
    ∃ q, st.Logged g₀.flight q ∧ q ≤ g₀.flight.length
      ∧ st.feedback.Reports g₀.flight (q + (cur.misreports inp.writeAck).toNat)
      ∧ (cur.misreports inp.writeAck = true → cur.waitsOnMemory g₀.flight q) := by
  have hnew := hcur.congr hsame
  have htail : cur.SameTail new :=
    Core.SameTail.congr ⟨rfl, rfl, rfl, rfl, rfl, rfl⟩ hsame
  have hstart : ∀ fb : CommitFeedback, fb.flush = false → fb.hasException = false →
      Committing cur g₀ 0 { new := new, feedback := fb } := fun fb h₁ h₂ =>
    ⟨hnew, htail, h₁, rfl, h₂, Nat.zero_le _, rfl, (by simp), (List.append_nil _).symm,
      fun j _ _ => by rw [hsame.free]⟩
  -- with nothing in flight there is nothing to report
  have hnil : g₀.flight = [] → cur.misreports inp.writeAck = false := by
    intro hf
    have : cur.rob.contents = [] := by
      rw [hcur.rob.contents_eq (by decide), Ghost.tip, hf]
      exact slots_self ..
    rw [Core.misreports, this]
    rfl
  unfold commitRun at h
  dsimp only at h
  rcases commitInterrupt_cases cur new inp with ⟨w, hint⟩ | ⟨he, hw, hfl, hret⟩
  · rw [hint] at h
    split at h
    · rename_i hfront
      cases h
      have hf := hcur.flight_nil hsame (front_none.mp hfront)
      refine ⟨0, rfl, Nat.zero_le _, ?_⟩
      rw [hnil hf, hf]
      exact ⟨⟨fun j => rfl, rfl⟩, fun hs => by cases hs⟩
    · rename_i firstId hfront
      rw [Option.bind_eq_bind, Option.bind_eq_some_iff] at h
      obtain ⟨st', hloop, h⟩ := h
      have hc := hstart { waitingForInterrupt := w, idle := false, nextHandleRobId := some firstId }
        rfl rfl
      have hfirst : slotAt g₀.flight 0 = some firstId := by rw [← hc.front_eq]; exact hfront
      obtain ⟨q, hlog, hq, hrep, hstay⟩ := commitLoop_report hcur hc hfirst
        ⟨fun j => rfl, hfirst.symm⟩ (fun _ => ⟨hack, hrsb⟩) hloop
      refine ⟨q, ?_, hq, ?_, hstay⟩
      · split at h <;> cases h <;> exact hlog
      · split at h <;> cases h <;> exact hrep
  · have hfront : Fifo.customerGetFrontId cur.rob (commitInterrupt cur new inp).new.rob = none := by
      rw [front_none, Fifo.customerIsEmpty, hw.rob]
      exact he
    rw [hfront] at h
    cases h
    have hf := hcur.flight_nil hsame he
    obtain ⟨hq, hcom, hnext⟩ := commitInterrupt_report cur new inp
    refine ⟨0, ?_, Nat.zero_le _, ?_⟩
    · rw [CommitState.Logged, hq]
      rfl
    · rw [hnil hf, hf]
      exact ⟨⟨fun j => by rw [hcom]; rfl, hnext⟩, fun hs => by cases hs⟩

/-- **The loop reports nothing beyond its width.** -/
theorem commitLoop_beyond {firstId n i : Nat}
    (h : commitLoop cur writeAck firstId n i st = some st') {j : Nat} (hj : i + n ≤ j) :
    st'.feedback.committedRobId j = st.feedback.committedRobId j := by
  induction n generalizing i st with
  | zero =>
    cases h
    rfl
  | succ n ih =>
    obtain ⟨⟨st₁, go⟩, h₁, h₂⟩ := Option.bind_eq_some_iff.mp h
    have hone : st₁.feedback.committedRobId j = st.feedback.committedRobId j := by
      unfold commitOne at h₁
      split at h₁
      · cases h₁
        rfl
      · dsimp only at h₁
        split at h₁
        · cases h₁
          rfl
        · obtain ⟨⟨next, v⟩, -, h₁⟩ := Option.bind_eq_some_iff.mp h₁
          rw [(commitFinished_sameReport h₁).2.1]
          exact Function.update_of_ne (by omega) ..
    cases go with
    | false =>
      cases h₂
      exact hone
    | true => exact (ih h₂ (by omega)).trans hone

theorem commitRun_beyond {new : Core} {inp : CommitInput} (h : commitRun cur new inp = some st)
    {j : Nat} (hj : commitWidth ≤ j) : st.feedback.committedRobId j = none := by
  obtain ⟨-, hcom, -⟩ := commitInterrupt_report cur new inp
  unfold commitRun at h
  dsimp only at h
  split at h
  · cases h
    rw [hcom]
  · rw [Option.bind_eq_bind, Option.bind_eq_some_iff] at h
    obtain ⟨st', hloop, h⟩ := h
    have hbeyond := commitLoop_beyond hloop (j := j) (by omega)
    split at h <;> cases h <;> exact hbeyond.trans (congrFun hcom j)

/-- The loop does not change what commit says about being idle. -/
theorem commitLoop_idle {firstId n i : Nat}
    (h : commitLoop cur writeAck firstId n i st = some st') :
    st'.feedback.idle = st.feedback.idle := by
  induction n generalizing i st with
  | zero =>
    cases h
    rfl
  | succ n ih =>
    obtain ⟨⟨st₁, go⟩, h₁, h₂⟩ := Option.bind_eq_some_iff.mp h
    have hone : st₁.feedback.idle = st.feedback.idle := by
      unfold commitOne at h₁
      split at h₁
      · cases h₁
        rfl
      · dsimp only at h₁
        split at h₁
        · cases h₁
          rfl
        · obtain ⟨⟨next, v⟩, -, h₁⟩ := Option.bind_eq_some_iff.mp h₁
          exact (commitFinished_sameReport h₁).2.2
    cases go with
    | false =>
      cases h₂
      exact hone
    | true => exact (ih h₂).trans hone

/-- **Commit is idle only while nothing is in flight.** -/
theorem commitRun_idle {new : Core} {inp : CommitInput} (hcur : Inv cur g₀)
    (hsame : cur.SameWindow new) (h : commitRun cur new inp = some st)
    (hidle : st.feedback.idle = true) : g₀.flight = [] := by
  have hrob : (commitInterrupt cur new inp).new.rob = cur.rob := by
    rcases commitInterrupt_cases cur new inp with ⟨w, hint⟩ | ⟨-, hw, -⟩
    · rw [hint]
      exact hsame.rob
    · exact hw.rob.trans hsame.rob
  unfold commitRun at h
  dsimp only at h
  split at h
  · rename_i hfront
    refine hcur.flight_nil hsame (front_none.mp ?_)
    rw [Fifo.customerGetFrontId, hrob] at hfront
    rw [Fifo.customerGetFrontId, hsame.rob]
    exact hfront
  · rw [Option.bind_eq_bind, Option.bind_eq_some_iff] at h
    obtain ⟨st', hloop, h⟩ := h
    have hbusy : st'.feedback.idle = false := commitLoop_idle hloop
    split at h
    · cases h
      rw [hbusy] at hidle
      cases hidle
    · cases h
      exact absurd hidle (Bool.eq_false_iff.mp hbusy)

/-! ## A cycle of the core -/

variable {w : World} {inp : CycleInput} {r : CycleResult}

/-- **The report of a cycle.** -/
theorem cycle_report {g : Ghost} (hw : w.Holds g) (h : w.core.cycle inp = some r) :
    ∃ q, r.commit.Logged w.flight q ∧ q ≤ w.flight.length
      ∧ r.commit.feedback.Reports w.flight (q + (w.core.misreports inp.commit.writeAck).toNat)
      ∧ (w.core.misreports inp.commit.writeAck = true →
        w.core.waitsOnMemory w.flight q) := by
  obtain ⟨hack, hrsb⟩ := early_waits w.core inp
  have := commitRun_report hw.inv (early_sameWindow w.core inp) hack hrsb (Core.cycle_eq_some h).commit
  rwa [hw.flight] at this

theorem cycle_idle {g : Ghost} (hw : w.Holds g) (h : w.core.cycle inp = some r)
    (hidle : r.commit.feedback.idle = true) : w.flight = [] := by
  rw [← hw.flight]
  exact commitRun_idle hw.inv (early_sameWindow w.core inp) (Core.cycle_eq_some h).commit hidle

end DreamCore
