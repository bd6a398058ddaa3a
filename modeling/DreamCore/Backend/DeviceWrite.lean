import DreamCore.Backend.StoreWait

/-!
# What commit sends to the devices

`StoreSide` says what a cycle does to the store side of the core. This module
adds what leaves the core: the write commit hands to the noncacheable bus, and
the exception it raises when the bus answers with an error.
-/

namespace DreamCore

open Ring

variable {cur : Core} {st st' : CommitState} {id : Nat} {item : RobItem} {go : Bool}
  {writeAck : Option BusErrno}

/-! ## The handles that send nothing -/

theorem commitException_sends {e : RiscvException} {v : Word}
    (h : commitException cur id item e v st = some st') :
    st'.busWrite = st.busWrite ∧ st'.retireQueue = st.retireQueue ++ [(id, item)]
      ∧ st'.feedback.hasException = true ∧ st'.new.csrFile
        = ((st.new.csrFile.writeSys csrMepc item.pc).writeSys csrMtval v).writeSys csrMcause
          e.toWord := by
  simp only [commitException, Option.bind_eq_bind, Option.bind_eq_some_iff] at h
  obtain ⟨s, hs, h⟩ := h
  simp only [flushPipeline, Option.bind_eq_bind, Option.bind_eq_some_iff] at hs
  obtain ⟨_, -, hs⟩ := hs
  cases hs
  cases h
  exact ⟨rfl, rfl, rfl, rfl⟩

theorem commitLoad_sends (h : commitLoad cur item st = some (st', go)) :
    st'.busWrite = st.busWrite := by
  unfold commitLoad at h
  split at h
  · cases h
    rfl
  · split at h
    · simp only [Option.bind_eq_bind, Option.bind_eq_some_iff] at h
      obtain ⟨_, -, h⟩ := h
      cases h
      rfl
    · cases h
      rfl

theorem commitRetire_sends (h : commitRetire cur id item st = some st') :
    st'.busWrite = st.busWrite := by
  simp only [commitRetire, Option.bind_eq_bind, Option.bind_eq_some_iff] at h
  obtain ⟨_, -, h⟩ := h
  cases h
  rfl

theorem commitBranch_sends (h : commitBranch cur item st = some (st', go)) :
    st'.busWrite = st.busWrite := by
  have hmret : (commitMret cur item st).busWrite = st.busWrite := by
    unfold commitMret
    split
    · rfl
    · rfl
  unfold commitBranch at h
  split at h
  · cases h
    rfl
  · split at h
    · obtain ⟨st₁, h₁, he⟩ := Option.map_eq_some_iff.mp h
      cases he
      simp only [commitPredicted] at h₁
      split at h₁
      · cases h₁
        exact hmret
      · split at h₁
        · cases h₁
        · split at h₁
          · cases h₁
            exact hmret
          · simp only [commitMispredict, Option.bind_eq_bind, Option.bind_eq_some_iff] at h₁
            obtain ⟨_, -, h₁⟩ := h₁
            cases h₁
            exact hmret
    · cases h
      exact hmret

/-! ## The store handle -/

/-- The write of a store, as commit hands it to the bus. -/
def RetiredStoreBufferItem.write (e : RetiredStoreBufferItem) : Word × Word × Word :=
  (e.addr, e.size, e.data)

/-- What the store handle of a store sends. -/
inductive StoreSends (cur : Core) (writeAck : Option BusErrno) (id : Nat) (item : RobItem)
    (st st' : CommitState) (go : Bool) : Prop where
  | sent : st.new.isWaitingAck = false → isCacheable (cur.storeOf item).addr = false →
      go = false → st'.busWrite = some (cur.storeOf item).write →
      st'.retireQueue = st.retireQueue → st'.feedback = st.feedback →
      StoreSends cur writeAck id item st st' go
  | pushed : st.new.isWaitingAck = false → isCacheable (cur.storeOf item).addr = true →
      st'.busWrite = st.busWrite → StoreSends cur writeAck id item st st' go
  | waits : st.new.isWaitingAck = true → writeAck = none → go = false → st' = st →
      StoreSends cur writeAck id item st st' go
  | failed : st.new.isWaitingAck = true → writeAck = some .error → go = false →
      st'.busWrite = st.busWrite → st'.retireQueue = st.retireQueue ++ [(id, item)] →
      st'.feedback.hasException = true → st'.new.csrFile
        = ((st.new.csrFile.writeSys csrMepc item.pc).writeSys csrMtval
          (cur.storeOf item).addr).writeSys csrMcause RiscvException.storeAmoAccessFault.toWord →
      StoreSends cur writeAck id item st st' go
  | answered : st.new.isWaitingAck = true → writeAck = some .none →
      st'.busWrite = st.busWrite → StoreSends cur writeAck id item st st' go

theorem commitStore_sends (hv : item.storeBufferIdValid = true)
    (h : commitStore cur writeAck id item st = some (st', go)) :
    StoreSends cur writeAck id item st st' go := by
  unfold commitStore at h
  rw [hv] at h
  simp only [Bool.not_true, Bool.false_eq_true, if_false, Option.bind_eq_bind,
    Option.bind_eq_some_iff] at h
  obtain ⟨tItem, hitem, addr, haddr, size, hsize, -, -, h⟩ := h
  have hread : cur.storeOf item = ⟨addr, size, tItem.data⟩ := by
    simp only [StoreBuffer.getItem, StoreBuffer.getSize, Option.bind_eq_bind,
      Option.bind_eq_some_iff] at hitem hsize
    obtain ⟨_, -, hitem⟩ := hitem
    obtain ⟨_, -, hsize⟩ := hsize
    cases hitem
    cases hsize
    rw [StoreBuffer.getAddr_eq_some haddr]
    rfl
  cases hw : st.new.isWaitingAck with
  | true =>
    rw [hw, if_pos rfl] at h
    split at h
    · cases h
      exact .waits hw rfl rfl rfl
    · rename_i errno
      split at h
      · rename_i herr
        obtain ⟨st₁, h₁, h⟩ := Option.bind_eq_some_iff.mp h
        cases h
        obtain ⟨hb, hq, he, hcsr⟩ := commitException_sends h₁
        exact .failed hw (congrArg some herr) rfl hb hq he (by rw [hcsr, hread])
      · rename_i herr
        cases h
        have herrno : errno = .none := by cases errno <;> simp_all
        exact .answered hw (congrArg some herrno) rfl
  | false =>
    rw [hw, if_neg Bool.false_ne_true] at h
    split at h
    · rename_i hc
      obtain ⟨ring, -, h⟩ := Option.bind_eq_some_iff.mp h
      cases h
      exact .pushed hw (by rw [hread]; exact hc) rfl
    · rename_i hc
      cases h
      exact .sent hw (by rw [hread]; simpa using hc) rfl (by rw [hread]; rfl) rfl rfl

/-! ## One turn -/

/-- What the first turn sends when a noncacheable store is at the front. -/
inductive AskSends (cur : Core) (writeAck : Option BusErrno) (id : Nat) (st st' : CommitState)
    (go : Bool) : Prop where
  | sent : st.new.isWaitingAck = false → go = false →
      st'.busWrite = some (cur.storeOf (cur.rob.buffer id)).write →
      st'.retireQueue = st.retireQueue →
      st'.feedback.hasException = st.feedback.hasException → AskSends cur writeAck id st st' go
  | waits : st.new.isWaitingAck = true → writeAck = none → go = false →
      st'.retireQueue = st.retireQueue → st'.busWrite = st.busWrite →
      AskSends cur writeAck id st st' go
  | failed : st.new.isWaitingAck = true → writeAck = some .error → go = false →
      st'.busWrite = st.busWrite →
      st'.retireQueue = st.retireQueue ++ [(id, cur.rob.buffer id)] →
      st'.feedback.hasException = true → st'.new.csrFile
        = ((st.new.csrFile.writeSys csrMepc (cur.rob.buffer id).pc).writeSys csrMtval
          (cur.storeOf (cur.rob.buffer id)).addr).writeSys csrMcause
            RiscvException.storeAmoAccessFault.toWord →
      AskSends cur writeAck id st st' go
  | answered : st.new.isWaitingAck = true → writeAck = some .none →
      st'.busWrite = st.busWrite → AskSends cur writeAck id st st' go

/-- **The turn of a noncacheable store at the front.** -/
theorem commitOne_asks {firstId : Nat} (hid : Fifo.customerGetFrontId cur.rob st.new.rob = some id)
    (ha : cur.Asks (cur.rob.buffer id))
    (h : commitOne cur writeAck firstId 0 st = some (st', go)) :
    AskSends cur writeAck id st st' go := by
  unfold commitOne at h
  simp only [hid, Fifo.customerGetItem, ha.finish, Bool.not_true, Bool.false_eq_true, if_false,
    Option.bind_eq_some_iff] at h
  obtain ⟨⟨next, nextValid⟩, -, h⟩ := h
  unfold commitFinished at h
  rw [ha.hasException, if_neg Bool.false_ne_true] at h
  obtain ⟨blocked, hb, h⟩ := Option.bind_eq_some_iff.mp h
  rw [storeBlocked_asks ha hb, if_neg Bool.false_ne_true] at h
  -- no load handle, so that the store handle is first
  rcases andThen_eq_some h with ⟨st₁, h₁, h⟩ | ⟨h₁, hgo⟩
  swap
  · unfold commitLoad at h₁
    rw [ha.noLoad] at h₁
    cases h₁
    cases hgo
  unfold commitLoad at h₁
  rw [ha.noLoad] at h₁
  cases h₁
  rcases andThen_eq_some h with ⟨st₂, h₂, h₃⟩ | ⟨h₂, hgo⟩
  · obtain ⟨st₃, h₃, h₄⟩ := Option.bind_eq_some_iff.mp h₃
    have hkeeps : st'.busWrite = st₂.busWrite :=
      (commitBranch_sends h₄).trans (commitRetire_sends h₃)
    cases commitStore_sends ha.store h₂ with
    | sent _ _ hgo _ _ _ => cases hgo
    | pushed _ hc _ =>
      rw [ha.device] at hc
      cases hc
    | waits _ _ hgo _ => cases hgo
    | failed _ _ hgo _ _ _ _ => cases hgo
    | answered hw hack hbus => exact .answered hw hack (hkeeps.trans hbus)
  · dsimp only at hgo
    subst hgo
    cases commitStore_sends ha.store h₂ with
    | sent hw _ hgo hbus hq hf => exact .sent hw hgo hbus hq (by rw [hf]; rfl)
    | pushed _ hc _ =>
      rw [ha.device] at hc
      cases hc
    | waits hw hack hgo he =>
      subst he
      exact .waits hw hack hgo rfl rfl
    | failed hw hack hgo hbus hq he hcsr => exact .failed hw hack hgo hbus hq he hcsr
    | answered hw hack hbus => exact .answered hw hack hbus

/-- **A turn sends a write only for a noncacheable store at the front**, and only the first turn. -/
theorem commitOne_sends {firstId i : Nat}
    (hplain : i = 0 → ∀ id, Fifo.customerGetFrontId cur.rob st.new.rob = some id →
      (cur.rob.buffer id).finish = true → (cur.rob.buffer id).PlainLoad)
    (h : commitOne cur writeAck firstId i st = some (st', go)) :
    st'.busWrite = st.busWrite ∨ (i = 0 ∧ st.new.isWaitingAck = false
      ∧ ∃ id, Fifo.customerGetFrontId cur.rob st.new.rob = some id
        ∧ cur.Asks (cur.rob.buffer id)) := by
  unfold commitOne at h
  split at h
  · cases h
    exact .inl rfl
  · rename_i id hid
    dsimp only [Fifo.customerGetItem] at h
    cases hfin : (cur.rob.buffer id).finish with
    | false =>
      rw [hfin] at h
      cases h
      exact .inl rfl
    | true =>
      simp only [hfin, Bool.not_true, if_false, Bool.false_eq_true, Option.bind_eq_some_iff] at h
      obtain ⟨⟨next, nextValid⟩, -, h⟩ := h
      unfold commitFinished at h
      split at h
      · obtain ⟨st₁, h₁, heq⟩ := Option.map_eq_some_iff.mp h
        cases heq
        exact .inl (commitException_sends h₁).1
      · rename_i hex
        obtain ⟨blocked, hb, h⟩ := Option.bind_eq_some_iff.mp h
        split at h
        · cases h
          exact .inl rfl
        rename_i hnb
        rw [Bool.not_eq_true] at hnb
        subst hnb
        rcases andThen_eq_some h with ⟨st₁, h₁, h⟩ | ⟨h₁, -⟩
        swap
        · have hload := commitLoad_sends h₁
          exact .inl hload
        have hload := commitLoad_sends h₁
        have hstore : ∀ {st₂ : CommitState} {g : Bool},
            commitStore cur writeAck id (cur.rob.buffer id) st₁ = some (st₂, g) →
            st₂.busWrite = st.busWrite ∨ (i = 0 ∧ st.new.isWaitingAck = false
              ∧ ∃ id, Fifo.customerGetFrontId cur.rob st.new.rob = some id
                ∧ cur.Asks (cur.rob.buffer id)) := by
          intro st₂ g h₂
          cases hv : (cur.rob.buffer id).storeBufferIdValid with
          | false =>
            unfold commitStore at h₂
            rw [hv] at h₂
            cases h₂
            exact .inl hload
          | true =>
            have hi := (storeBlocked_eq_false hb hv).1
            have hnl : (cur.rob.buffer id).loadQueueIdValid = false := by
              rw [Bool.eq_false_iff]
              intro hl
              rw [(hplain hi id hid hfin hl).2] at hv
              cases hv
            unfold commitLoad at h₁
            rw [hnl] at h₁
            cases h₁
            cases commitStore_sends hv h₂ with
            | sent hw hd _ _ _ _ =>
              exact .inr ⟨hi, hw, id, hid, hfin, by simpa using hex, hnl, hv, hd⟩
            | pushed _ _ hbus => exact .inl hbus
            | waits _ _ _ he => exact .inl (by rw [he]; rfl)
            | failed _ _ _ hbus _ _ _ => exact .inl hbus
            | answered _ _ hbus => exact .inl hbus
        rcases andThen_eq_some h with ⟨st₂, h₂, h₃⟩ | ⟨h₂, -⟩
        · obtain ⟨st₃, h₃, h₄⟩ := Option.bind_eq_some_iff.mp h₃
          rw [(commitBranch_sends h₄).trans (commitRetire_sends h₃)]
          exact hstore h₂
        · exact hstore h₂

/-- The turns behind the first send nothing. -/
theorem commitLoop_sends {firstId k i : Nat} (hi : i ≠ 0)
    (h : commitLoop cur writeAck firstId k i st = some st') : st'.busWrite = st.busWrite := by
  induction k generalizing i st with
  | zero =>
    cases h
    rfl
  | succ k ih =>
    obtain ⟨⟨st₁, go⟩, h₁, h⟩ := Option.bind_eq_some_iff.mp h
    have hone : st₁.busWrite = st.busWrite := by
      rcases commitOne_sends (fun hc => absurd hc hi) h₁ with hb | ⟨hc, -⟩
      · exact hb
      · exact absurd hc hi
    cases go with
    | false =>
      cases h
      exact hone
    | true => exact (ih (Nat.succ_ne_zero i) h).trans hone

/-! ## The whole of commit -/

/-- **What leaves the core in a cycle of commit.** -/
inductive DeviceEffect (cur new : Core) (writeAck : Option BusErrno) (c : CommitState) : Prop where
  /-- There is no noncacheable store at the front. -/
  | silent : (∀ id, Fifo.customerGetFrontId cur.rob new.rob = some id →
        ¬ cur.Asks (cur.rob.buffer id)) → c.busWrite = none → DeviceEffect cur new writeAck c
  | sent (id : Nat) : Fifo.customerGetFrontId cur.rob new.rob = some id →
      cur.Asks (cur.rob.buffer id) → new.isWaitingAck = false →
      c.busWrite = some (cur.storeOf (cur.rob.buffer id)).write → c.retireQueue = [] →
      DeviceEffect cur new writeAck c
  | waits : new.isWaitingAck = true → writeAck = none → c.busWrite = none →
      c.retireQueue = [] → DeviceEffect cur new writeAck c
  | failed (id : Nat) : Fifo.customerGetFrontId cur.rob new.rob = some id →
      new.isWaitingAck = true → writeAck = some .error → c.busWrite = none →
      c.retireQueue = [(id, cur.rob.buffer id)] → c.feedback.hasException = true →
      c.new.csrFile = ((new.csrFile.writeSys csrMepc (cur.rob.buffer id).pc).writeSys csrMtval
        (cur.storeOf (cur.rob.buffer id)).addr).writeSys csrMcause
          RiscvException.storeAmoAccessFault.toWord → DeviceEffect cur new writeAck c
  | answered : new.isWaitingAck = true → writeAck = some .none → c.busWrite = none →
      DeviceEffect cur new writeAck c

theorem foldl_commitInput_csrFile (cur : Core) (ports : List ExecuteWbPack) (s : Core) :
    (ports.foldl (commitInput cur) s).csrFile = s.csrFile := by
  induction ports generalizing s with
  | nil => rfl
  | cons rev ports ih =>
    rw [List.foldl_cons, ih]
    unfold commitInput
    split
    · rfl
    · rfl

/-- The output loop, its first turn and the others. -/
theorem commitLoop_device {firstId : Nat} (hq : st.retireQueue = []) (hb : st.busWrite = none)
    (hplain : ∀ id, Fifo.customerGetFrontId cur.rob st.new.rob = some id →
      (cur.rob.buffer id).finish = true → (cur.rob.buffer id).PlainLoad)
    (h : commitLoop cur writeAck firstId commitWidth 0 st = some st') :
    DeviceEffect cur st.new writeAck st' := by
  obtain ⟨⟨st₁, go⟩, h₁, h⟩ := Option.bind_eq_some_iff.mp h
  have hlater : st'.busWrite = st₁.busWrite := by
    cases go with
    | false =>
      cases h
      rfl
    | true => exact commitLoop_sends Nat.one_ne_zero h
  have hstop : go = false → st' = st₁ := by
    intro hgo
    subst hgo
    exact (Option.some.inj h).symm
  by_cases hask : ∃ id, Fifo.customerGetFrontId cur.rob st.new.rob = some id
      ∧ cur.Asks (cur.rob.buffer id)
  · obtain ⟨id, hid, ha⟩ := hask
    cases commitOne_asks hid ha h₁ with
    | sent hw hgo hbus hr _ =>
      have he := hstop hgo
      subst he
      exact .sent id hid ha hw hbus (hr.trans hq)
    | waits hw hack hgo hr hbus =>
      have he := hstop hgo
      subst he
      exact .waits hw hack (hbus.trans hb) (hr.trans hq)
    | failed hw hack hgo hbus hr hex hcsr =>
      have he := hstop hgo
      subst he
      rw [hq] at hr
      exact .failed id hid hw hack (hbus.trans hb) hr hex hcsr
    | answered hw hack hbus => exact .answered hw hack (hlater.trans (hbus.trans hb))
  · refine .silent (fun id hid ha => hask ⟨id, hid, ha⟩) ?_
    rcases commitOne_sends (fun _ => hplain) h₁ with hbus | ⟨-, -, hfront⟩
    · exact hlater.trans (hbus.trans hb)
    · exact absurd hfront hask

/-- **Commit and the devices.** -/
theorem commitRun_device {new : Core} {inp : CommitInput}
    (hplain : ∀ id, Fifo.customerGetFrontId cur.rob new.rob = some id →
      (cur.rob.buffer id).finish = true → (cur.rob.buffer id).PlainLoad)
    (h : commitRun cur new inp = some st') : DeviceEffect cur new inp.writeAck st' := by
  unfold commitRun at h
  dsimp only at h
  rcases commitInterrupt_cases cur new inp with ⟨w, hint⟩ | ⟨he, hw, -, -⟩
  · rw [hint] at h
    split at h
    · rename_i hnone
      cases h
      exact .silent (fun id hid => by rw [hnone] at hid; cases hid) rfl
    · rename_i firstId _
      rw [Option.bind_eq_bind, Option.bind_eq_some_iff] at h
      obtain ⟨st₁, hloop, h⟩ := h
      have heff : DeviceEffect cur new inp.writeAck st₁ :=
        commitLoop_device rfl rfl hplain hloop
      split at h
      · cases h
        exact heff
      · cases h
        cases heff with
        | silent hn hb => exact .silent hn hb
        | sent id hid ha hw hb hr => exact .sent id hid ha hw hb hr
        | waits hw hack hb hr => exact .waits hw hack hb hr
        | failed id hid hw hack hb hr hex hcsr =>
          exact .failed id hid hw hack hb hr hex ((foldl_commitInput_csrFile ..).trans hcsr)
        | answered hw hack hb => exact .answered hw hack hb
  · have hfront : Fifo.customerGetFrontId cur.rob (commitInterrupt cur new inp).new.rob = none := by
      rw [front_none, Fifo.customerIsEmpty, hw.rob]
      exact he
    rw [hfront] at h
    cases h
    refine .silent (fun id hid => ?_) ?_
    · rw [front_none.mpr he] at hid
      cases hid
    · unfold commitInterrupt
      split
      · rfl
      · split
        · rfl
        · rfl

variable {w : World} {g : Ghost} {inp : CycleInput} {r : CycleResult}

/-- What leaves the core in a cycle. -/
theorem cycle_deviceEffect (hw : w.Holds g) (h : w.core.cycle inp = some r) :
    DeviceEffect w.core (inp.early w.core) inp.commit.writeAck r.commit :=
  commitRun_device (fun _ hid hfin => hw.plainLoad (early_sameWindow w.core inp) hid hfin)
    (Core.cycle_eq_some h).commit

end DreamCore
