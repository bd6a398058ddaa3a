import DreamCore.Backend.Feedback

/-!
# What commit teaches the predictors

The output loop ends at the first branch it retires, so that a cycle trains the
predictors with one branch at most: the entry the loop ends at, if that is a branch
which has been resolved. The same entry is the one that flushes, when the branch was
predicted wrongly and nothing has corrected it before.
-/

namespace DreamCore

open Ring

/-- The branch went where it was predicted to go. -/
def RobItem.hit (item : RobItem) : Bool :=
  item.bruJump == item.branchPredictorInfoPack.jump
    && item.bruNextPc == item.branchPredictorInfoPack.nextPc

/-- What the branch handle queues for the predictors. -/
def RobItem.trains (item : RobItem) : List PredictorUpdate :=
  if item.bruOp && item.branchPredictorInfoPack.predicted then
    [⟨item.pc, item.bruJump, item.bruNextPc, item.hit, item.branchPredictorInfoPack⟩]
  else []

/-- The branch handle flushes: the prediction was wrong, and there was no checkpoint to go back
to. -/
def RobItem.late (item : RobItem) : Bool :=
  item.branchPredictorInfoPack.predicted && !item.hit
    && !item.branchPredictorInfoPack.checkpointIdValid

/-- A branch that can retire. -/
def RobItem.resolved (item : RobItem) : Bool := item.finish && !item.hasException && item.bruOp

/-- Which way the entry went, where it is one of a conditional branch. -/
def RobItem.outcome (item : RobItem) : List Bool :=
  if item.bruOp && item.branchPredictorInfoPack.conditionJump then [item.bruJump] else []

/-- The outcomes of the conditional branches among what has retired. -/
def outcomesOf (retired : List (Nat × RobItem)) : List Bool := retired.flatMap fun e => e.2.outcome

theorem outcomesOf_append (l₁ l₂ : List (Nat × RobItem)) :
    outcomesOf (l₁ ++ l₂) = outcomesOf l₁ ++ outcomesOf l₂ := List.flatMap_append

theorem outcomesOf_plain {id : Nat} {item : RobItem} (h : item.bruOp = false) :
    outcomesOf [(id, item)] = [] := by
  simp [outcomesOf, RobItem.outcome, h]

/-- Of `items`, the entries from turn `j` on, the one the loop ends at. -/
def Core.closingFrom (cur : Core) (writeAck : Option BusErrno) : Nat → List RobItem → Option RobItem
  | _, [] => none
  | j, item :: items =>
      if cur.passes writeAck j item then cur.closingFrom writeAck (j + 1) items else some item

/-- **The entry the loop of this cycle ends at**, if it does not run out of entries. -/
def Core.closing (cur : Core) (writeAck : Option BusErrno) : Option RobItem :=
  cur.closingFrom writeAck 0 (cur.rob.contents.take commitWidth)

/-- **The conditional branch commit retires in this cycle**, if there is one. -/
def Core.closingBranch (cur : Core) (writeAck : Option BusErrno) : Option RobItem :=
  (cur.closing writeAck).filter fun item =>
    item.resolved && item.branchPredictorInfoPack.conditionJump

variable {cur : Core} {st st' : CommitState} {writeAck : Option BusErrno} {id : Nat}
  {item : RobItem} {go : Bool}

/-! ## The handles -/

theorem commitException_updates {e : RiscvException} {v : Word}
    (h : commitException cur id item e v st = some st') : st'.updates = st.updates := by
  simp only [commitException, Option.bind_eq_bind, Option.bind_eq_some_iff] at h
  obtain ⟨s, -, h⟩ := h
  cases h
  rfl

theorem commitLoad_updates (h : commitLoad cur item st = some (st', go)) :
    st'.updates = st.updates ∧ st'.retired = st.retired := by
  unfold commitLoad at h
  split at h
  · cases h
    exact ⟨rfl, rfl⟩
  · split at h
    · simp only [Option.bind_eq_bind, Option.bind_eq_some_iff] at h
      obtain ⟨s, -, h⟩ := h
      cases h
      exact ⟨rfl, rfl⟩
    · cases h
      exact ⟨rfl, rfl⟩

/-- An entry that takes an exception has not retired. -/
theorem Flushed.retired (h : st.Flushed st' true [(id, item)])
    (hex : st.feedback.hasException = false) : st'.retired = st.retired := by
  rw [CommitState.retired, CommitState.retired, h.hasException, h.retireQueue, hex]
  simp

theorem commitStore_updates (hex : st.feedback.hasException = false)
    (h : commitStore cur writeAck id item st = some (st', go)) :
    st'.updates = st.updates ∧ st'.retired = st.retired
      ∧ (go = true → st'.feedback.hasException = false) := by
  unfold commitStore at h
  split at h
  · cases h
    exact ⟨rfl, rfl, fun _ => hex⟩
  · simp only [Option.bind_eq_bind, Option.bind_eq_some_iff] at h
    obtain ⟨tItem, -, addr, -, size, -, -, -, h⟩ := h
    split at h
    · split at h
      · cases h
        exact ⟨rfl, rfl, fun _ => hex⟩
      · split at h
        · rw [Option.bind_eq_some_iff] at h
          obtain ⟨st₁, h₁, h⟩ := h
          cases h
          obtain ⟨-, hfl⟩ := commitException_eq_some h₁
          exact ⟨(commitException_updates h₁).trans rfl, (Flushed.retired hfl hex).trans rfl,
            fun hg => by cases hg⟩
        · cases h
          exact ⟨rfl, rfl, fun _ => hex⟩
    · split at h
      · rw [Option.bind_eq_some_iff] at h
        obtain ⟨ring, -, h⟩ := h
        cases h
        exact ⟨rfl, rfl, fun _ => hex⟩
      · cases h
        exact ⟨rfl, rfl, fun _ => hex⟩

theorem commitRetire_updates (h : commitRetire cur id item st = some st') :
    st'.updates = st.updates := by
  simp only [commitRetire, Option.bind_eq_bind, Option.bind_eq_some_iff] at h
  obtain ⟨s, -, h⟩ := h
  cases h
  rfl

/-- **The branch handle** trains the predictors, and flushes where the prediction was wrong. -/
theorem commitBranch_updates (hb : item.bruOp = true)
    (h : commitBranch cur item st = some (st', go)) :
    go = false ∧ st'.updates = st.updates ++ item.trains
      ∧ st'.feedback.hasException = st.feedback.hasException
      ∧ st'.feedback.flush = (st.feedback.flush || item.late) := by
  have hmret : (commitMret cur item st).updates = st.updates
      ∧ (commitMret cur item st).feedback = st.feedback := by
    unfold commitMret
    split
    · exact ⟨rfl, rfl⟩
    · exact ⟨rfl, rfl⟩
  unfold commitBranch at h
  rw [hb] at h
  simp only [Bool.not_true, Bool.false_eq_true, if_false] at h
  unfold RobItem.trains RobItem.late RobItem.hit
  split at h
  · rename_i hp
    obtain ⟨st₁, h₁, h⟩ := Option.map_eq_some_iff.mp h
    cases h
    unfold commitPredicted at h₁
    dsimp only at h₁
    rw [hb, hp]
    split at h₁
    · rename_i hhit
      cases h₁
      refine ⟨rfl, ?_, ?_, ?_⟩
      · simp [popCheckpoint, addUpdate, hmret.1, hhit]
      · simp [popCheckpoint, addUpdate, hmret.2]
      · simp [popCheckpoint, addUpdate, hmret.2, hhit]
    · rename_i hmiss
      have hno : (item.bruJump == item.branchPredictorInfoPack.jump
          && item.bruNextPc == item.branchPredictorInfoPack.nextPc) = false := by
        rw [Bool.eq_false_iff]
        intro hh
        rw [Bool.and_eq_true, beq_iff_eq, beq_iff_eq] at hh
        exact hmiss hh
      split at h₁
      · cases h₁
      · split at h₁
        · rename_i hck
          cases h₁
          refine ⟨rfl, ?_, ?_, ?_⟩
          · simp [popCheckpoint, addUpdate, hmret.1, hno]
          · simp [popCheckpoint, addUpdate, hmret.2]
          · simp [popCheckpoint, addUpdate, hmret.2, hck]
        · rename_i hck
          simp only [commitMispredict, Option.bind_eq_bind, Option.bind_eq_some_iff] at h₁
          obtain ⟨s, -, h₁⟩ := h₁
          cases h₁
          refine ⟨rfl, ?_, ?_, ?_⟩
          · simp [addUpdate, hmret.1, hno]
          · simp [addUpdate, hmret.2]
          · simp [hno, hck]
  · rename_i hp
    cases h
    rw [hb, Bool.eq_false_of_not_eq_true hp]
    refine ⟨rfl, ?_, ?_, ?_⟩
    · simp [hmret.1]
    · simp [hmret.2]
    · simp [hmret.2]

/-- **A resolved branch** retires, trains, and ends the loop. -/
theorem commitFinished_branch {i : Nat} (hres : item.resolved = true)
    (hmem : item.loadQueueIdValid = false ∧ item.storeBufferIdValid = false)
    (h : commitFinished cur writeAck i id item st = some (st', go))
    (hex : st.feedback.hasException = false) :
    go = false ∧ st'.updates = st.updates ++ item.trains
      ∧ outcomesOf st'.retired = outcomesOf st.retired ++ item.outcome
      ∧ st'.feedback.flush = (st.feedback.flush || item.late) := by
  simp only [RobItem.resolved, Bool.and_eq_true, Bool.not_eq_true'] at hres
  obtain ⟨⟨-, hx⟩, hb⟩ := hres
  unfold commitFinished at h
  rw [hx] at h
  simp only [Bool.false_eq_true, if_false, storeBlocked, hmem.2, Bool.not_false, if_true,
    Option.bind_some] at h
  unfold commitHandles commitLoad at h
  simp only [hmem.1, Bool.not_false, if_true, andThen, Option.bind_some] at h
  unfold commitStore at h
  simp only [hmem.2, Bool.not_false, if_true, Option.bind_some] at h
  obtain ⟨st₁, h₁, h₂⟩ := Option.bind_eq_some_iff.mp h
  obtain ⟨hfb, -, hq, -⟩ := commitRetire_eq_some h₁
  obtain ⟨hgo, hup, hex', hfl⟩ := commitBranch_updates hb h₂
  obtain ⟨-, hq', -⟩ := commitBranch_report h₂
  refine ⟨hgo, ?_, ?_, ?_⟩
  · rw [hup, commitRetire_updates h₁]
  · rw [CommitState.retired, CommitState.retired, hex', hfb, hex, hq', hq]
    simp [outcomesOf]
  · rw [hfl, hfb]

/-- **Any other entry** teaches the predictors nothing. -/
theorem commitFinished_other {i : Nat} (hfin : item.finish = true) (hres : item.resolved = false)
    (h : commitFinished cur writeAck i id item st = some (st', go))
    (hex : st.feedback.hasException = false) :
    st'.updates = st.updates ∧ outcomesOf st'.retired = outcomesOf st.retired := by
  unfold commitFinished at h
  split at h
  · obtain ⟨st₁, h₁, h⟩ := Option.map_eq_some_iff.mp h
    cases h
    obtain ⟨-, hfl⟩ := commitException_eq_some h₁
    exact ⟨commitException_updates h₁, by rw [Flushed.retired hfl hex]⟩
  · rename_i hx
    have hb : item.bruOp = false := by
      simpa [RobItem.resolved, hfin, Bool.eq_false_of_not_eq_true hx] using hres
    obtain ⟨blocked, -, h⟩ := Option.bind_eq_some_iff.mp h
    cases blocked with
    | true =>
      cases h
      exact ⟨rfl, rfl⟩
    | false =>
      simp only [Bool.false_eq_true, if_false] at h
      rcases andThen_eq_some h with ⟨st₁, h₁, h⟩ | ⟨h₁, -⟩
      · obtain ⟨hup₁, hret₁⟩ := commitLoad_updates h₁
        have hex₁ : st₁.feedback.hasException = false := by
          unfold commitLoad at h₁
          split at h₁
          · cases h₁
            exact hex
          · split at h₁
            · simp only [Option.bind_eq_bind, Option.bind_eq_some_iff] at h₁
              obtain ⟨s, -, h₁⟩ := h₁
              cases h₁
            · cases h₁
              exact hex
        rcases andThen_eq_some h with ⟨st₂, h₂, h⟩ | ⟨h₂, -⟩
        · obtain ⟨hup₂, hret₂, hex₂⟩ := commitStore_updates hex₁ h₂
          obtain ⟨st₃, h₃, h₄⟩ := Option.bind_eq_some_iff.mp h
          obtain ⟨hfb, -, hq, -⟩ := commitRetire_eq_some h₃
          have hsame : st' = st₃ := by
            rcases commitBranch_cases h₄ with ⟨-, he, -⟩ | ⟨hbru, -⟩
            · exact he
            · rw [hb] at hbru
              cases hbru
          subst hsame
          refine ⟨(commitRetire_updates h₃).trans (hup₂.trans hup₁), ?_⟩
          rw [← hret₁, ← hret₂, CommitState.retired, CommitState.retired, hfb, hex₂ rfl, hq]
          simp [outcomesOf_append, outcomesOf_plain hb]
        · obtain ⟨hup₂, hret₂, -⟩ := commitStore_updates hex₁ h₂
          exact ⟨hup₂.trans hup₁, by rw [hret₂, hret₁]⟩
      · obtain ⟨hup₁, hret₁⟩ := commitLoad_updates h₁
        exact ⟨hup₁, by rw [hret₁]⟩

/-! ## The loop -/

variable {g₀ : Ghost} {k : Nat}

/-- **What the loop teaches the predictors**, when it ends at `closing`. -/
inductive Trained (cur : Core) (fl : List Flight) (closing : Option RobItem)
    (st st' : CommitState) : Prop where
  | other : (∀ item, closing = some item → item.resolved = false) → st'.updates = st.updates →
      outcomesOf st'.retired = outcomesOf st.retired → Trained cur fl closing st st'
  | branch (f : Flight) (item : RobItem) : f ∈ fl → item = cur.rob.buffer f.info.robId.id →
      closing = some item → item.resolved = true → st'.updates = st.updates ++ item.trains →
      outcomesOf st'.retired = outcomesOf st.retired ++ item.outcome →
      st'.feedback.flush = (st.feedback.flush || item.late) → Trained cur fl closing st st'

/-- A branch has no place in the queues. -/
theorem RobItem.Tracks.branch {σ : Shadow} {f : Flight} (h : item.Tracks σ f)
    (hb : item.bruOp = true) :
    item.loadQueueIdValid = false ∧ item.storeBufferIdValid = false := by
  rw [h.bruOp, beq_iff_eq] at hb
  rw [h.loadQueue, h.storeBuffer]
  simp [DecodeRenamePack.takesLoadQueue, DecodeRenamePack.takesStoreBuffer, hb]

theorem commitLoop_trained (hcur : Inv cur g₀) {firstId n : Nat} (hc : Committing cur g₀ k st)
    (h0 : k = 0 → st.new.isWaitingAck = cur.isWaitingAck
      ∧ st.new.retiredStoreBuffer = cur.retiredStoreBuffer)
    (h : commitLoop cur writeAck firstId n k st = some st') :
    Trained cur g₀.flight (cur.closingFrom writeAck k ((cur.rob.contents.drop k).take n)) st st' := by
  induction n generalizing k st with
  | zero =>
    cases h
    exact .other (fun item hi => by cases hi) rfl rfl
  | succ n ih =>
    obtain ⟨⟨st₁, go⟩, h₁, h₂⟩ := Option.bind_eq_some_iff.mp h
    have hturn := commitOne_turn (fun id hid hfin => hc.plainLoad hid hfin) h₁
    have hpass : ∀ id, Fifo.customerGetFrontId cur.rob st.new.rob = some id → go = true →
        cur.passes writeAck k (cur.rob.buffer id) = true := by
      rintro id hid rfl
      exact commitOne_passes (fun id hid hfin => hc.plainLoad hid hfin) hid h0 h₁
    have hone := h₁
    unfold commitOne at hone
    cases hid : Fifo.customerGetFrontId cur.rob st.new.rob with
    | none =>
      rw [hid] at hone
      cases hone
      cases h₂
      have hlen : g₀.flight.length ≤ k := by
        by_contra hlt
        rw [hc.front_eq, hcur.slotAt_eq, if_pos (by omega)] at hid
        cases hid
      have hnil : cur.rob.contents.drop k = [] := by
        rw [List.drop_eq_nil_iff, hcur.rob.contents_eq (by decide), slots_length, Ghost.tip, tip_rob]
        omega
      rw [hnil]
      exact .other (fun item hi => by cases hi) rfl rfl
    | some id =>
      obtain ⟨-, f, rest, hf, hfid, htracks, -⟩ := hc.front hid
      have hmem : f ∈ g₀.flight := by
        rw [Ghost.retireN_flight] at hf
        exact List.mem_of_mem_drop (hf ▸ List.mem_cons_self ..)
      rw [hc.contents hcur.rob hid, Core.closingFrom]
      rw [hid] at hone
      dsimp only [Fifo.customerGetItem] at hone
      split at hone
      · -- an entry that is not finished ends the loop
        rename_i hfin
        rw [Bool.not_eq_true'] at hfin
        cases hone
        cases h₂
        have hno : cur.passes writeAck k (cur.rob.buffer id) = false := by
          simp [Core.passes, hfin]
        rw [hno, if_neg Bool.false_ne_true]
        refine .other (fun item hi => ?_) rfl rfl
        rw [← Option.some.inj hi]
        simp [RobItem.resolved, hfin]
      · rename_i hfin
        rw [Bool.not_eq_true', Bool.not_eq_false] at hfin
        obtain ⟨⟨next, v⟩, -, hone⟩ := Option.bind_eq_some_iff.mp hone
        have hstop := (commitFinished_report (hc.plainLoad hid hfin) hfin hone h0).2.2.1
        have hex := hc.hasException
        cases hres : (cur.rob.buffer id).resolved with
        | true =>
          have hb : (cur.rob.buffer id).bruOp = true := by
            simp only [RobItem.resolved, Bool.and_eq_true] at hres
            exact hres.2
          obtain ⟨hgo, hup, hout, hfl⟩ :=
            commitFinished_branch hres (htracks.branch hb) hone hex
          subst hgo
          cases h₂
          rw [hstop rfl, if_neg Bool.false_ne_true]
          exact .branch f _ hmem (by rw [hfid]) rfl hres hup hout hfl
        | false =>
          obtain ⟨hup, hout⟩ := commitFinished_other hfin hres hone hex
          cases go with
          | false =>
            cases h₂
            rw [hstop rfl, if_neg Bool.false_ne_true]
            refine .other (fun item hi => ?_) hup hout
            rw [← Option.some.inj hi]
            exact hres
          | true =>
            rw [hpass id hid rfl, if_pos rfl]
            rcases hc.turn true (fun _ _ _ _ _ => rfl) hturn with ⟨hc₁, -⟩ | ⟨hgo, -⟩
            · have hrest := ih hc₁ (fun hk => absurd hk (Nat.succ_ne_zero k)) h₂
              have hseen : outcomesOf st₁.retired = outcomesOf st.retired := hout
              cases hrest with
              | other hno hup' hout' => exact .other hno (hup'.trans hup) (hout'.trans hseen)
              | branch f item hf hitem hcl hr hup' hout' hfl' =>
                refine .branch f item hf hitem hcl hr (by rw [hup', hup]; rfl)
                  (by rw [hout', hseen]) ?_
                rw [hfl', hc₁.flush, hc.flush]
            · cases hgo

/-- The interrupt block teaches nothing, and retires nothing. -/
theorem commitInterrupt_updates (cur new : Core) (inp : CommitInput) :
    (commitInterrupt cur new inp).updates = []
      ∧ outcomesOf (commitInterrupt cur new inp).retired = [] := by
  unfold commitInterrupt
  split
  · exact ⟨rfl, rfl⟩
  · split
    · exact ⟨rfl, rfl⟩
    · exact ⟨rfl, rfl⟩

/-- **What a run of commit teaches the predictors.** -/
theorem commitRun_trained {new : Core} {inp : CommitInput} (hcur : Inv cur g₀)
    (hsame : cur.SameWindow new) (hack : new.isWaitingAck = cur.isWaitingAck)
    (hrsb : new.retiredStoreBuffer = cur.retiredStoreBuffer)
    (h : commitRun cur new inp = some st) :
    Trained cur g₀.flight (cur.closing inp.writeAck) { new := new } st := by
  have hempty : g₀.flight = [] → cur.closing inp.writeAck = none := by
    intro hf
    have : cur.rob.contents = [] := by
      rw [hcur.rob.contents_eq (by decide), Ghost.tip, hf]
      exact slots_self ..
    rw [Core.closing, this]
    rfl
  have hidle : g₀.flight = [] → ∀ st : CommitState, st.updates = [] → outcomesOf st.retired = [] →
      Trained cur g₀.flight (cur.closing inp.writeAck) { new := new } st := by
    intro hf st hup hout
    refine .other (fun item hi => ?_) hup hout
    rw [hempty hf] at hi
    cases hi
  unfold commitRun at h
  dsimp only at h
  obtain ⟨hup, hout⟩ := commitInterrupt_updates cur new inp
  rcases commitInterrupt_cases cur new inp with ⟨w, hint⟩ | ⟨he, hw, -, -⟩
  · rw [hint] at h
    split at h
    · rename_i hfront
      cases h
      exact hidle (hcur.flight_nil hsame (front_none.mp hfront)) _ rfl rfl
    · rename_i firstId hfront
      rw [Option.bind_eq_bind, Option.bind_eq_some_iff] at h
      obtain ⟨st', hloop, h⟩ := h
      have hc : Committing cur g₀ 0 { new := new, feedback :=
          { waitingForInterrupt := w, idle := false, nextHandleRobId := some firstId } } :=
        Committing.start hcur hsame rfl rfl
      have htrained := commitLoop_trained hcur hc (fun _ => ⟨hack, hrsb⟩) hloop
      have hlast : st.updates = st'.updates ∧ st.retired = st'.retired
          ∧ st.feedback = st'.feedback := by
        split at h <;> cases h <;> exact ⟨rfl, rfl, rfl⟩
      rw [List.drop_zero] at htrained
      cases htrained with
      | other hno hup' hout' =>
        exact .other hno (hlast.1.trans hup') (by rw [hlast.2.1]; exact hout')
      | branch f item hf hitem hcl hr hup' hout' hfl' =>
        exact .branch f item hf hitem hcl hr (hlast.1.trans hup') (by rw [hlast.2.1]; exact hout')
          (by rw [hlast.2.2]; exact hfl')
  · have hfront : Fifo.customerGetFrontId cur.rob (commitInterrupt cur new inp).new.rob = none := by
      rw [front_none, Fifo.customerIsEmpty, hw.rob]
      exact he
    rw [hfront] at h
    cases h
    exact hidle (hcur.flight_nil hsame he) _ hup hout

/-- **What a cycle teaches the predictors.** -/
theorem cycle_trained {w : World} {inp : CycleInput} {r : CycleResult} {g : Ghost} (hw : w.Holds g)
    (h : w.core.cycle inp = some r) :
    Trained w.core w.flight (w.core.closing inp.commit.writeAck) { new := w.core } r.commit := by
  obtain ⟨hack, hrsb⟩ := early_waits w.core inp
  have htrained := commitRun_trained hw.inv (early_sameWindow w.core inp) hack hrsb
    (Core.cycle_eq_some h).commit
  rw [hw.flight] at htrained
  cases htrained with
  | other hno hup hout => exact .other hno hup hout
  | branch f item hf hitem hcl hr hup hout hfl => exact .branch f item hf hitem hcl hr hup hout hfl

end DreamCore
