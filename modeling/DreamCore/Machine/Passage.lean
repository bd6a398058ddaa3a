import DreamCore.Machine.Alone
import DreamCore.Machine.Refinement

/-!
# An instruction on its way

From the word at the program counter to the entry in the reorder buffer: what fetch,
decode and register read make of an instruction that is alone, and what commit makes
of its results. The trap registers are those that the exception blocks of both models
write.
-/

namespace DreamCore

open Ring

variable {m : Isa.Model} {p : Passage m} {w : Word} {dec : DecodeRenamePack}

/-- What the exception blocks of both models write. -/
theorem CsrFile.trap_written (csr : CsrFile) (pc value : Word) (id : RiscvException) :
    (((csr.writeSys csrMepc pc).writeSys csrMtval value).writeSys csrMcause id.toWord).trap
      = ⟨id.toWord, pc &&& ~~~0x3, value⟩ := by
  simp only [CsrFile.trap, CsrFile.writeSys, CsrFile.readSys]
  rw [Function.update_self, Function.update_of_ne (by decide), Function.update_of_ne (by decide),
    Function.update_self, Function.update_of_ne (by decide), Function.update_self]
  rfl

theorem RobItem.trap_eq (csr : CsrFile) (item : RobItem) (id : RiscvException) (value : Word) :
    item.trap csr id value = ⟨id.toWord, item.pc &&& ~~~0x3, value⟩ := csr.trap_written ..

namespace Isa

/-- How an instruction that has been executed ends. -/
theorem endingOf_some (s : State) (m : Model) : endingOf (some (s, m))
    = if s.hasException then .traps ⟨s.exceptionId.toWord, s.pc &&& ~~~0x3, s.exceptionValue⟩
      else .retires := by
  unfold endingOf finish
  dsimp only
  split
  · rw [← m.csr.regs.trap_written]
    rfl
  · rfl

/-- An instruction of `isa_model::run`, up to the end of `execute`. -/
theorem Model.run_eq (m : Model) : m.run = (do
    let (s, m) ← fetch m
    executeUnit (readOperands (decode s) m.archRegfile) m).map fun (s, m) => finish s m := by
  unfold Model.run execute
  cases fetch m <;> rfl

theorem Model.run_aborts (m : Model) : m.ending = .aborts ↔ m.run = none := by
  rw [m.run_eq, Option.map_eq_none_iff]
  unfold Model.ending
  cases (do
    let (s, m) ← fetch m
    executeUnit (readOperands (decode s) m.archRegfile) m) with
  | none => exact iff_of_true rfl rfl
  | some r =>
    obtain ⟨s, m'⟩ := r
    rw [endingOf_some]
    cases s.hasException <;> exact iff_of_false Ending.noConfusion (Option.some_ne_none _)

/-- **What a run of the ISA model ends in** is what it leaves in the trap registers. -/
theorem Model.run_traps (m : Model) {trap : Trap} (h : m.ending = .traps trap) :
    ∃ m', m.run = some m' ∧ m'.csr.regs.trap = trap := by
  rw [m.run_eq]
  unfold Model.ending at h
  cases hr : (do
    let (s, m) ← fetch m
    executeUnit (readOperands (decode s) m.archRegfile) m) with
  | none =>
    rw [hr] at h
    cases h
  | some r =>
    obtain ⟨s, m'⟩ := r
    rw [hr] at h
    unfold endingOf at h
    dsimp only at h
    split at h
    · exact ⟨_, rfl, Ending.traps.inj h⟩
    · cases h

end Isa

/-! ## The word -/

/-- The word at the program counter, which is in the memory. -/
def Isa.Model.word (m : Isa.Model) : Word := m.mem.read (memorySlave.offset m.pc).toNat 4

/-- Both models can fetch the instruction. -/
structure Isa.Model.Fetchable (m : Isa.Model) : Prop where
  aligned : checkAlign m.pc 4 = true
  mapped : memorySlave.maps m.pc true = true

theorem Isa.Model.Fetchable.cycle (h : m.Fetchable) :
    busReadInstruction m.mem m.pc = some (memoryGroup m.mem (memorySlave.offset m.pc)) := by
  unfold busReadInstruction
  rw [if_pos h.mapped, if_pos (by rw [memorySlave_check h.mapped, h.aligned])]

theorem Isa.Model.Fetchable.isa (h : m.Fetchable) :
    Isa.fetch m = some (Isa.fetched m.pc m.word, { m with pc := m.pc + 4 }) := by
  have hread : m.read m.pc 4 = some m.word := by
    unfold Isa.Model.read
    rw [if_pos (show memorySlave.maps m.pc false = true from h.mapped),
      if_pos (by rw [memorySlave_check h.mapped, h.aligned])]
    rfl
  unfold Isa.fetch
  rw [hread, h.aligned]
  rfl

theorem Isa.Model.Fetchable.ending (h : m.Fetchable) : m.ending
    = Isa.endingOf (Isa.executeUnit
        (Isa.readOperands (Isa.decode (Isa.fetched m.pc m.word)) m.archRegfile)
        { m with pc := m.pc + 4 }) := by
  unfold Isa.Model.ending
  rw [h.isa]
  rfl

/-! ## Fetch -/

theorem fetchOpcode_aligned (h : checkAlign m.pc 4 = true) :
    fetchOpcode (m.pc + BitVec.ofNat 32 (0 * 4)) w = w := by
  rw [show m.pc + BitVec.ofNat 32 (0 * 4) = m.pc from BitVec.add_zero m.pc, fetchOpcode, if_pos h]

/-- **A reserved branch stops the simulator.** -/
theorem Passage.fetch_none (h : checkAlign m.pc 4 = true) (hw : reservedBranch w = true) :
    p.fetch w = none := by
  have hone := fetchOne_isSome p.predictors true m.pc 0 w
    { fetch1 := ⟨m.pc, false, p.instId⟩, predictors := p.predictors }
  rw [reservedAt, fetchOpcode_aligned h, hw, Bool.not_true, Option.isSome_eq_false_iff,
    Option.isNone_iff_eq_none] at hone
  unfold fetch fetchLoop
  rw [hone]
  rfl

/-- **Any other word goes on to decode**, with no fault and with a sound record. -/
theorem Passage.fetch_some (h : checkAlign m.pc 4 = true) (hw : reservedBranch w = false) :
    ∃ q, p.fetch w = some [q] ∧ q.Recorded ∧ q.pc = m.pc ∧ q.value = w
      ∧ q.hasException = false := by
  have hpc : m.pc + BitVec.ofNat 32 (0 * 4) = m.pc := BitVec.add_zero m.pc
  generalize hst : ({ fetch1 := ⟨m.pc, false, p.instId⟩, predictors := p.predictors } : FetchState)
    = st
  obtain ⟨⟨st', go⟩, hone⟩ : ∃ r, fetchOne p.predictors true m.pc 0 w st = some r :=
    Option.isSome_iff_exists.mp (by
      rw [fetchOne_isSome, reservedAt, fetchOpcode_aligned h, hw]
      rfl)
  -- alone in an idle pipeline nothing is held back
  have hword : fetchWord p.predictors 0 m.pc w st = some (st', go) := by
    unfold fetchOne at hone
    dsimp only at hone
    rw [fetchOpcode_aligned h, hpc] at hone
    simpa using hone
  obtain ⟨r, hr, hsend, -⟩ := fetchWord_some hword
  rw [← fetchOpcode_aligned h (w := w), hpc] at hword
  obtain ⟨⟨q, hq⟩, -⟩ := fetchWord_fetched (by rw [← hst]) hword
  have hsend' := hq.sendPack
  rw [← hst, List.nil_append] at hsend hsend'
  have hinfo : q = fetchInfo p.instId m.pc w r.pack := by
    rw [hsend'] at hsend
    exact List.singleton_inj.mp hsend
  have habout : (st'.predictors.sync (historyUpdates st'.sendPack)).biMode.About 0 q :=
    About.sync _ (hq.about 0 q rfl)
  have hrecorded := hq.recorded q (List.mem_singleton_self q)
  have hfetch : p.fetch w = some (level2
      (st'.predictors.sync (historyUpdates st'.sendPack)).biMode 0 [q]).pack := by
    unfold fetch fetchLoop
    rw [hst, hone, hsend', Option.bind_some]
    cases go <;> rw [← hsend'] <;> rfl
  have hx : q.pc = m.pc ∧ q.value = w ∧ q.hasException = false := by
    rw [hinfo]
    refine ⟨rfl, rfl, ?_⟩
    show (!checkAlign m.pc 4) = false
    rw [h]
    rfl
  rw [hfetch]
  unfold level2
  split
  · rename_i hdiff
    exact ⟨_, rfl, (level2Change_follows hdiff habout hrecorded).1, hx⟩
  · exact ⟨q, rfl, hrecorded, hx⟩

/-! ## Rename and register read -/

theorem Passage.info_sends (p : Passage m) (dec : DecodeRenamePack) : (p.info dec).Sends dec := by
  unfold info OpInfo.Sends
  cases p.checkpoint <;> rfl

theorem Passage.info_place (p : Passage m) (dec : DecodeRenamePack) :
    (p.info dec).rs1Phy = (if dec.rs1NeedMap then p.map dec.rs1 else 0)
      ∧ (p.info dec).rs2Phy = (if dec.rs2NeedMap then p.map dec.rs2 else 0) := by
  unfold info
  cases p.checkpoint <;> exact ⟨rfl, rfl⟩

/-- With nothing on the feedback channels a source is read from the register file. -/
theorem readSource_quiet (phyRegfile : Regfile) (phyId : Nat) :
    readSource { phyRegfile := phyRegfile } phyId
      = ((phyRegfile phyId).data, (phyRegfile phyId).dataValid) := rfl

/-- The operands of a decoded instruction are in their registers. -/
theorem Passage.reads (p : Passage m) (hr : dec.RegsOk) :
    (dec.rs1NeedMap = true →
        (p.phyRegfile (p.info dec).rs1Phy).data = m.archRegfile.read dec.rs1
          ∧ (p.phyRegfile (p.info dec).rs1Phy).dataValid = true)
      ∧ (dec.rs2NeedMap = true →
        (p.phyRegfile (p.info dec).rs2Phy).data = m.archRegfile.read dec.rs2
          ∧ (p.phyRegfile (p.info dec).rs2Phy).dataValid = true) := by
  obtain ⟨h₁, h₂⟩ := p.info_place dec
  refine ⟨fun hn => ?_, fun hn => ?_⟩
  · rw [h₁, if_pos hn]
    exact p.holds _ (hr.rs1 hn)
  · rw [h₂, if_pos hn]
    exact p.holds _ (hr.rs2 hn)

/-- Dispatch changes nothing about an integer instruction. -/
theorem Passage.info_toIssue (p : Passage m) (hu : dec.opUnit.isLsu = false) :
    (p.info dec).toIssue = p.info dec := by
  unfold OpInfo.toIssue
  rw [if_neg]
  rw [show (p.info dec).opUnit = dec.opUnit from congrArg (·.opUnit) (p.info_sends dec), hu]
  exact Bool.false_ne_true

/-- **Integer register read** finds the registers of the ISA model. -/
theorem Passage.readPack_eq (p : Passage m) (hr : dec.RegsOk)
    (hu : dec.opUnit.isLsu = false) :
    readPack { phyRegfile := p.phyRegfile } (p.info dec).toIssue
      = readreg (dec.renamed (p.info dec)) (m.archRegfile.read dec.rs1)
        (m.archRegfile.read dec.rs2) := by
  have hsends := p.info_sends dec
  obtain ⟨h₁, h₂⟩ := p.reads hr
  have hn₁ : (p.info dec).rs1NeedMap = dec.rs1NeedMap := congrArg (·.rs1NeedMap) hsends
  have hn₂ : (p.info dec).rs2NeedMap = dec.rs2NeedMap := congrArg (·.rs2NeedMap) hsends
  have hvalid (need valid : Bool) (h : need = true → valid = true) : (need && !valid) = false := by
    cases need with
    | false => rfl
    | true => rw [h rfl]; rfl
  rw [hsends.renamed, p.info_toIssue hu]
  unfold readPack
  simp only [readSource_quiet, hn₁, hn₂, hvalid _ _ fun hn => (h₁ hn).2,
    hvalid _ _ fun hn => (h₂ hn).2, Bool.or_self, Bool.and_false, Bool.false_eq_true, if_false]
  refine readreg_congr fun _ _ => ?_
  rw [hn₁, hn₂]
  exact ⟨fun hn => (h₁ hn).1, fun hn => (h₂ hn).1⟩

/-! ## Decode -/

variable {q : FetchOpInfo}

theorem decode_unfaulted_valid {q : Fetch2DecodePack} (hx : q.hasException = false) :
    (decode q).valid = (Isa.decode (Isa.fetched q.pc q.value)).valid := by
  have hstart : decodeStart q
      = decodeStart (fetched q.pc q.value q.branchPredictorInfoPack) := by
    unfold decodeStart
    rw [hx]
    rfl
  rw [← (switch_same q.pc q.value q.branchPredictorInfoPack).valid, ← hstart]
  unfold decode
  dsimp only
  split <;> rfl

/-! ## Commit -/

/-- **The input part of commit** merges the one result of an instruction into its entry. -/
theorem Passage.reported_one (p : Passage m) (dec : DecodeRenamePack) {send : ExecuteWbPack}
    (hen : send.enable = true) (hid : send.robId = (p.info dec).robId) :
    p.reported dec [[send]] = (p.item dec).applyResult send := by
  unfold reported
  dsimp only [List.foldl_cons, List.foldl_nil]
  unfold commitInput
  rw [if_pos hen, hid]
  dsimp only [Fifo.setItem, Fifo.customerGetItem]
  rw [Function.update_self, Function.update_self]

/-- What commit makes of an entry with one result. -/
theorem ending_applyResult {csr : CsrFile} {item : RobItem} {send : ExecuteWbPack} {e : Ending}
    (hitem : item.hasException = false) (hlast : send.lastUop = true)
    (hagrees : send.opUnit = .bru → send.Agrees) :
    (item.applyResult send).ending csr e
      = if send.hasException then
          .traps ⟨send.exceptionId.toWord, item.pc &&& ~~~0x3, send.exceptionValue⟩
        else e := by
  have hfinish : (item.applyResult send).finish = true := by
    show (item.finish || send.lastUop) = true
    rw [hlast, Bool.or_true]
  have hx : (item.applyResult send).hasException = send.hasException := by
    show (if item.hasException then true else send.hasException) = _
    rw [hitem]
    rfl
  unfold RobItem.ending
  rw [hfinish, hx, RobItem.trap_eq]
  cases hs : send.hasException with
  | true =>
    unfold RobItem.applyResult
    rw [hitem]
    rfl
  | false =>
    rw [if_neg (by simp), if_neg (by simp), if_neg]
    · rfl
    · simp only [RobItem.applyResult, Bool.and_eq_true, beq_iff_eq, bne_iff_ne, not_and, not_not]
      rintro ⟨⟨⟨hu, -⟩, hc⟩, hj⟩
      exact hagrees hu hc hj

/-! ## Endings in the commit stage -/

section CommitStage

variable {cur : Core} {st st' : CommitState} {id : Nat} {item : RobItem} {go : Bool}
  {writeAck : Option BusErrno}

/-- What commit shows of an ending; `done` is what it shows of an instruction that retires. -/
def Ending.Shown (st st' : CommitState) (done : Prop) : Ending → Prop
  | .aborts => False
  | .running => st' = st
  | .retires => done
  | .traps trap => st'.feedback.hasException = true ∧ st'.new.csrFile.trap = trap

theorem commitException_trap {e : RiscvException} {v : Word}
    (h : commitException cur id item e v st = some st') (csr : CsrFile) :
    st'.feedback.hasException = true ∧ st'.new.csrFile.trap = item.trap csr e v := by
  simp only [commitException, Option.bind_eq_bind, Option.bind_eq_some_iff] at h
  obtain ⟨new, -, h⟩ := h
  cases h
  exact ⟨rfl, (new.csrFile.trap_written ..).trans (item.trap_eq csr e v).symm⟩

theorem commitLoad_goes (hc : cur.loadQueue.itemConflict item.loadQueueId = false)
    (h : commitLoad cur item st = some (st', go)) : go = true := by
  unfold commitLoad at h
  rw [hc] at h
  split at h <;> cases h <;> rfl

/-- The branch handle fails where the ending says so. -/
theorem commitBranch_aborts (hb : item.bruOp = true)
    (hp : item.branchPredictorInfoPack.predicted = true)
    (hc : item.branchPredictorInfoPack.conditionJump = true)
    (hj : item.bruJump = item.branchPredictorInfoPack.jump)
    (hn : item.bruNextPc ≠ item.branchPredictorInfoPack.nextPc) :
    commitBranch cur item st = none := by
  unfold commitBranch commitPredicted
  rw [hb, hp]
  simp [hj, hn, hc]

/-- **A turn of the output loop of commit** makes of an entry that is no store what its ending
says. -/
theorem commitOne_ends {firstId i : Nat} (hex : st.feedback.hasException = false)
    (hid : Fifo.customerGetFrontId cur.rob st.new.rob = some id)
    (hstore : (cur.rob.buffer id).storeBufferIdValid = false)
    (hload : cur.loadQueue.itemConflict (cur.rob.buffer id).loadQueueId = false)
    (h : commitOne cur writeAck firstId i st = some (st', go)) :
    ((cur.rob.buffer id).ending cur.csrFile .retires).Shown st st'
      (st.Logs st' [(id, cur.rob.buffer id)] go) := by
  unfold commitOne at h
  rw [hid] at h
  dsimp only [Fifo.customerGetItem] at h
  unfold RobItem.ending
  cases hfin : (cur.rob.buffer id).finish with
  | false =>
    rw [hfin] at h
    cases h
    rfl
  | true =>
    simp only [hfin, Bool.not_true, Bool.false_eq_true, if_false, Option.bind_eq_some_iff] at h ⊢
    obtain ⟨⟨next, nextValid⟩, -, h⟩ := h
    unfold commitFinished at h
    cases hx : (cur.rob.buffer id).hasException with
    | true =>
      rw [hx, if_pos rfl] at h
      obtain ⟨st₁, h₁, heq⟩ := Option.map_eq_some_iff.mp h
      cases heq
      exact commitException_trap h₁ cur.csrFile
    | false =>
      rw [hx, if_neg Bool.false_ne_true] at h
      have hblocked (st : CommitState) :
          storeBlocked cur i (cur.rob.buffer id) st = some false := by
        unfold storeBlocked
        rw [hstore]
        rfl
      rw [hblocked, Option.bind_some, if_neg Bool.false_ne_true] at h
      unfold commitHandles at h
      rcases andThen_eq_some h with ⟨st₁, h₁, hrest⟩ | ⟨h₁, hgo⟩
      · have hl₁ := (commitLoad_stores (by exact hex) h₁).2
        have hskip : commitStore cur writeAck id (cur.rob.buffer id) st₁ = some (st₁, true) := by
          unfold commitStore
          rw [hstore]
          rfl
        rw [andThen, hskip, Option.bind_some, if_pos rfl] at hrest
        have hl := hl₁.trans (retireBranch_stores (hl₁.goes rfl) hrest).2
        rw [List.nil_append] at hl
        rw [if_neg Bool.false_ne_true, if_neg]
        · exact ⟨hl.retired, hl.goes⟩
        · intro hwrong
          simp only [Bool.and_eq_true, beq_iff_eq, bne_iff_ne] at hwrong
          obtain ⟨⟨⟨⟨hb, hp⟩, hc⟩, hj⟩, hn⟩ := hwrong
          obtain ⟨st₂, -, h₂⟩ := Option.bind_eq_some_iff.mp hrest
          rw [commitBranch_aborts hb hp hc hj hn] at h₂
          cases h₂
      · rw [commitLoad_goes hload h₁] at hgo
        cases hgo

/-- **The store handle** makes of a store that waits for the bus what the bus answers. -/
theorem commitStore_ends {addr value : Word} {size : Nat} (hex : st.feedback.hasException = false)
    (hv : item.storeBufferIdValid = true)
    (haddr : addr = cur.storeBuffer.itemAddr item.storeBufferId) (hc : isCacheable addr = false)
    (hwait : st.new.isWaitingAck = true)
    (hack : writeAck
      = (noncacheableWrite m.clint ({} : DataBus Word) addr size value).2.dataWriteAck)
    (h : commitStore cur writeAck id item st = some (st', go)) :
    (storeEnding m item addr size value).Shown st st' (st.Logs st' [] true) := by
  unfold commitStore at h
  simp only [hv, Bool.not_true, if_false, Bool.false_eq_true, Option.bind_eq_bind,
    Option.bind_eq_some_iff, hwait, if_true] at h
  obtain ⟨tItem, -, addr', haddr', size', -, -, -, h⟩ := h
  have hsame : addr' = addr := (StoreBuffer.getAddr_eq_some haddr').trans haddr.symm
  unfold storeEnding
  rw [hc, if_neg Bool.false_ne_true, ← hack]
  clear hack
  cases writeAck with
  | none =>
    cases h
    rfl
  | some errno =>
    cases errno with
    | none =>
      cases h
      exact .same hex rfl rfl
    | error =>
      obtain ⟨st₁, h₁, heq⟩ := Option.bind_eq_some_iff.mp h
      cases heq
      rw [hsame] at h₁
      exact commitException_trap h₁ m.csr.regs

end CommitStage

end DreamCore
