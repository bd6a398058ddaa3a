import DreamCore.Pipeline.Core

/-!
# Commit

`commit::run`. The output part looks at up to `COMMIT_WIDTH` entries from the
front of the ROB and leaves the loop early for many different reasons; the input
part writes this cycle's execution results into the ROB.

The output loop is cut at the comments of the source: one function for the load
handle, one for the store handle, one for the retirement itself, one for the
branch handle. Each says, next to the new state, whether the loop goes on.
-/

namespace DreamCore

open Ring

/-- The interrupt lines of `interrupt_interface`. -/
structure InterruptLines where
  meip : Bool := false
  msip : Bool := false
  mtip : Bool := false

/-- `interrupt_interface::get_cause`. -/
def InterruptLines.getCause (lines : InterruptLines) (csr : CsrFile) : Option RiscvInterrupt :=
  let mie := csr.readSys csrMie
  if !(csr.readSys csrMstatus).getLsbD 3 then none
  else if lines.meip && mie.getLsbD 11 then some .machineExternal
  else if lines.msip && mie.getLsbD 3 then some .machineSoftware
  else if lines.mtip && mie.getLsbD 7 then some .machineTimer
  else none

/-- What commit sees from outside the shared components. -/
structure CommitInput where
  lines : InterruptLines := {}
  /-- The customer's view of `decode_rename_fifo`. -/
  decodeRenameFifo : List DecodeRenamePack := []
  /-- `bus_if->get_data_write_ack`. -/
  writeAck : Option BusErrno := none
  /-- The ports of `execute_commit_port`, in order. -/
  executeCommitPort : List ExecuteWbPack := []

/-- A call of `bi_mode.update_sync` and `l1_btb.update_sync`. -/
structure PredictorUpdate where
  pc : Word
  jump : Bool
  nextPc : Word
  hit : Bool
  pack : BranchPredictorInfoPack

/-- The variables of `commit::run`, and what it hands to its surroundings. -/
structure CommitState where
  new : Core
  feedback : CommitFeedback := {}
  needFlush : Bool := false
  /-- `rob_retire_queue`. -/
  retireQueue : List (Nat × RobItem) := []
  /-- The noncacheable write sent with `write8_sync`, `write16_sync` or `write32_sync`. -/
  busWrite : Option (Word × Word × Word) := none
  interruptAck : Option RiscvInterrupt := none
  updates : List PredictorUpdate := []

/-- The block all four flushes of commit share. They differ in the saved free-list pointer
they go back to. -/
def flushPipeline (cur new : Core) (rptr : Ptr) : Option Core := do
  let freeList ← FreeList.restore cur.phyIdFreeList new.phyIdFreeList rptr
  return { new with
    speculativeRat := new.retireRat
    rob := new.rob.flush
    phyRegfile := new.phyRegfile.restoreRat new.retireRat
    phyIdFreeList := freeList
    loadQueue := new.loadQueue.flush
    storeBuffer := new.storeBuffer.flush
    checkpointBuffer := new.checkpointBuffer.flush }

/-- The exception block: the three CSRs, the feedback, the flush. Both exceptions of commit
go back to the pointer saved *after* the entry's own pop. -/
def commitException (cur : Core) (id : Nat) (item : RobItem) (exceptionId : RiscvException)
    (exceptionValue : Word) (st : CommitState) : Option CommitState := do
  let new ← flushPipeline cur st.new item.newPhyIdFreeListRptr
  let csr := ((new.csrFile.writeSys csrMepc item.pc).writeSys csrMtval exceptionValue).writeSys
    csrMcause exceptionId.toWord
  return { st with
    new := { new with
      csrFile := csr
      committed := true
      globalCommitNum := new.globalCommitNum + 1 }
    retireQueue := st.retireQueue ++ [(id, item)]
    feedback := { st.feedback with
      hasException := true
      exceptionPc := cur.csrFile.readSys csrMtvec
      flush := true }
    needFlush := true }

/-- `//load handle` -/
def commitLoad (cur : Core) (item : RobItem) (st : CommitState) :
    Option (CommitState × Bool) :=
  if !item.loadQueueIdValid then some (st, true)
  else if cur.loadQueue.itemConflict item.loadQueueId
      && !item.branchPredictorInfoPack.checkpointIdValid then do
    let new ← flushPipeline cur st.new item.oldPhyIdFreeListRptr
    return ({ st with
      new := new
      feedback := { st.feedback with
        jumpEnable := true, jump := true, jumpNextPc := item.pc, flush := true }
      needFlush := true }, false)
  else
    let checkpointBuffer :=
      if item.branchPredictorInfoPack.checkpointIdValid then
        Fifo.drop cur.checkpointBuffer st.new.checkpointBuffer
      else st.new.checkpointBuffer
    some ({ st with
      new := { st.new with
        checkpointBuffer := checkpointBuffer
        loadQueue := { st.new.loadQueue with
          ring := Fifo.drop cur.loadQueue.ring st.new.loadQueue.ring } } }, true)

/-- The last statement of the store handle. -/
def popStoreBuffer (cur : Core) (st : CommitState) : CommitState :=
  { st with new := { st.new with storeBuffer := { st.new.storeBuffer with
      ring := Fifo.drop cur.storeBuffer.ring st.new.storeBuffer.ring } } }

/-- `//store handle` -/
def commitStore (cur : Core) (writeAck : Option BusErrno) (id : Nat) (item : RobItem)
    (st : CommitState) : Option (CommitState × Bool) :=
  if !item.storeBufferIdValid then some (st, true)
  else do
    let tItem ← StoreBuffer.getItem cur.storeBuffer st.new.storeBuffer item.storeBufferId
    let addr ← StoreBuffer.getAddr cur.storeBuffer st.new.storeBuffer item.storeBufferId
    let size ← StoreBuffer.getSize cur.storeBuffer st.new.storeBuffer item.storeBufferId
    guard (size = 1 ∨ size = 2 ∨ size = 4)
    if st.new.isWaitingAck then
      match writeAck with
      | none => return (st, false)
      | some writeErrno =>
          let st := { st with new := { st.new with isWaitingAck := false } }
          if writeErrno = .error then
            return (← commitException cur id item .storeAmoAccessFault addr st, false)
          else return (popStoreBuffer cur st, true)
    else if isCacheable addr then do
      let ring ← Fifo.push cur.retiredStoreBuffer.ring st.new.retiredStoreBuffer.ring
        ⟨addr, size, tItem.data⟩
      let st := { st with new := { st.new with
        retiredStoreBuffer := { st.new.retiredStoreBuffer with ring := ring } } }
      return (popStoreBuffer cur st, true)
    else
      return ({ st with
        new := { st.new with isWaitingAck := true }
        busWrite := some (addr, size, tItem.data) }, false)

/-- The release of the old register, when the entry has one. -/
def retireMap (cur new : Core) (item : RobItem) : Option Core :=
  if item.oldPhyRegIdValid then do
    let retireRat ← new.retireRat.setMap false item.rd item.newPhyRegId
    let (freeList, _) ← FreeList.push cur.phyIdFreeList new.phyIdFreeList item.oldPhyRegId
    some { new with
      retireRat := retireRat
      phyRegfile := (new.phyRegfile.write item.oldPhyRegId 0 false ⟨0, false⟩ true
        ).writeAgeInformation item.newPhyRegId ⟨0, false⟩ true
      phyIdFreeList := freeList }
  else some new

/-- The commit count and the CSR write. -/
def retireEffects (new : Core) (item : RobItem) : Core :=
  let new :=
    if item.lastUop then
      { new with committed := true, globalCommitNum := new.globalCommitNum + 1 }
    else new
  if item.csrNewvalueValid then
    { new with csrFile := new.csrFile.write item.csrAddr item.csrNewvalue }
  else new

/-- The retirement itself: `rob->pop()` and what follows up to the branch handle. -/
def commitRetire (cur : Core) (id : Nat) (item : RobItem) (st : CommitState) :
    Option CommitState := do
  let new ← retireMap cur { st.new with rob := Fifo.drop cur.rob st.new.rob } item
  return { st with
    new := retireEffects new item, retireQueue := st.retireQueue ++ [(id, item)] }

/-- `checkpoint_buffer->pop`, when the branch owns a checkpoint. -/
def popCheckpoint (cur : Core) (pack : BranchPredictorInfoPack) (st : CommitState) :
    CommitState :=
  { st with new := { st.new with
      checkpointBuffer :=
        if pack.checkpointIdValid then
          Fifo.drop cur.checkpointBuffer st.new.checkpointBuffer
        else st.new.checkpointBuffer } }

/-- The calls that train the predictors. -/
def addUpdate (item : RobItem) (hit : Bool) (st : CommitState) : CommitState :=
  { st with updates := st.updates ++
      [⟨item.pc, item.bruJump, item.bruNextPc, hit, item.branchPredictorInfoPack⟩] }

/-- The flush of a mispredicted branch that owns no checkpoint. -/
def commitMispredict (cur : Core) (item : RobItem) (st : CommitState) : Option CommitState := do
  let new ← flushPipeline cur st.new item.newPhyIdFreeListRptr
  return { st with
    new := new
    feedback := { st.feedback with
      jumpEnable := true, jump := true, jumpNextPc := item.bruNextPc, flush := true }
    needFlush := true }

/-- What the branch handle does for a predicted branch. The failing `verify_only(false)` is
the middle case. -/
def commitPredicted (cur : Core) (item : RobItem) (st : CommitState) : Option CommitState :=
  let pack := item.branchPredictorInfoPack
  if item.bruJump = pack.jump ∧ item.bruNextPc = pack.nextPc then
    some (popCheckpoint cur pack (addUpdate item true st))
  else if item.bruJump = pack.jump ∧ item.bruNextPc ≠ pack.nextPc ∧ pack.conditionJump then
    none
  else if pack.checkpointIdValid then
    some (popCheckpoint cur pack (addUpdate item false st))
  else commitMispredict cur item (addUpdate item false st)

/-- `mret` restores the interrupt enable. -/
def commitMret (cur : Core) (item : RobItem) (st : CommitState) : CommitState :=
  if item.isMret then
    { st with new := { st.new with
        csrFile := st.new.csrFile.writeSys csrMstatus
          (mstatusLeave (cur.csrFile.readSys csrMstatus)) } }
  else st

/-- `//branch handle`; the loop handles one branch at most. -/
def commitBranch (cur : Core) (item : RobItem) (st : CommitState) :
    Option (CommitState × Bool) :=
  if !item.bruOp then some (st, true)
  else if item.branchPredictorInfoPack.predicted then
    (commitPredicted cur item (commitMret cur item st)).map (·, false)
  else
    let st := commitMret cur item st
    some ({ st with feedback := { st.feedback with
      jumpEnable := true
      jump := item.bruJump
      jumpNextPc := if item.bruJump then item.bruNextPc else item.pc + 4 } }, false)

/-- The store at the front cannot retire now: it is not first in its group, or it is
cacheable and the retired store buffer is full. -/
def storeBlocked (cur : Core) (i : Nat) (item : RobItem) (st : CommitState) : Option Bool :=
  if !item.storeBufferIdValid then some false
  else if i ≠ 0 then some true
  else do
    let addr ← StoreBuffer.getAddr cur.storeBuffer st.new.storeBuffer item.storeBufferId
    return isCacheable addr
      && Fifo.producerIsFull cur.retiredStoreBuffer.ring st.new.retiredStoreBuffer.ring

/-- The feedback fields that are filled in as soon as a finished entry is seen. -/
def commitSeen (i id : Nat) (next : Option Nat) (st : CommitState) : CommitState :=
  { st with feedback := { st.feedback with
      nextHandleRobId := next
      committedRobId := Function.update st.feedback.committedRobId i (some id) } }

/-- The next handle of a loop body, unless the last one left the loop. -/
def andThen (turn : Option (CommitState × Bool))
    (handle : CommitState → Option (CommitState × Bool)) : Option (CommitState × Bool) :=
  turn.bind fun r => if r.2 then handle r.1 else some (r.1, false)

/-- The handles of an entry that is finished and free to retire. -/
def commitHandles (cur : Core) (writeAck : Option BusErrno) (id : Nat) (item : RobItem)
    (st : CommitState) : Option (CommitState × Bool) :=
  andThen (commitLoad cur item st) fun st =>
    andThen (commitStore cur writeAck id item st) fun st =>
      (commitRetire cur id item st).bind (commitBranch cur item)

/-- The body of the output loop for a finished entry. -/
def commitFinished (cur : Core) (writeAck : Option BusErrno) (i id : Nat) (item : RobItem)
    (st : CommitState) : Option (CommitState × Bool) :=
  if item.hasException then
    (commitException cur id item item.exceptionId item.exceptionValue st).map (·, false)
  else (storeBlocked cur i item st).bind fun blocked =>
    if blocked then some (st, false) else commitHandles cur writeAck id item st

/-- The body of the output loop, for turn `i`. -/
def commitOne (cur : Core) (writeAck : Option BusErrno) (firstId i : Nat) (st : CommitState) :
    Option (CommitState × Bool) :=
  match Fifo.customerGetFrontId cur.rob st.new.rob with
  | none => some (st, false)
  | some id =>
      let item := cur.rob.customerGetItem id
      if !item.finish then some (st, false)
      else (Fifo.customerGetNextId cur.rob st.new.rob id).bind fun (next, nextValid) =>
        commitFinished cur writeAck i id item
          (commitSeen i id (if nextValid && next != firstId then some next else none) st)

/-- The output loop: `k` turns from turn `i` on. -/
def commitLoop (cur : Core) (writeAck : Option BusErrno) (firstId : Nat) :
    Nat → Nat → CommitState → Option CommitState
  | 0, _, st => some st
  | k + 1, i, st =>
      (commitOne cur writeAck firstId i st).bind fun r =>
        if r.2 then commitLoop cur writeAck firstId k (i + 1) r.1 else some r.1

/-- What one execution result does to its ROB entry. -/
def RobItem.applyResult (item : RobItem) (rev : ExecuteWbPack) : RobItem :=
  { item with
    finish := item.finish || rev.lastUop
    hasException := if item.hasException then true else rev.hasException
    exceptionId := if item.hasException then item.exceptionId else rev.exceptionId
    exceptionValue := if item.hasException then item.exceptionValue else rev.exceptionValue
    branchPredictorInfoPack := rev.branchPredictorInfoPack
    bruOp := rev.opUnit == .bru
    bruJump := rev.bruJump
    bruNextPc := rev.bruNextPc
    csrNewvalue := rev.csrNewvalue
    csrNewvalueValid := rev.csrNewvalueValid }

/-- One port of the input loop: a registered read, then a write. -/
def commitInput (cur : Core) (new : Core) (rev : ExecuteWbPack) : Core :=
  if rev.enable then
    let item := (cur.rob.customerGetItem rev.robId.id).applyResult rev
    { new with rob := new.rob.setItem rev.robId.id item }
  else new

/-- The interrupt block at the start of `commit::run`. -/
def commitInterrupt (cur new : Core) (inp : CommitInput) : CommitState :=
  match inp.lines.getCause cur.csrFile with
  | none => { new := new }
  | some cause =>
      match Fifo.customerIsEmpty cur.rob new.rob, inp.decodeRenameFifo with
      | true, tPack :: _ =>
          let csr := (new.csrFile.writeSys csrMepc tPack.pc).writeSys csrMtval 0
          let csr := csr.writeSys csrMcause (0x80000000 ||| cause.toWord)
          let mstatus := mstatusEnter (cur.csrFile.readSys csrMstatus)
          { new := { new with csrFile := csr.writeSys csrMstatus mstatus, committed := true }
            feedback := {
              hasException := true
              exceptionPc := cur.csrFile.readSys csrMtvec
              flush := true }
            needFlush := true
            interruptAck := some cause }
      | _, _ => { new := new, feedback := { waitingForInterrupt := true } }

/-- `commit::run`. -/
def commitRun (cur new : Core) (inp : CommitInput) : Option CommitState :=
  let st := commitInterrupt cur new inp
  match Fifo.customerGetFrontId cur.rob st.new.rob with
  | none => some st
  | some firstId => do
      let st := { st with feedback := { st.feedback with
        idle := false, nextHandleRobId := some firstId } }
      let st ← commitLoop cur inp.writeAck firstId commitWidth 0 st
      if st.needFlush then return st
      else return { st with new := inp.executeCommitPort.foldl (commitInput cur) st.new }

end DreamCore
