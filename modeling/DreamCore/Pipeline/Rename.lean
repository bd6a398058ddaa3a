import DreamCore.Pipeline.Core

/-!
# Rename

`rename::run`. Every turn of the loop takes one instruction off
`decode_rename_fifo`, maps its registers, and allocates what it needs: a
physical register, a ROB entry, a load queue or store buffer entry, and — for a
predicted branch or a load, while there is room — a checkpoint.

The loop is kept as the list of its turns: what was sent to dispatch, and the
components as the turn left them. The state right after one particular
instruction was renamed is then something a statement can mention.
-/

namespace DreamCore

open Ring

/-- The map of a source or destination register; the `verify` around the lookup fails when
nothing is mapped. -/
def lookupPhy (rat : RatTable) (needMap : Bool) (archId : Nat) : Option Nat :=
  if needMap then do
    let found ← rat.producerGetPhyId archId
    found
  else some 0

/-- The destination register: the register it replaces, the new one, and the components with
the pop and the new mapping done. -/
def renameRd (cur new : Core) (rd : Nat) : Option (Nat × Nat × Core) := do
  let found ← new.speculativeRat.producerGetPhyId rd
  let oldPhyRegId ← found
  let (popped, freeList) ← FreeList.pop cur.phyIdFreeList new.phyIdFreeList
  let rdPhy ← popped
  let rat ← new.speculativeRat.setMap false rd rdPhy
  return (oldPhyRegId, rdPhy, { new with phyIdFreeList := freeList, speculativeRat := rat })

/-- The load queue or store buffer entry of an instruction that is neither invalid nor
faulting. -/
def renameQueue (cur new : Core) (rev : DecodeRenamePack) (robId : Ptr) : Option Core :=
  if rev.valid && !rev.hasException then
    if rev.opUnit = .lu then do
      let ring ← Fifo.push cur.loadQueue.ring new.loadQueue.ring {}
      let loadQueue := { new.loadQueue with ring := ring }
      some { new with loadQueue := loadQueue.clearReplayNum new.loadQueue.ring.wptr.id }
    else if rev.opUnit = .sdu then do
      let ring ← Fifo.push cur.storeBuffer.ring new.storeBuffer.ring { robId := robId }
      let tailId ← Fifo.producerGetTailId cur.storeBuffer.ring ring
      let storeBuffer := { new.storeBuffer with ring := ring }
      some { new with storeBuffer := storeBuffer.writeAddr tailId 0 0 false }
    else some new
  else some new

/-- Whether the instruction gets a load queue entry. -/
def DecodeRenamePack.takesLoadQueue (rev : DecodeRenamePack) : Bool :=
  rev.valid && !rev.hasException && rev.opUnit == .lu

/-- Whether the instruction gets a store buffer entry. -/
def DecodeRenamePack.takesStoreBuffer (rev : DecodeRenamePack) : Bool :=
  rev.valid && !rev.hasException && rev.opUnit == .sdu

/-- The ROB entry of a fresh instruction. `before` are the components before its own
allocations, `after` those with its destination mapped. -/
def renameRobItem (before after : Core) (rev : DecodeRenamePack) (oldPhyRegId rdPhy : Nat) :
    RobItem where
  newPhyRegId := rdPhy
  oldPhyRegId := oldPhyRegId
  oldPhyRegIdValid := rev.valid && rev.needRename
  finish := false
  pc := rev.pc
  lastUop := rev.lastUop
  rd := rev.rd
  hasException := rev.hasException
  exceptionId := rev.exceptionId
  exceptionValue := rev.exceptionValue
  bruOp := rev.opUnit == .bru
  isMret := rev.op == .mret
  csrAddr := rev.csr
  oldPhyIdFreeListRptr := before.phyIdFreeList.save
  newPhyIdFreeListRptr := after.phyIdFreeList.save
  loadQueueIdValid := rev.takesLoadQueue
  loadQueueId := if rev.takesLoadQueue then before.loadQueue.ring.wptr.id else 0
  storeBufferIdValid := rev.takesStoreBuffer
  storeBufferId := if rev.takesStoreBuffer then before.storeBuffer.ring.wptr.id else 0

/-- The checkpoint of an instruction. `before` are the components before its own
allocations, `after` those after all of them but the checkpoint itself. -/
def renameCheckpoint (cur before after : Core) : Checkpoint where
  phyMapTableValid := after.speculativeRat.phyMapTableValid
  oldPhyIdFreeListRptr := before.phyIdFreeList.save
  newPhyIdFreeListRptr := after.phyIdFreeList.save
  oldCheckpointBufferWptr :=
    (Fifo.producerGetTailIdStage cur.checkpointBuffer after.checkpointBuffer).getD ⟨0, false⟩
  newCheckpointBufferWptr :=
    Fifo.staticGetNextIdStage checkpointBufferSize after.checkpointBuffer.wptr
  oldLoadQueueWptr := before.loadQueue.ring.wptr
  oldStoreBufferWptr := before.storeBuffer.ring.wptr

/-- Whether the instruction is given a checkpoint when there is room for one. -/
def DecodeRenamePack.wantsCheckpoint (rev : DecodeRenamePack) : Bool :=
  rev.valid && (rev.branchPredictorInfoPack.predicted || rev.opUnit == .lu)

/-- The destination of an instruction, when it has one that is renamed. -/
def renameDest (cur new : Core) (rev : DecodeRenamePack) : Option (Nat × Nat × Core) :=
  if rev.valid && rev.needRename then renameRd cur new rev.rd else some (0, 0, new)

/-- The queue entry and the ROB entry. -/
def renamePush (cur before mapped : Core) (rev : DecodeRenamePack) (oldPhyRegId rdPhy : Nat) :
    Option Core := do
  guard (!Fifo.producerIsFull cur.rob mapped.rob)
  let queued ← renameQueue cur mapped rev mapped.rob.wptr
  let rob ← Fifo.push cur.rob queued.rob (renameRobItem before mapped rev oldPhyRegId rdPhy)
  return { queued with rob := rob }

/-- What goes to dispatch, but for the checkpoint. -/
def renameInfo (before : Core) (rev : DecodeRenamePack) (rs1Phy rs2Phy rdPhy : Nat) : OpInfo where
  toDecodeRenamePack := rev
  rs1Phy := rs1Phy
  rs2Phy := rs2Phy
  rdPhy := rdPhy
  robId := before.rob.wptr
  loadQueueId := if rev.takesLoadQueue then before.loadQueue.ring.wptr.id else 0
  storeBufferId := if rev.takesStoreBuffer then before.storeBuffer.ring.wptr.id else 0

/-- The checkpoint, for an instruction that wants one while there is room. -/
def renameMark (cur before pushed : Core) (info : OpInfo) : Option (OpInfo × Core) :=
  if info.wantsCheckpoint
      && !Fifo.producerIsFull cur.checkpointBuffer pushed.checkpointBuffer then do
    let checkpointBuffer ← Fifo.push cur.checkpointBuffer pushed.checkpointBuffer
      (renameCheckpoint cur before pushed)
    let checkpointId ← Fifo.producerGetTailId cur.checkpointBuffer checkpointBuffer
    return ({ info with branchPredictorInfoPack := { info.branchPredictorInfoPack with
        checkpointIdValid := true, checkpointId := checkpointId } },
      { pushed with checkpointBuffer := checkpointBuffer })
  else some (info, pushed)

/-- The body of the loop once the instruction has been popped. -/
def renameOp (cur new : Core) (rev : DecodeRenamePack) : Option (OpInfo × Core) :=
  if !rev.enable then some ({ toDecodeRenamePack := rev }, new)
  else do
    let rs1Phy ← lookupPhy new.speculativeRat rev.rs1NeedMap rev.rs1
    let rs2Phy ← lookupPhy new.speculativeRat rev.rs2NeedMap rev.rs2
    let (oldPhyRegId, rdPhy, mapped) ← renameDest cur new rev
    let pushed ← renamePush cur new mapped rev oldPhyRegId rdPhy
    renameMark cur new pushed (renameInfo new rev rs1Phy rs2Phy rdPhy)

/-- What the class of an instruction asks of the loop before it is popped. -/
inductive RenameGate where
  /-- `break`, before the instruction is taken. -/
  | stop
  /-- Take it, with the flags `ready_to_stop_rename` and `found_fence` afterwards. -/
  | take (last fence : Bool)

/-- The checks at the top of the loop body. -/
def renameGate (cur new : Core) (i : Nat) (foundFence : Bool) (rev : DecodeRenamePack) :
    RenameGate :=
  if rev.enable && rev.valid && !rev.hasException then
    if rev.opUnit = .csr ∨ rev.op = .mret then
      if i = 0 then .take true foundFence else .stop
    else if rev.op = .fence then .take false true
    else if foundFence && rev.opUnit.isLsu then .stop
    else if rev.opUnit = .lu ∧ Fifo.producerIsFull cur.loadQueue.ring new.loadQueue.ring then .stop
    else if rev.opUnit = .sdu ∧ Fifo.producerIsFull cur.storeBuffer.ring new.storeBuffer.ring then
      .stop
    else .take false foundFence
  else .take false foundFence

/-- The loop: `k` turns from turn `i` on. The result lists the turns that renamed an
instruction. -/
def renameLoop (cur : Core) : Nat → Nat → Bool → Core → List DecodeRenamePack →
    Option (List (OpInfo × Core))
  | 0, _, _, _, _ => some []
  | _ + 1, _, _, _, [] => some []
  | k + 1, i, foundFence, new, rev :: fifo =>
      if Fifo.producerIsEmpty cur.phyIdFreeList.ring new.phyIdFreeList.ring
          || Fifo.producerIsFull cur.rob new.rob then some []
      else match renameGate cur new i foundFence rev with
        | .stop => some []
        | .take last fence => do
            let (info, new) ← renameOp cur new rev
            if last then return [(info, new)]
            else return (info, new) :: (← renameLoop cur k (i + 1) fence new fifo)

/-- What `rename::run` did. -/
structure RenameResult where
  turns : List (OpInfo × Core) := []
  new : Core
  /-- The pack set on `rename_dispatch_port`; `none` when the port is left alone. -/
  port : Option (List OpInfo)

/-- `rename::run`. -/
def renameRun (cur new : Core) (dispatchStall flush waitingForInterrupt : Bool)
    (fifo : List DecodeRenamePack) : Option RenameResult :=
  if flush then some { new := new, port := some [] }
  else if dispatchStall then some { new := new, port := none }
  else if waitingForInterrupt then some { new := new, port := some [] }
  else do
    let turns ← renameLoop cur renameWidth 0 false new fifo
    return {
      turns := turns
      new := (turns.getLast?.map Prod.snd).getD new
      port := some (turns.map Prod.fst) }

end DreamCore
