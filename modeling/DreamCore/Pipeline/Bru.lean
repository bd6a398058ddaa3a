import DreamCore.Pipeline.Core

/-!
# The branch unit

`bru::run`. It resolves one branch a cycle and, when the branch was predicted
wrongly and owns a checkpoint, rewinds the shared components to it.
-/

namespace DreamCore

open Ring

/-- The pack a unit starts from: everything copied, nothing computed. -/
def ExecuteWbPack.copy (rev : ReadregExecutePack) : ExecuteWbPack :=
  { toReadregExecutePack := rev }

/-- Signed comparison of two words. -/
def signedLt (a b : Word) : Bool := a.slt b

/-- The taken target, the link value and the outcome of a branch. -/
def bruOutcome (csr : CsrFile) (rev : ReadregExecutePack) (op : BruOp) (send : ExecuteWbPack) :
    ExecuteWbPack :=
  match op with
  | .beq => { send with bruJump := rev.src1Value == rev.src2Value }
  | .bge => { send with bruJump := !signedLt rev.src1Value rev.src2Value }
  | .bgeu => { send with bruJump := decide (rev.src1Value ≥ rev.src2Value) }
  | .blt => { send with bruJump := signedLt rev.src1Value rev.src2Value }
  | .bltu => { send with bruJump := decide (rev.src1Value < rev.src2Value) }
  | .bne => { send with bruJump := rev.src1Value != rev.src2Value }
  | .jal => { send with rdValue := rev.pc + 4, bruJump := true }
  | .jalr =>
      { send with
        rdValue := rev.pc + 4
        bruJump := true
        bruNextPc := (rev.imm + rev.src1Value) &&& ~~~1 }
  | .mret => { send with bruJump := true, bruNextPc := csr.readSys csrMepc }

/-- What `bru::run` computes from the pack it received. -/
def bruCompute (csr : CsrFile) (rev : ReadregExecutePack) : ExecuteWbPack :=
  let send := { ExecuteWbPack.copy rev with bruNextPc := rev.pc + rev.imm }
  let send :=
    match rev.enable, rev.subOp with
    | true, .bru op => bruOutcome csr rev op send
    | _, _ => send
  if send.bruJump then send else { send with bruNextPc := rev.pc + 4 }

/-- `bru_feedback_pack`. -/
def bruFeedback (send : ExecuteWbPack) : FlushFeedback where
  flush := send.enable && send.valid && !send.hasException
    && (send.branchPredictorInfoPack.jump != send.bruJump
      || send.branchPredictorInfoPack.nextPc != send.bruNextPc)
    && send.branchPredictorInfoPack.checkpointIdValid
  nextPc := send.bruNextPc
  robId := send.robId

/-- The recovery at the end of `bru::run`. -/
def bruRecover (cur new : Core) (send : ExecuteWbPack) : Option Core := do
  let cp := cur.checkpointBuffer.customerGetItem send.branchPredictorInfoPack.checkpointId
  let robWptr ← Fifo.customerGetNextIdStage cur.rob new.rob send.robId
  let freeList ← FreeList.restore cur.phyIdFreeList new.phyIdFreeList cp.newPhyIdFreeListRptr
  return { new with
    speculativeRat := new.speculativeRat.restoreFromCheckpoint cp.phyMapTableValid
    rob := new.rob.updateWptr robWptr
    phyRegfile := Regfile.restoreAge cur.phyRegfile new.phyRegfile send.robId
    checkpointBuffer := new.checkpointBuffer.updateWptr cp.newCheckpointBufferWptr
    phyIdFreeList := freeList
    loadQueue := { new.loadQueue with
      ring := new.loadQueue.ring.updateWptr cp.oldLoadQueueWptr }
    storeBuffer := { new.storeBuffer with
      ring := new.storeBuffer.ring.updateWptr cp.oldStoreBufferWptr } }

end DreamCore
