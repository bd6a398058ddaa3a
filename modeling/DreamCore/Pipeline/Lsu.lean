import DreamCore.Component.AddressMap
import DreamCore.Pipeline.Core
import DreamCore.Pipeline.Bru

/-!
# The store units and the load unit's first level

What `sau::run`, `sdu::run` and the first pipeline level of `lu::run` do to the
load queue and the store buffer. The address unit runs twice in a cycle: the
early run, which only wants the feedback, already writes the address and the
conflict flag.
-/

namespace DreamCore

open Ring

/-- The access size of an address part. -/
def SauOp.size : SauOp → Nat
  | .stab => 1
  | .stah => 2
  | .staw => 4

/-- The effective address of a load or of the address part of a store. -/
def ReadregExecutePack.effectiveAddr (rev : ReadregExecutePack) : Word := rev.src1Value + rev.imm

/-- The size of the address part in a pack. The failing `verify_only` of the default case
does not occur: only address parts reach the unit. -/
def sauSize (rev : ReadregExecutePack) : Nat :=
  match rev.subOp with
  | .sau op => op.size
  | _ => 4

/-- What `sau::run` sends to write-back and commit. -/
def sauCompute (rev : ReadregExecutePack) : ExecuteWbPack :=
  let send := { ExecuteWbPack.copy rev with branchPredictorInfoPack := {} }
  if rev.enable && !rev.hasException then
    let aligned := checkAlign rev.effectiveAddr (sauSize rev)
    { send with
      exceptionValue := rev.effectiveAddr
      hasException := !aligned
      exceptionId := if aligned then .storeAmoAccessFault else .storeAmoAddressMisaligned }
  else send

/-- The load the unit flags: the one `get_conflict_item` finds. -/
def sauConflict (cur new : Core) (rev : ReadregExecutePack) : Option (Nat × LoadQueueItem) :=
  LoadQueue.getConflictItem cur.loadQueue new.loadQueue rev.effectiveAddr
    (BitVec.ofNat 32 (sauSize rev)) rev.robId

/-- The writes of `sau::run`, made by both of its runs. -/
def sauWrite (cur new : Core) (rev : ReadregExecutePack) : Core :=
  if rev.enable && !rev.hasException then
    let storeBuffer := new.storeBuffer.writeAddr rev.storeBufferId rev.effectiveAddr
      (BitVec.ofNat 32 (sauSize rev)) true
    let new := { new with storeBuffer := storeBuffer }
    match sauConflict cur new rev with
    | some (id, _) => { new with loadQueue := new.loadQueue.writeConflict id true }
    | none => new
  else new

/-- `sau_feedback_pack`. -/
def sauFeedback (cur new : Core) (rev : ReadregExecutePack) : FlushFeedback :=
  if rev.enable && !rev.hasException then
    match sauConflict cur new rev with
    | some (_, item) =>
        if item.checkpointIdValid then ⟨true, item.pc, item.robId⟩ else {}
    | none => {}
  else {}

/-- The recovery of `sau::run`: back to before the conflicting load. -/
def sauRecover (cur new : Core) (item : LoadQueueItem) : Option Core := do
  let cp := cur.checkpointBuffer.customerGetItem item.checkpointId
  let freeList ← FreeList.restore cur.phyIdFreeList new.phyIdFreeList cp.oldPhyIdFreeListRptr
  return { new with
    speculativeRat := new.speculativeRat.restoreFromCheckpoint cp.phyMapTableValid
    rob := new.rob.updateWptr item.robId
    phyRegfile := Regfile.restoreEqual cur.phyRegfile new.phyRegfile item.robId
    checkpointBuffer := new.checkpointBuffer.updateWptr cp.oldCheckpointBufferWptr
    phyIdFreeList := freeList
    loadQueue := { new.loadQueue with
      ring := new.loadQueue.ring.updateWptr cp.oldLoadQueueWptr }
    storeBuffer := { new.storeBuffer with
      ring := new.storeBuffer.ring.updateWptr cp.oldStoreBufferWptr } }

/-- The later run of `sau::run`: the writes again, and the recovery. -/
def sauRun (cur new : Core) (rev : ReadregExecutePack) : Option Core :=
  let written := sauWrite cur new rev
  if rev.enable && !rev.hasException then
    match sauConflict cur new rev with
    | some (_, item) => if item.checkpointIdValid then sauRecover cur written item else some written
    | none => some written
  else some written

/-- The data a data part stores. -/
def sduData (rev : ReadregExecutePack) : Word :=
  match rev.subOp with
  | .sdu .sb => rev.src2Value &&& 0xff
  | .sdu .sh => rev.src2Value &&& 0xffff
  | _ => rev.src2Value

/-- What `sdu::run` sends to write-back and commit. -/
def sduCompute (rev : ReadregExecutePack) : ExecuteWbPack :=
  { ExecuteWbPack.copy rev with branchPredictorInfoPack := {} }

/-- `sdu::run` on the store buffer. -/
def sduRun (cur new : Core) (rev : ReadregExecutePack) : Option Core :=
  if rev.enable && !rev.hasException then do
    let item ← StoreBuffer.getItem cur.storeBuffer new.storeBuffer rev.storeBufferId
    let storeBuffer ← StoreBuffer.setItem cur.storeBuffer new.storeBuffer rev.storeBufferId
      { item with
        dataValid := true, data := sduData rev, committed := false, pc := rev.pc
        robId := rev.robId }
    return { new with storeBuffer := storeBuffer }
  else some new

/-- The access size of a load. -/
def LuOp.size : LuOp → Nat
  | .lb | .lbu => 1
  | .lh | .lhu => 2
  | .lw => 4

/-- The size of the load in a pack. -/
def luSize (rev : ReadregExecutePack) : Nat :=
  match rev.subOp with
  | .lu op => op.size
  | _ => 4

/-- What the first level of `lu::run` does to the load queue with the load it accepts. -/
def luAccept (new : Core) (rev : ReadregExecutePack) : Core :=
  if rev.enable && !rev.hasException then
    let item : LoadQueueItem := {
      addrValid := true
      pc := rev.pc
      robId := rev.robId
      addr := rev.effectiveAddr
      size := BitVec.ofNat 32 (luSize rev)
      checkpointIdValid := rev.branchPredictorInfoPack.checkpointIdValid
      checkpointId := rev.branchPredictorInfoPack.checkpointId }
    let loadQueue := { new.loadQueue with ring := new.loadQueue.ring.setItem rev.loadQueueId item }
    { new with loadQueue := loadQueue.writeConflict rev.loadQueueId false }
  else new

end DreamCore
