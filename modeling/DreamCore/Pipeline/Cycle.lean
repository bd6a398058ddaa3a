import DreamCore.Pipeline.Commit
import DreamCore.Pipeline.Lsu
import DreamCore.Pipeline.Rename

/-!
# One cycle of the core

The part of `cycle_model::run` that touches the shared components, in its order:
the two early feedback runs, commit, write-back, the arbitration between the two
flushes, the execution units, rename, the retired store buffer, `sync_all`.

What the units receive, and when, is decided by dispatch, issue and register
read. Here it is an input: every choice of them is a cycle.
-/

namespace DreamCore

open Ring

/-- What reaches the shared components in one cycle. -/
structure CycleInput where
  commit : CommitInput := {}
  /-- The packs `readreg` left for the units, if any. The load is one the first level accepts. -/
  bru : Option ReadregExecutePack := none
  sau : Option ReadregExecutePack := none
  sdu : Option ReadregExecutePack := none
  lu : Option ReadregExecutePack := none
  /-- The load queue id of a load in the second level that has to replay. -/
  luReplay : Option Nat := none
  dispatchStall : Bool := false
  /-- The cacheable bus acknowledges the write of the retired store buffer. -/
  drainAck : Bool := false

/-- `wb::run` on the register file. The address and data units have no port here. -/
def wbRun (new : Core) (bru sau : FlushFeedback) (commitFlush : Bool)
    (ports : List ExecuteWbPack) : Core :=
  if commitFlush then new
  else
    { new with phyRegfile := ports.foldl (fun regs rev =>
        if bru.squashes rev.robId then regs
        else if sau.squashesEqual rev.robId then regs
        else if rev.enable && rev.valid && !rev.hasException && rev.needRename then
          regs.write rev.rdPhy rev.rdValue true rev.robId false
        else regs) new.phyRegfile }

/-- The arbitration between the two early feedbacks, and commit's veto. -/
def arbitrate (bru sau : FlushFeedback) (commitFlush : Bool) : FlushFeedback × FlushFeedback :=
  let (bru, sau) :=
    if bru.flush && sau.flush then
      if bru.robId.younger sau.robId then ({ bru with flush := false }, sau)
      else (bru, { sau with flush := false })
    else (bru, sau)
  if commitFlush then ({ bru with flush := false }, { sau with flush := false }) else (bru, sau)

/-- The later run of `bru::run`. -/
def bruRun (cur new : Core) (sau : FlushFeedback) (rev : ReadregExecutePack) : Option Core :=
  if sau.squashesEqual rev.robId then some new
  else
    let send := bruCompute cur.csrFile rev
    if (bruFeedback send).flush then bruRecover cur new send else some new

/-- `retired_store_buffer::run` on its own registers. -/
def retiredStoreBufferRun (cur new : RetiredStoreBuffer) (ack : Bool) : RetiredStoreBuffer :=
  let new :=
    if new.isWaitingAck && ack then
      { ring := Fifo.drop cur.ring new.ring, isWaitingAck := false }
    else new
  if !new.isWaitingAck && !Fifo.customerIsEmpty cur.ring new.ring then
    { new with isWaitingAck := true }
  else new

/-- What one cycle did. -/
structure CycleResult where
  next : Core
  commit : CommitState
  bru : FlushFeedback
  sau : FlushFeedback
  rename : RenameResult

/-- The later run of the branch unit; a flush of commit keeps it from running. -/
def bruTurn (cur new : Core) (inp : CycleInput) (sau : FlushFeedback) (commitFlush : Bool) :
    Option Core :=
  match commitFlush, inp.bru with
  | false, some rev => bruRun cur new sau rev
  | _, _ => some new

/-- The load unit: the replay counter of the second level, the load the first level accepts. -/
def luTurn (cur new : Core) (inp : CycleInput) (bru sau : FlushFeedback) (commitFlush : Bool) :
    Core :=
  let new := match inp.luReplay with
    | some id => { new with loadQueue := LoadQueue.addReplayNum cur.loadQueue new.loadQueue id }
    | none => new
  match commitFlush, inp.lu with
  | false, some rev =>
      if bru.squashes rev.robId || sau.squashesEqual rev.robId then new else luAccept new rev
  | _, _ => new

/-- The later run of the store address unit. -/
def sauTurn (cur new : Core) (inp : CycleInput) (bru : FlushFeedback) (commitFlush : Bool) :
    Option Core :=
  match commitFlush, inp.sau with
  | false, some rev => if bru.squashes rev.robId then some new else sauRun cur new rev
  | _, _ => some new

/-- The store data unit. -/
def sduTurn (cur new : Core) (inp : CycleInput) (bru sau : FlushFeedback) (commitFlush : Bool) :
    Option Core :=
  match commitFlush, inp.sdu with
  | false, some rev =>
      if bru.squashes rev.robId || sau.squashesEqual rev.robId then some new
      else sduRun cur new rev
  | _, _ => some new

/-- The units after the arbitration: the recoveries and the queue writes. -/
def executeRun (cur new : Core) (inp : CycleInput) (bru sau : FlushFeedback)
    (commitFlush : Bool) : Option Core := do
  let new ← bruTurn cur new inp sau commitFlush
  let new ← sauTurn cur (luTurn cur new inp bru sau commitFlush) inp bru commitFlush
  sduTurn cur new inp bru sau commitFlush

/-- The part of `cycle_model::run` that touches the shared components. -/
def Core.cycle (cur : Core) (inp : CycleInput) : Option CycleResult := do
  let new := { cur with committed := false }
  let bru := (inp.bru.map fun rev => bruFeedback (bruCompute cur.csrFile rev)).getD {}
  let sau := (inp.sau.map (sauFeedback cur new)).getD {}
  let new := (inp.sau.map (sauWrite cur new)).getD new
  let commit ← commitRun cur new inp.commit
  let flush := commit.feedback.flush
  let new := wbRun commit.new bru sau flush (inp.commit.executeCommitPort.take 8)
  let (bru, sau) := arbitrate bru sau flush
  let new ← executeRun cur new inp bru sau flush
  let rename ← renameRun cur new inp.dispatchStall (flush || bru.flush || sau.flush)
    commit.feedback.waitingForInterrupt inp.commit.decodeRenameFifo
  let next := { rename.new with
    retiredStoreBuffer := retiredStoreBufferRun cur.retiredStoreBuffer
      rename.new.retiredStoreBuffer inp.drainAck }
  return { next := next, commit := commit, bru := bru, sau := sau, rename := rename }

end DreamCore
