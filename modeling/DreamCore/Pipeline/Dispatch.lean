import DreamCore.Pipeline.Types

/-!
# Dispatch

`dispatch::run`. A renamed pack is split by class and handed to the two issue
stages. A class whose stage is busy goes into a hold register; a pack that must
wait as a whole — a CSR instruction or `mret` that is not yet the oldest, a fence
whose stages are not both free — stays in `rev_pack` with `busy` set.

A fence, a CSR instruction or `mret` that has left closes the gate behind it:
`is_inst_waiting` until it commits, and for a fence `is_stbuf_empty_waiting`
until the store buffer has drained as well.
-/

namespace DreamCore

open Ring

/-- The fields a load, store address or store data op is not given by dispatch: its branch
predictor info pack keeps the default. -/
def OpInfo.toLsu (op : OpInfo) : OpInfo := { op with branchPredictorInfoPack := {} }

/-- What the issue stage of its class receives of a renamed instruction. -/
def OpInfo.toIssue (op : OpInfo) : OpInfo := if op.opUnit.isLsu then op.toLsu else op

/-- `enable = false` for the ops of a pack that a flush squashes. -/
def squashPack (squashed : Ptr → Bool) (pack : List OpInfo) : List OpInfo :=
  pack.map fun op => if op.enable && squashed op.robId then { op with enable := false } else op

/-- The members of `dispatch`, and the ports it reads and writes. -/
structure Dispatch where
  integerBusy : Bool := false
  lsuBusy : Bool := false
  busy : Bool := false
  holdIntegerIssuePack : List OpInfo := []
  holdLsuIssuePack : List OpInfo := []
  revPack : List OpInfo := []
  isInstWaiting : Bool := false
  instWaitingRobId : Ptr := ⟨0, false⟩
  isStbufEmptyWaiting : Bool := false
  stbufEmptyWaitingRobId : Ptr := ⟨0, false⟩
  /-- `dispatch_integer_issue_port`. -/
  integerPort : List OpInfo := []
  /-- `dispatch_lsu_issue_port`. -/
  lsuPort : List OpInfo := []

/-- What dispatch sees of the other stages. -/
structure DispatchInput where
  /-- `rename_dispatch_port`. -/
  renamePort : List OpInfo
  integerStall : Bool
  lsuStall : Bool
  bru : FlushFeedback
  sau : FlushFeedback
  commit : CommitFeedback
  /-- `store_buffer->customer_is_empty()`. -/
  storeBufferEmpty : Bool

/-- The `inst_waiting_ok` signal. -/
def Dispatch.instWaitingOk (d : Dispatch) (commit : CommitFeedback) : Bool :=
  (List.range commitWidth).any fun i => commit.committedRobId i == some d.instWaitingRobId.id

/-- `dispatch_feedback_pack.stall`. -/
def Dispatch.stall (d : Dispatch) (inp : DispatchInput) : Bool :=
  d.integerBusy || d.lsuBusy || d.busy
    || (d.isInstWaiting && !d.instWaitingOk inp.commit)
    || (d.isStbufEmptyWaiting && !inp.storeBufferEmpty)

/-- The filtering of hold registers and ports under a flush of the branch or the store
address unit. The integer side does not look at the age when a branch flushes. -/
def Dispatch.applyFlush (d : Dispatch) (bru sau : FlushFeedback) : Dispatch :=
  if bru.flush || sau.flush then
    let lsuHold := d.holdLsuIssuePack
    let holdInteger := d.holdIntegerIssuePack.mapIdx fun i op =>
      if op.enable && (bru.flush
          || sau.squashes ((lsuHold[i]?.map OpInfo.robId).getD ⟨0, false⟩)) then
        { op with enable := false }
      else op
    let holdLsu := squashPack (fun id => bru.squashes id || sau.flush) lsuHold
    { d with
      holdIntegerIssuePack := holdInteger
      holdLsuIssuePack := holdLsu
      integerPort := squashPack (fun id => bru.flush || sau.squashes id) d.integerPort
      lsuPort := squashPack (fun id => bru.squashes id || sau.flush) d.lsuPort
      integerBusy := false
      lsuBusy := d.lsuBusy && holdLsu.any fun op => op.enable }
  else d

/-- The packs built from `rev_pack`, and what it was found to contain. -/
structure DispatchSplit where
  integer : List OpInfo := []
  lsu : List OpInfo := []
  instWaiting : Option Ptr := none
  fence : Option Ptr := none

/-- The loop over `rev_pack`, from slot `i` on. A CSR instruction or `mret` outside the
first slot fails the `verify_only`. -/
def dispatchSplit : Nat → List OpInfo → DispatchSplit → Option DispatchSplit
  | _, [], acc => some acc
  | i, op :: ops, acc =>
      if !op.enable then dispatchSplit (i + 1) ops acc
      else
        let acc :=
          if op.opUnit.isLsu then { acc with lsu := acc.lsu ++ [op.toLsu] }
          else { acc with integer := acc.integer ++ [op] }
        if op.valid && !op.hasException then
          if op.opUnit = .csr ∨ op.op = .mret then
            if i = 0 then some { acc with instWaiting := some op.robId } else none
          else if op.op = .fence then
            dispatchSplit (i + 1) ops { acc with fence := some op.robId }
          else dispatchSplit (i + 1) ops acc
        else dispatchSplit (i + 1) ops acc

/-- Both ports get an empty pack, where their stage has taken the last one. -/
def Dispatch.clearPorts (d : Dispatch) (inp : DispatchInput) : Dispatch :=
  { d with
    integerPort := if inp.integerStall then d.integerPort else []
    lsuPort := if inp.lsuStall then d.lsuPort else [] }

/-- A CSR instruction or `mret` at the front of the pack. -/
def Dispatch.sendInst (d : Dispatch) (inp : DispatchInput) (split : DispatchSplit) (robId : Ptr) :
    Dispatch :=
  if !inp.integerStall && inp.commit.nextHandleRobId == some robId.id then
    { d.clearPorts inp with
      integerPort := split.integer, isInstWaiting := true, instWaitingRobId := robId }
  else { d.clearPorts inp with busy := true }

/-- One class of an ordinary pack: to the port, or into the hold register. -/
def Dispatch.sendClasses (d : Dispatch) (inp : DispatchInput) (split : DispatchSplit) :
    Dispatch :=
  let d := d.clearPorts inp
  let d :=
    if split.integer.isEmpty then d
    else if inp.integerStall then
      { d with holdIntegerIssuePack := split.integer, integerBusy := true }
    else { d with integerPort := split.integer }
  if split.lsu.isEmpty then d
  else if inp.lsuStall then { d with holdLsuIssuePack := split.lsu, lsuBusy := true }
  else { d with lsuPort := split.lsu }

/-- A pack with a fence needs both of its classes accepted at once. -/
def Dispatch.sendPack (d : Dispatch) (inp : DispatchInput) (split : DispatchSplit) : Dispatch :=
  match split.fence with
  | some robId =>
      if (!split.integer.isEmpty && inp.integerStall) || (!split.lsu.isEmpty && inp.lsuStall) then
        { d.clearPorts inp with busy := true }
      else
        { d with
          isStbufEmptyWaiting := true, stbufEmptyWaitingRobId := robId
          isInstWaiting := true, instWaitingRobId := robId }.sendClasses inp split
  | none => d.sendClasses inp split

/-- The hold registers are emptied into the ports. -/
def Dispatch.sendHeld (d : Dispatch) (inp : DispatchInput) : Dispatch :=
  let d :=
    if inp.integerStall then d
    else if d.integerBusy then
      { d with integerPort := d.holdIntegerIssuePack, integerBusy := false }
    else { d with integerPort := [] }
  if inp.lsuStall then d
  else if d.lsuBusy then { d with lsuPort := d.holdLsuIssuePack, lsuBusy := false }
  else { d with lsuPort := [] }

/-- The branch of `dispatch::run` taken when it waits for nothing. -/
def Dispatch.runOpen (d : Dispatch) (inp : DispatchInput) : Option Dispatch := do
  let d := { d with isInstWaiting := false, isStbufEmptyWaiting := false }
  if !(d.integerBusy || d.lsuBusy) then
    let d := if d.busy then { d with busy := false } else { d with revPack := inp.renamePort }
    let split ← if inp.bru.flush || inp.sau.flush then some {} else dispatchSplit 0 d.revPack {}
    match split.instWaiting with
    | some robId => return d.sendInst inp split robId
    | none => return d.sendPack inp split
  else return d.sendHeld inp

/-- The flush squashes the instruction a waiting flag belongs to. -/
def DispatchInput.squashesWaiting (inp : DispatchInput) (robId : Ptr) : Bool :=
  inp.bru.squashes robId || inp.sau.squashesEqual robId

/-- The two branches taken while dispatch waits. -/
def Dispatch.runWaiting (d : Dispatch) (inp : DispatchInput) (ok : Bool) : Option Dispatch :=
  let d := d.clearPorts inp
  if d.isInstWaiting then
    if ok || inp.squashesWaiting d.instWaitingRobId then
      some { d with
        isInstWaiting := false
        instWaitingRobId := ⟨0, d.instWaitingRobId.stage⟩
        isStbufEmptyWaiting := d.isStbufEmptyWaiting
          && !(inp.storeBufferEmpty || inp.squashesWaiting d.stbufEmptyWaitingRobId) }
    else some d
  else if d.isStbufEmptyWaiting then
    some { d with
      isStbufEmptyWaiting :=
        !(inp.storeBufferEmpty || inp.squashesWaiting d.stbufEmptyWaitingRobId) }
  else none

/-- `dispatch::run`. -/
def Dispatch.run (d : Dispatch) (inp : DispatchInput) : Option Dispatch :=
  if inp.commit.flush then some {}
  else
    let ok := d.instWaitingOk inp.commit
    let d := d.applyFlush inp.bru inp.sau
    if (!d.isInstWaiting || ok) && (!d.isStbufEmptyWaiting || inp.storeBufferEmpty) then
      d.runOpen inp
    else d.runWaiting inp ok

end DreamCore
