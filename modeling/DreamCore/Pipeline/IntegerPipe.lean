import DreamCore.Pipeline.Execute
import DreamCore.Pipeline.IntegerIssue

/-!
# The integer pipeline

From the integer issue queue to the divider: `integer_issue::run_input`, the rest
of `integer_readreg::run` with its handshakes, and `div::run` with its latency.
One cycle of these stages is `IntegerPipe.cycle`, in the order of
`cycle_model::run`.

What comes from elsewhere is an input of the cycle: the flushes, what the load
unit says, the feedback of the execution units and of write-back, the register
file, and the pack of the dispatch port. The other integer units take whatever
has arrived for them in the cycle in which they see it.
-/

namespace DreamCore

open Ring

/-! ## Constants -/

def divLatency : Nat := 8
def executeUnitNum : Nat := 10
def feedbackExecuteUnitNum : Nat := 8

/-- `ALU_SHIFT` to `MUL_SHIFT`; the other units have no place in this queue. -/
def integerShift : OpUnit → Option Nat
  | .alu => some aluShift
  | .bru => some bruShift
  | .csr => some csrShift
  | .div => some divShift
  | .mul => some mulShift
  | _ => none

/-- `ALU_LATENCY` to `MUL_LATENCY`. -/
def integerLatency : OpUnit → Nat
  | .div => divLatency
  | _ => 1

/-- `execute_feedback_channel_t`, and a channel of `wb_feedback_pack_t`. -/
structure ExecuteFeedback extends ExecuteFeedbackChannel where
  value : Word := 0

/-- What one cycle sees of the rest of the core. -/
structure IntegerPipeInput where
  bru : FlushFeedback := {}
  sau : FlushFeedback := {}
  lu : LuFeedback := {}
  commitFlush : Bool := false
  /-- `execute_feedback_pack.channel` and `wb_feedback_pack.channel`. -/
  execute : Nat → ExecuteFeedback := fun _ => {}
  wb : Nat → ExecuteFeedback := fun _ => {}
  /-- `lsu_issue_output_feedback_pack`. -/
  lsu : List WakeupChannel := []
  phyRegfile : Regfile := fun _ => ⟨0, false, ⟨0, false⟩, true⟩
  /-- `dispatch_integer_issue_port`. -/
  pack : List OpInfo := []

namespace IntegerPipeInput

/-- The pack is squashed by a flush of an execution unit. -/
def squashes (inp : IntegerPipeInput) (robId : Ptr) : Bool :=
  inp.bru.squashes robId || inp.sau.squashesEqual robId

end IntegerPipeInput

/-! ## `integer_issue::run_input` -/

/-- The registers of `integer_issue`. -/
structure IntegerStage extends IntegerIssue where
  busy : Bool := false
  holdRevPack : List OpInfo := []
  nextPortIndex : Nat := 0

namespace IntegerStage

/-- `//execute and wb feedback and physical register file check`, for one source. -/
def firstSource (inp : IntegerPipeInput) (op : OpInfo) (needMap : Bool) (phyId : Nat) :
    IssueSource :=
  let finds (channel : Nat → ExecuteFeedback) : Option ExecuteFeedback :=
    ((List.range feedbackExecuteUnitNum).map channel).find? fun c => c.enable && c.phyId == phyId
  if op.valid && !op.hasException && needMap then
    match (finds inp.execute).or (finds inp.wb) with
    | some c => { ready := true, wakeupRobId := c.robId }
    | none =>
        { ready := (inp.phyRegfile phyId).dataValid
          wakeupRobId := (inp.phyRegfile phyId).robId }
  else { ready := true }

/-- `//port assignment`. -/
def portOf (next : Nat) : OpUnit → Nat
  | .alu | .mul => next
  | .div => 1
  | _ => 0

/-- `next_port_index` after an instruction. -/
def portAfter (next : Nat) : OpUnit → Nat
  | .alu | .mul => (next + 1) % integerIssueWidth
  | _ => next

/-- What `run_input` writes for an instruction it pushes. -/
def entryOf (inp : IntegerPipeInput) (next : Nat) (op : OpInfo) : Option IntegerEntry := do
  let place ← integerShift op.opUnit
  return {
    item := op
    src1 := firstSource inp op op.rs1NeedMap op.rs1Phy
    src2 := firstSource inp op op.rs2NeedMap op.rs2Phy
    portIndex := portOf next op.opUnit
    opUnitSeq := 1 <<< place
    robId := op.robId
    wakeupRd := op.rdPhy
    wakeupRdValid := op.valid && !op.hasException && op.needRename
    wakeupShift := latencyToWakeupShift (integerLatency op.opUnit)
    newIdleShift := latencyToIdleShift (integerLatency op.opUnit) }

/-- `producer_get_new_id`. -/
def newId (s : IntegerStage) : Option Nat :=
  (List.range integerIssueQueueSize).find? fun i => !s.valid i

/-- The loop that pushes a pack into the queue. -/
def pushPack (inp : IntegerPipeInput) : List OpInfo → IntegerStage → Option IntegerStage
  | [], s => some s
  | op :: ops, s =>
      if !op.enable then pushPack inp ops s
      else match s.newId with
        | some id => do
            let e ← entryOf inp s.nextPortIndex op
            pushPack inp ops { s with
              entry := Function.update s.entry id e
              valid := Function.update s.valid id true
              issued := Function.update s.issued id false
              nextPortIndex := portAfter s.nextPortIndex op.opUnit }
        | none => some { s with busy := true, holdRevPack := op :: ops }

/-- `run_input`. -/
def runInput (s : IntegerStage) (inp : IntegerPipeInput) : Option IntegerStage :=
  if inp.commitFlush then
    some { s with
      valid := fun _ => false
      busy := false
      holdRevPack := []
      units := {}
      nextPortIndex := 0 }
  else
    let revPack := if s.busy then s.holdRevPack else inp.pack
    let revPack := squashPack inp.bru.squashes revPack
    let revPack := squashPack inp.sau.squashesEqual revPack
    pushPack inp revPack { s with busy := false, holdRevPack := [] }

end IntegerStage

/-! ## `integer_readreg::run` -/

/-- The units behind register read. -/
inductive IntegerUnit where
  | alu (i : Nat)
  | bru
  | csr
  | div
  | mul (i : Nat)
deriving DecidableEq

/-- The `handshake_dff` of each unit: its `data`, where `has_data` is set. -/
abbrev Handshakes (units : Type) := units → Option ReadregExecutePack

namespace Handshakes

variable {units : Type}

/-- `push`, which `is_full` refuses. -/
def push [DecidableEq units] (new : Handshakes units) (unit : units) (pack : ReadregExecutePack) :
    Option (Handshakes units) :=
  if (new unit).isSome then none else some (Function.update new unit (some pack))

/-- What is squashed before a unit has taken it. -/
def dropSquashed (cur new : Handshakes units) (squashes : Ptr → Bool) : Handshakes units :=
  fun unit =>
    match cur unit with
    | some pack => if squashes pack.robId then none else new unit
    | none => new unit

end Handshakes

/-- A source register: its value, and whether there is one. -/
def readSource (inp : IntegerPipeInput) (phyId : Nat) : Word × Bool :=
  let found := (List.range feedbackExecuteUnitNum).findSome? fun j =>
    if (inp.execute j).enable && (inp.execute j).phyId == phyId then some (inp.execute j).value
    else if (inp.wb j).enable && (inp.wb j).phyId == phyId then some (inp.wb j).value
    else none
  match found with
  | some value => (value, true)
  | none => ((inp.phyRegfile phyId).data, (inp.phyRegfile phyId).dataValid)

/-- The pack for an instruction. It is not enabled when a source has no value. -/
def readPack (inp : IntegerPipeInput) (info : OpInfo) : ReadregExecutePack :=
  let src1 := readSource inp info.rs1Phy
  let src2 := readSource inp info.rs2Phy
  let pack := readreg info src1.1 src2.1
  if info.valid && !info.hasException
      && (info.rs1NeedMap && !src1.2 || info.rs2NeedMap && !src2.2) then
    { pack with enable := false }
  else pack

/-- The pack that register read sends on from one port, if it does. -/
def forwarded (inp : IntegerPipeInput) (op : IntegerIssueOp) : Option ReadregExecutePack :=
  if op.enable && !inp.squashes op.robId && !(inp.lu.replay && op.lpv &&& 1 != 0) then
    some (readPack inp op.toOpInfo)
  else none

/-- `//send pack`: the unit for an instruction from port `i`. -/
def readregUnit : Nat → OpUnit → Option IntegerUnit
  | 0, .alu => some (.alu 0)
  | 0, .bru => some .bru
  | 0, .csr => some .csr
  | 0, .mul => some (.mul 0)
  | 0, _ => none
  | _, .alu => some (.alu 1)
  | _, .div => some .div
  | _, .mul => some (.mul 1)
  | _, _ => none

/-- One port. -/
def readregPort (inp : IntegerPipeInput) (i : Nat) (op : IntegerIssueOp)
    (new : Handshakes IntegerUnit) : Option (Handshakes IntegerUnit) :=
  match forwarded inp op with
  | some pack => do
      let unit ← readregUnit i op.opUnit
      new.push unit pack
  | none => some new

/-- `integer_readreg::run`. -/
def readregRun (inp : IntegerPipeInput) (port : List IntegerIssueOp)
    (cur new : Handshakes IntegerUnit) : Option (Handshakes IntegerUnit) :=
  if inp.commitFlush then some fun _ => none
  else (List.range integerIssueWidth).foldlM (fun new i => readregPort inp i (port.getD i {}) new)
    (cur.dropSquashed new inp.squashes)

/-! ## `div::run` -/

/-- The registers of `div`. -/
structure DivUnit where
  sendPack : ExecuteWbPack := {}
  busy : Bool := false
  progress : Nat := 0

/-- What `div::run` leaves: its registers, its handshake, `div_wb_port` and the feedback. -/
structure DivTurn where
  unit : DivUnit
  hdff : Option ReadregExecutePack
  wb : ExecuteWbPack := {}
  feedback : ExecuteFeedback := {}

namespace DivUnit

/-- `send_pack` for a new operation. What the unit does not set stays as it was. -/
def accept (d : DivUnit) (rev : ReadregExecutePack) : Option ExecuteWbPack :=
  let send := { d.sendPack with toReadregExecutePack := rev }
  if rev.enable then do
    guard rev.valid
    guard (rev.opUnit = .div)
    match rev.subOp with
    | .div op => return divOutcome rev op send
    | _ => return send
  else some send

/-- The feedback of a result. -/
def feedback (send : ExecuteWbPack) : ExecuteFeedback where
  enable := send.enable && send.valid && send.needRename && !send.hasException
  phyId := send.rdPhy
  value := send.rdValue
  robId := send.robId

/-- The second half of `run`, `if(this->busy)`. -/
def advance (d : DivUnit) (inp : IntegerPipeInput) (hdff : Option ReadregExecutePack) : DivTurn :=
  if !d.busy then { unit := d, hdff := hdff }
  else if inp.squashes d.sendPack.robId then
    { unit := { d with busy := false, progress := 0 }, hdff := hdff }
  else if d.progress = 0 then
    { unit := { d with busy := false }, hdff := hdff
      wb := d.sendPack, feedback := feedback d.sendPack }
  else { unit := { d with progress := d.progress - 1 }, hdff := hdff }

/-- `div::run`. An operation it accepts while `progress` is zero takes the place of the one before
it. -/
def run (d : DivUnit) (inp : IntegerPipeInput) (hdff : Option ReadregExecutePack) :
    Option DivTurn :=
  if inp.commitFlush then
    some { unit := { d with busy := false, progress := 0 }, hdff := hdff }
  else
    match if !d.busy || d.progress == 0 then hdff else none with
    | some rev =>
        if inp.squashes rev.robId then some { unit := d, hdff := none }
        else do
          let send ← d.accept rev
          return advance ⟨send, true, divLatency - 1⟩ inp none
    | none => some (d.advance inp hdff)

end DivUnit

/-! ## A cycle -/

/-- The stages, and the ports between them. -/
structure IntegerPipe where
  issue : IntegerStage := {}
  /-- `integer_issue_readreg_port`. -/
  port : List IntegerIssueOp := []
  hdff : Handshakes IntegerUnit := fun _ => none
  div : DivUnit := {}
  /-- `div_wb_port`. -/
  wb : ExecuteWbPack := {}

namespace IntegerPipe

/-- The handshakes after the units have run. -/
def taken (s : IntegerPipe) (inp : IntegerPipeInput) (div : DivTurn) : Handshakes IntegerUnit :=
  fun unit =>
    if unit = .div then div.hdff else if inp.commitFlush then s.hdff unit else none

/-- What the wakeup stage sees. -/
def wakeupInput (inp : IntegerPipeInput) (integer : List WakeupChannel) :
    IntegerIssue.WakeupInput where
  bru := inp.bru
  sau := inp.sau
  lu := inp.lu
  integer := integer
  lsu := inp.lsu
  execute := (List.range executeUnitNum).map fun j => (inp.execute j).toExecuteFeedbackChannel

/-- The integer stages in one cycle of `cycle_model::run`. -/
def cycle (s : IntegerPipe) (inp : IntegerPipeInput) : Option IntegerPipe := do
  let div ← s.div.run inp (s.hdff .div)
  let hdff ← readregRun inp s.port s.hdff (s.taken inp div)
  let (output, port, integer) ← s.issue.runOutput ⟨inp.bru, inp.sau, inp.lu⟩ inp.commitFlush
  let woken ← s.issue.runWakeup output (wakeupInput inp integer) inp.commitFlush
  let issue ← { s.issue with toIntegerIssue := woken }.runInput inp
  return { issue := issue, port := port, hdff := hdff, div := div.unit, wb := div.wb }

/-- What register read sends to the divider in a cycle. -/
def toDiv (s : IntegerPipe) (inp : IntegerPipeInput) : Option ReadregExecutePack :=
  if inp.commitFlush then none
  else if (s.port.getD 1 {}).opUnit = .div then forwarded inp (s.port.getD 1 {})
  else none

end IntegerPipe

end DreamCore
