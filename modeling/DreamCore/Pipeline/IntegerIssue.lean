import DreamCore.Lib.Pick
import DreamCore.Pipeline.Issue
import DreamCore.Pipeline.Wakeup

/-!
# Integer issue

`integer_issue::run_output` and `integer_issue::run_wakeup`. The output stage
selects, for each of its two ports, the oldest entry that is ready and whose unit
is idle; the wakeup stage takes back what a replay of the load unit has made
wrong, removes what is certain, and wakes the sources.

The input stage is the one both queues share, `IssueStage.runInput`; here the
queue is what it left.
-/

namespace DreamCore

open Ring

/-- An entry of the integer issue queue and the registers next to it. -/
structure IntegerEntry where
  item : OpInfo := {}
  src1 : IssueSource := {}
  src2 : IssueSource := {}
  portIndex : Nat := 0
  opUnitSeq : Word := 0
  robId : Ptr := ⟨0, false⟩
  wakeupRd : Nat := 0
  wakeupRdValid : Bool := false
  wakeupShift : Word := 0
  newIdleShift : Word := 0

/-- `xxx_idle` and `xxx_idle_shift` of one execution unit. -/
structure UnitBusy where
  idle : Bool := true
  idleShift : Word := 0

/-- The execution units as the output stage sees them. -/
structure IntegerUnits where
  alu : Nat → UnitBusy := fun _ => {}
  bru : UnitBusy := {}
  csr : UnitBusy := {}
  div : UnitBusy := {}
  mul : Nat → UnitBusy := fun _ => {}

/-- The registers of `integer_issue` that the output and the wakeup stage use. -/
structure IntegerIssue where
  entry : Nat → IntegerEntry := fun _ => {}
  valid : Nat → Bool := fun _ => false
  issued : Nat → Bool := fun _ => false
  units : IntegerUnits := {}

/-- `integer_issue_readreg_op_info_t`. -/
structure IntegerIssueOp extends OpInfo where
  lpv : Word := 0

/-- What the output stage sees of the rest of the pipeline. -/
structure IntegerIssueInput where
  bru : FlushFeedback := {}
  sau : FlushFeedback := {}
  lu : LuFeedback := {}

def aluShift : Nat := 0
def bruShift : Nat := 1
def csrShift : Nat := 2
def divShift : Nat := 3
def mulShift : Nat := 4

namespace UnitBusy

/-- One bit of `op_unit_seq_mask`. -/
def bit (u : UnitBusy) (place : Nat) : Word := (if u.idle then 1 else 0) <<< place

/-- `//calculate busy`. -/
def tick (u : UnitBusy) : UnitBusy :=
  if u.idle then u else ⟨u.idleShift == 1, u.idleShift >>> 1⟩

/-- `xxx_idle_shift = new_idle_shift; xxx_idle = false`. -/
def occupy (shift : Word) : UnitBusy := ⟨false, shift⟩

end UnitBusy

namespace IntegerUnits

/-- `op_unit_seq_mask`. -/
def mask (u : IntegerUnits) : Nat → Word
  | 0 => (u.alu 0).bit aluShift ||| (u.mul 0).bit mulShift ||| u.csr.bit csrShift
      ||| u.bru.bit bruShift
  | _ => (u.alu 1).bit aluShift ||| (u.mul 1).bit mulShift ||| u.div.bit divShift

def tick (u : IntegerUnits) : IntegerUnits where
  alu i := (u.alu i).tick
  bru := u.bru.tick
  csr := u.csr.tick
  div := u.div.tick
  mul i := (u.mul i).tick

/-- `//update idle and busy shift`, for port 0. -/
def occupy0 (u : IntegerUnits) (opUnitSeq shift : Word) : Option IntegerUnits :=
  if opUnitSeq = 1 <<< aluShift then some { u with alu := Function.update u.alu 0 (.occupy shift) }
  else if opUnitSeq = 1 <<< bruShift then some { u with bru := .occupy shift }
  else if opUnitSeq = 1 <<< csrShift then some { u with csr := .occupy shift }
  else if opUnitSeq = 1 <<< mulShift then
    some { u with mul := Function.update u.mul 0 (.occupy shift) }
  else none

/-- `//update idle and busy shift`, for port 1. -/
def occupy1 (u : IntegerUnits) (opUnitSeq shift : Word) : Option IntegerUnits :=
  if opUnitSeq = 1 <<< aluShift then some { u with alu := Function.update u.alu 1 (.occupy shift) }
  else if opUnitSeq = 1 <<< divShift then some { u with div := .occupy shift }
  else if opUnitSeq = 1 <<< mulShift then
    some { u with mul := Function.update u.mul 1 (.occupy shift) }
  else none

end IntegerUnits

namespace IntegerIssue

/-- The test of the selection loop for port `i` and slot `j`, but for the age comparison and the
two tests about the load unit. -/
def ready (s : IntegerIssue) (inp : IntegerIssueInput) (i j : Nat) : Bool :=
  s.valid j && !s.issued j && ((s.entry j).opUnitSeq &&& s.units.mask i != 0)
    && (s.entry j).portIndex == i && (s.entry j).src1.ready && (s.entry j).src2.ready
    && (!inp.bru.flush || inp.bru.robId.younger (s.entry j).robId
      || (s.entry j).robId == inp.bru.robId)
    && (!inp.sau.flush || inp.sau.robId.younger (s.entry j).robId)

/-- `//skip the instruction for replay`. -/
def skipReplay (s : IntegerIssue) (inp : IntegerIssueInput) (j : Nat) : Bool :=
  inp.lu.replay && ((s.entry j).src1.atRisk || (s.entry j).src2.atRisk)

/-- Neither source of slot `k` waits for a load. -/
def loadFree (s : IntegerIssue) (k : Nat) : Bool :=
  (s.entry k).src1.lpv == 0 && (s.entry k).src2.lpv == 0

/-- `//skip the instruction when lu is stall because replay must occur`. The vectors are those
of slot `i`, the number of the port. -/
def skipStall (s : IntegerIssue) (inp : IntegerIssueInput) (i : Nat) : Bool :=
  inp.lu.stall && !s.loadFree i

/-- Slot `j` is a candidate of port `i`. -/
def candidate (s : IntegerIssue) (inp : IntegerIssueInput) (i j : Nat) : Bool :=
  s.ready inp i j && !s.skipReplay inp j && !s.skipStall inp i

/-- The age comparison of the selection loop. -/
def older (s : IntegerIssue) (j k : Nat) : Bool := (s.entry k).robId.younger (s.entry j).robId

/-- `//select instructions`: `selected_valid[i]` and `selected_issue_id[i]`. -/
def selected (s : IntegerIssue) (inp : IntegerIssueInput) (i : Nat) : Option Nat :=
  Pick.pick s.older (s.candidate inp i) (List.range integerIssueQueueSize)

/-- The load-pipeline vector an entry is issued with. -/
def sentLpv (e : IntegerEntry) (lu : LuFeedback) : Word :=
  if lu.stall then e.src1.lpv ||| e.src2.lpv else (e.src1.lpv ||| e.src2.lpv) >>> 1

/-- `//build send_pack`, for one port. -/
def sent (s : IntegerIssue) (inp : IntegerIssueInput) (i : Nat) : IntegerIssueOp :=
  match s.selected inp i with
  | some j => { toOpInfo := (s.entry j).item, lpv := sentLpv (s.entry j) inp.lu }
  | none => {}

/-- `//build feedback_pack`, for one port. An idle port shows slot 0. -/
def feedback (s : IntegerIssue) (inp : IntegerIssueInput) (i : Nat) : WakeupChannel :=
  let e := s.entry ((s.selected inp i).getD 0)
  { wakeupValid := (s.selected inp i).isSome && e.wakeupRdValid
    wakeupRd := e.wakeupRd
    wakeupShift := e.wakeupShift
    wakeupLpv := sentLpv e inp.lu
    wakeupRobId := e.robId }

/-- `issue_q.pop` and `issued.set(true)` for the selection of one port. -/
def issue (s new : IntegerIssue) (inp : IntegerIssueInput) (i : Nat) : IntegerIssue :=
  match s.selected inp i with
  | some j =>
      { new with
        valid := if sentLpv (s.entry j) inp.lu = 0 then Function.update new.valid j false
          else new.valid
        issued := Function.update new.issued j true }
  | none => new

/-- The busy registers after the selection. -/
def occupied (s : IntegerIssue) (inp : IntegerIssueInput) : Option IntegerUnits := do
  let units := s.units.tick
  let units ← match s.selected inp 0 with
    | some j =>
        if (s.entry j).newIdleShift != 0 then
          units.occupy0 (s.entry j).opUnitSeq (s.entry j).newIdleShift
        else some units
    | none => some units
  match s.selected inp 1 with
  | some j =>
      if (s.entry j).newIdleShift != 0 then
        units.occupy1 (s.entry j).opUnitSeq (s.entry j).newIdleShift
      else some units
  | none => some units

/-- `run_output`: the registers, the pack for register read and the feedback. -/
def runOutput (s : IntegerIssue) (inp : IntegerIssueInput) (commitFlush : Bool) :
    Option (IntegerIssue × List IntegerIssueOp × List WakeupChannel) :=
  if commitFlush then
    some ({ s with units := {} }, List.replicate integerIssueWidth {},
      List.replicate integerIssueWidth {})
  else do
    let units ← s.occupied inp
    let new := s.issue (s.issue s inp 0) inp 1
    return ({ new with units := units }, (List.range integerIssueWidth).map (s.sent inp),
      (List.range integerIssueWidth).map (s.feedback inp))

/-- What `run_wakeup` sees of the other stages. -/
structure WakeupInput extends IntegerIssueInput where
  integer : List WakeupChannel := []
  lsu : List WakeupChannel := []
  execute : List ExecuteFeedbackChannel := []

/-- The entry has been issued and must be issued again. -/
def replays (cur : IntegerIssue) (lu : LuFeedback) (j : Nat) : Bool :=
  (lu.replay && ((cur.entry j).src1.atRisk || (cur.entry j).src2.atRisk))
    || (lu.stall && ((cur.entry j).src1.lpv >>> 1 != 0 || (cur.entry j).src2.lpv >>> 1 != 0))

/-- The entry has been issued and is no longer at risk. -/
def certain (cur : IntegerIssue) (lu : LuFeedback) (j : Nat) : Bool :=
  cur.loadFree j
    || ((cur.entry j).src1.lpv ≤ 1 && (cur.entry j).src2.lpv ≤ 1 && !lu.stall)

/-- The sources of one entry in `run_wakeup`. -/
def wakeEntry (inp : WakeupInput) (e : IntegerEntry) : Option IntegerEntry := do
  let src1 ← (((e.src1.cancel inp.lu).stall inp.lu).shift inp.lu).awaken e.item.arg1Src
    e.item.rs1NeedMap e.item.rs1Phy inp.integer inp.lsu inp.execute
  let src2 ← (((e.src2.cancel inp.lu).stall inp.lu).shift inp.lu).awaken e.item.arg2Src
    e.item.rs2NeedMap e.item.rs2Phy inp.integer inp.lsu inp.execute
  return { e with src1 := src1, src2 := src2 }

/-- `run_wakeup`, for slot `j`. `cur` are the registers the cycle began with. -/
def wakeSlot (cur new : IntegerIssue) (inp : WakeupInput) (j : Nat) : Option IntegerIssue :=
  if !cur.valid j then some new
  else if inp.bru.squashes (cur.entry j).item.robId
      || inp.sau.squashesEqual (cur.entry j).item.robId then
    some { new with valid := Function.update new.valid j false }
  else do
    let e ← wakeEntry inp (cur.entry j)
    let new := { new with entry := Function.update new.entry j e }
    return if cur.issued j then
      if cur.replays inp.lu j then { new with issued := Function.update new.issued j false }
      else if cur.certain inp.lu j then { new with valid := Function.update new.valid j false }
      else new
    else new

/-- `run_wakeup`. -/
def runWakeup (cur new : IntegerIssue) (inp : WakeupInput) (commitFlush : Bool) :
    Option IntegerIssue :=
  if commitFlush then some new
  else (List.range integerIssueQueueSize).foldlM (fun new j => cur.wakeSlot new inp j) new

end IntegerIssue

end DreamCore
