import DreamCore.Pipeline.Lsu
import DreamCore.Pipeline.LsuIssue

/-!
# The LSU pipeline

From the LSU issue queue to commit: `lsu_issue`, `lsu_readreg::run` with its
handshakes, and the address and data units of a store with their ports. One cycle
of these stages is `LsuPipe.cycle`, in the order of `cycle_model::run`.

While the load unit stalls, register read keeps what it has been given, but for
what is squashed or has to come again, and says so to the queue in the next
cycle. The load unit itself is not part of it: what it says is an input, and it
takes what is in its handshake whenever it does not stall.
-/

namespace DreamCore

open Ring

/-- The units behind register read. -/
inductive LsuUnit where
  | lu
  | sau
  | sdu
deriving DecidableEq

/-- One of the two units a store goes through. -/
def OpUnit.isStorePart : OpUnit → Bool
  | .sau | .sdu => true
  | _ => false

/-- The registers of `lsu_readreg`. -/
structure LsuReadreg where
  busy : Bool := false
  holdRevPack : List IntegerIssueOp := []

namespace LsuReadreg

/-- What register read looks at: what it has held back, or the port. -/
def revPack (s : LsuReadreg) (port : List IntegerIssueOp) : List IntegerIssueOp :=
  if s.busy then s.holdRevPack else port

/-- `//skip this instruction due to replay`: its value is the one the load unit takes back. -/
def replayed (lu : LuFeedback) (op : IntegerIssueOp) : Bool := lu.replay && op.lpv &&& 1 != 0

/-- The instruction goes no further. -/
def skips (inp : LsuIssueInput) (op : IntegerIssueOp) : Bool :=
  inp.squashes op.robId || replayed inp.lu op

/-- The pack for an instruction. It is enabled whether its sources have values or not, and for an
immediate in the second place the code looks at `arg1_src`. -/
def readPack (inp : LsuIssueInput) (info : OpInfo) : ReadregExecutePack :=
  let value (phyId : Nat) : Word := (readSource inp.sources phyId).1
  if info.valid && !info.hasException then
    { toOpInfo := info
      src1Value := operandValue info.rs1NeedMap info.arg1Src info.imm (value info.rs1Phy)
      src2Value := operandValue info.rs2NeedMap info.arg1Src info.imm (value info.rs2Phy) }
  else { toOpInfo := info }

/-- `//send pack`: the unit for an instruction. -/
def unitOf : OpUnit → Option LsuUnit
  | .lu => some .lu
  | .sau => some .sau
  | .sdu => some .sdu
  | _ => none

/-- One instruction that register read looks at. -/
def send (inp : LsuIssueInput) (new : Handshakes LsuUnit) (op : IntegerIssueOp) :
    Option (Handshakes LsuUnit) :=
  if op.enable && !skips inp op then do
    let unit ← unitOf op.opUnit
    new.push unit (readPack inp op.toOpInfo)
  else some new

/-- What is held back of one instruction during a stall. -/
def hold (inp : LsuIssueInput) (old op : IntegerIssueOp) : IntegerIssueOp :=
  if op.enable && skips inp op then { old with enable := false } else op

/-- `lsu_readreg::run`. Its feedback, `stall`, is the `busy` flag as it finds it. -/
def run (s : LsuReadreg) (inp : LsuIssueInput) (port : List IntegerIssueOp)
    (cur new : Handshakes LsuUnit) : Option (LsuReadreg × Handshakes LsuUnit) :=
  if inp.commitFlush then some ({}, fun _ => none)
  else
    let new := cur.dropSquashed new inp.squashes
    let rev (i : Nat) : IntegerIssueOp := (s.revPack port).getD i {}
    if inp.lu.stall then
      some (⟨true, (List.range lsuIssueWidth).map fun i =>
        hold inp (s.holdRevPack.getD i {}) (rev i)⟩, new)
    else do
      let hdff ← ((List.range lsuIssueWidth).map rev).foldlM (send inp) new
      return ({ s with busy := false }, hdff)

end LsuReadreg

/-- The stages, and the ports between them. -/
structure LsuPipe where
  issue : LsuIssue := {}
  /-- `lsu_issue_readreg_port`. -/
  port : List IntegerIssueOp := []
  readreg : LsuReadreg := {}
  hdff : Handshakes LsuUnit := fun _ => none
  /-- `sau_wb_port` and `sdu_wb_port`, which commit sees a cycle later. -/
  sau : ExecuteWbPack := {}
  sdu : ExecuteWbPack := {}

namespace LsuPipe

/-- `sau_wb_port` after `sau::run`. -/
def sauPort (s : LsuPipe) (inp : LsuIssueInput) : ExecuteWbPack :=
  match inp.commitFlush, s.hdff .sau with
  | false, some rev => if inp.bru.squashes rev.robId then {} else sauCompute rev
  | _, _ => {}

/-- `sdu_wb_port` after `sdu::run`. -/
def sduPort (s : LsuPipe) (inp : LsuIssueInput) : ExecuteWbPack :=
  match inp.commitFlush, s.hdff .sdu with
  | false, some rev => if inp.squashes rev.robId then {} else sduCompute rev
  | _, _ => {}

/-- The handshakes after the units have run. -/
def taken (s : LsuPipe) (inp : LsuIssueInput) : Handshakes LsuUnit := fun unit =>
  if inp.commitFlush || (unit = .lu && inp.lu.stall) then s.hdff unit else none

/-- What the queue sees of register read. -/
def sees (s : LsuPipe) (inp : LsuIssueInput) : LsuIssueInput :=
  { inp with readregStall := s.readreg.busy }

/-- The LSU stages in one cycle of `cycle_model::run`. -/
def cycle (s : LsuPipe) (inp : LsuIssueInput) : Option LsuPipe := do
  let (readreg, hdff) ← s.readreg.run inp s.port s.hdff (s.taken inp)
  let issue ← s.issue.cycle (s.sees inp)
  return {
    issue := issue
    port := (s.issue.runOutput (s.sees inp)).2.1
    readreg := readreg
    hdff := hdff
    sau := s.sauPort inp
    sdu := s.sduPort inp }

end LsuPipe

end DreamCore
