import DreamCore.Pipeline.IntegerPipe

/-!
# LSU issue

`lsu_issue` with its three functions. A load goes out on port 0 when it has both
sources; a store goes out in two parts, its address on port 1 and its data on
port 2, each as soon as it has its own source.

A load whose wait bit is set as it enters waits for a store: the youngest one the
queue then shows as not issued. It is released when the oldest such store is
younger than the one it waits for.

The bits `valid` and `issued` are registers, so that a cycle reads them as they
were when it began; the arrays next to them show at once what is written. In
`run_wakeup` and `run_input`, `cur` is what the cycle began with, and `new` what
has been written so far.
-/

namespace DreamCore

open Ring

/-- `INIT_LPV`. -/
def initLpv : Word := 4

def lsuLatency : Nat := 2

/-- One channel of `lsu_issue_output_feedback_pack_t`. -/
structure LsuWakeupChannel extends WakeupChannel where
  wakeupIssueId : Nat := 0

/-- An entry of the LSU issue queue and the arrays next to it. -/
structure LsuEntry where
  item : OpInfo := {}
  src1 : IssueSource := {}
  src2 : IssueSource := {}
  lpv : Word := 0
  curLpv : Word := 0
  robId : Ptr := ⟨0, false⟩
  wakeupRd : Nat := 0
  wakeupRdValid : Bool := false
  wakeupShift : Word := 0
  isStore : Bool := false
  sauPartIssued : Bool := false
  sduPartIssued : Bool := false
  waitingIssueIdReady : Bool := false
  waitingIssueId : Nat := 0
  waitingStore : Bool := false
  waitingStoreRobId : Ptr := ⟨0, false⟩

/-- The registers of `lsu_issue`. -/
structure LsuIssue where
  entry : Nat → LsuEntry := fun _ => {}
  valid : Nat → Bool := fun _ => false
  issued : Nat → Bool := fun _ => false
  busy : Bool := false
  holdRevPack : List OpInfo := []

/-- What one cycle sees of the rest of the core. -/
structure LsuIssueInput where
  bru : FlushFeedback := {}
  sau : FlushFeedback := {}
  lu : LuFeedback := {}
  commitFlush : Bool := false
  /-- `lsu_readreg_feedback_pack.stall`. -/
  readregStall : Bool := false
  /-- `integer_issue_output_feedback_pack`. -/
  integer : List WakeupChannel := []
  /-- `execute_feedback_pack.channel` and `wb_feedback_pack.channel`. -/
  execute : Nat → ExecuteFeedback := fun _ => {}
  wb : Nat → ExecuteFeedback := fun _ => {}
  phyRegfile : Regfile := fun _ => ⟨0, false, ⟨0, false⟩, true⟩
  /-- `wait_table->get_wait_bit`. -/
  waitBit : Word → Bool := fun _ => false
  /-- `dispatch_lsu_issue_port`. -/
  pack : List OpInfo := []

namespace LsuIssueInput

/-- The instruction is squashed by a flush of an execution unit. -/
def squashes (inp : LsuIssueInput) (robId : Ptr) : Bool :=
  inp.bru.squashes robId || inp.sau.squashesEqual robId

/-- Where a source is looked for as an instruction enters; `integer_issue` looks there too. -/
def sources (inp : LsuIssueInput) : IntegerPipeInput where
  execute := inp.execute
  wb := inp.wb
  phyRegfile := inp.phyRegfile

/-- The wait bit is set for this instruction, and it is a load. -/
def waits (inp : LsuIssueInput) (op : OpInfo) : Bool :=
  op.opUnit == .lu && inp.waitBit op.pc

end LsuIssueInput

namespace LsuEntry

/-- A source comes from the load that the second level decides about. -/
def atRisk (e : LsuEntry) : Bool := e.src1.atRisk || e.src2.atRisk

/-- The load-pipeline vector an entry is issued with. -/
def sentLpv (e : LsuEntry) : Word := (e.src1.lpv ||| e.src2.lpv) >>> 1

/-- The entry has been issued and must be issued again. -/
def replays (e : LsuEntry) (lu : LuFeedback) : Bool :=
  lu.replay && (e.atRisk || (e.curLpv &&& 1 != 0 && !lu.replayFollowingOnly))

/-- The entry has been issued and is no longer in the window of a load. -/
def certain (e : LsuEntry) (lu : LuFeedback) : Bool :=
  (e.src1.lpv == 0 && e.src2.lpv == 0 && e.curLpv == 0)
    || (e.src1.lpv ≤ 1 && e.src2.lpv ≤ 1 && e.curLpv ≤ 1 && !lu.stall)

/-- `cur_lpv` after `run_wakeup`. -/
def nextLpv (e : LsuEntry) (lu : LuFeedback) (issued : Bool) : Word :=
  if issued && (!lu.replay || !lu.replayFollowingOnly || e.curLpv &&& 1 == 0) && !lu.stall then
    e.curLpv >>> 1
  else e.curLpv

/-- `//waiting_store wakeup`: `store` is the oldest store that has not issued. -/
def released (e : LsuEntry) : Option Ptr → Bool
  | none => true
  | some store => store.younger e.waitingStoreRobId

end LsuEntry

namespace LsuIssue

/-- Slot `j` is older than slot `k`. -/
def older (s : LsuIssue) (j k : Nat) : Bool := (s.entry k).robId.younger (s.entry j).robId

/-- A store that the registers show as not issued: the test of both searches for a store. -/
def unissuedStore (cur new : LsuIssue) (j : Nat) : Bool :=
  cur.valid j && !cur.issued j && (new.entry j).isStore

/-! ## `run_output` -/

/-- The tests of the selection loop that all ports share. -/
def awake (s : LsuIssue) (inp : LsuIssueInput) (j : Nat) : Bool :=
  s.valid j && (s.entry j).waitingIssueIdReady && !inp.squashes (s.entry j).robId
    && !(inp.lu.replay && (s.entry j).atRisk) && !s.issued j && !(s.entry j).waitingStore

/-- Slot `j` is a candidate of a port: a load, the address part of a store, or its data part. -/
def candidate (s : LsuIssue) (inp : LsuIssueInput) : Nat → Nat → Bool
  | 0, j => s.awake inp j && !(s.entry j).isStore && (s.entry j).src1.ready
      && (s.entry j).src2.ready
  | 1, j => s.awake inp j && (s.entry j).isStore && (s.entry j).src1.ready
      && !(s.entry j).sauPartIssued
  | _, j => s.awake inp j && (s.entry j).isStore && (s.entry j).src2.ready
      && !(s.entry j).sduPartIssued

/-- `//select instructions`: `selected_valid[i]` and `selected_issue_id[i]`. -/
def selected (s : LsuIssue) (inp : LsuIssueInput) (i : Nat) : Option Nat :=
  Pick.pick s.older (s.candidate inp i) (List.range lsuIssueQueueSize)

/-- `last_uop` of slot `j` on port `i`: with it, the instruction has issued. -/
def lastUop (s : LsuIssue) (inp : LsuIssueInput) : Nat → Nat → Bool
  | 0, j => (s.entry j).item.lastUop
  | 1, j => (s.entry j).sduPartIssued
  | _, j => (s.entry j).sauPartIssued || s.selected inp 1 == some j

/-- The operation of an address part. -/
def addressOp : SubOp → SubOp
  | .sdu .sb => .sau .stab
  | .sdu .sh => .sau .stah
  | .sdu .sw => .sau .staw
  | op => op

/-- `//build send_pack`, for one port. -/
def sent (s : LsuIssue) (inp : LsuIssueInput) (i : Nat) : IntegerIssueOp :=
  match s.selected inp i with
  | some j =>
      let op := { (s.entry j).item with lastUop := s.lastUop inp i j }
      let op := if i = 1 then { op with opUnit := .sau, subOp := addressOp op.subOp } else op
      { toOpInfo := op, lpv := (s.entry j).sentLpv }
  | none => {}

/-- `//build feedback_pack`, for one port. An idle port shows slot 0. -/
def feedback (s : LsuIssue) (inp : LsuIssueInput) (i : Nat) : LsuWakeupChannel :=
  let j := (s.selected inp i).getD 0
  let e := s.entry j
  { wakeupValid := (s.selected inp i).isSome && e.wakeupRdValid && s.lastUop inp i j
    wakeupIssueId := j
    wakeupRd := e.wakeupRd
    wakeupShift := e.wakeupShift
    wakeupLpv := e.sentLpv ||| e.lpv
    wakeupRobId := e.robId }

/-- `issue_q.pop`, `cur_lpv` and `issued.set` for the selection of one port. -/
def issue (s : LsuIssue) (inp : LsuIssueInput) (new : LsuIssue) (i : Nat) : LsuIssue :=
  match s.selected inp i with
  | some j =>
      { new with
        entry := Function.update new.entry j { new.entry j with curLpv := (s.entry j).lpv }
        valid :=
          if s.lastUop inp i j && (s.entry j).sentLpv == 0 && (s.entry j).lpv == 0 then
            Function.update new.valid j false
          else new.valid
        issued := Function.update new.issued j (s.lastUop inp i j) }
  | none => new

/-- `//set sau_part_issued and sdu_part_issued`. -/
def markParts (s : LsuIssue) (inp : LsuIssueInput) (new : LsuIssue) : LsuIssue :=
  { new with
    entry := fun j =>
      { new.entry j with
        sauPartIssued := (new.entry j).sauPartIssued || s.selected inp 1 == some j
        sduPartIssued := (new.entry j).sduPartIssued || s.selected inp 2 == some j } }

/-- `run_output`: the registers, the pack for register read and the feedback. -/
def runOutput (s : LsuIssue) (inp : LsuIssueInput) :
    LsuIssue × List IntegerIssueOp × List LsuWakeupChannel :=
  if inp.commitFlush || inp.readregStall || inp.lu.stall then
    (s, List.replicate lsuIssueWidth {}, List.replicate lsuIssueWidth {})
  else
    (s.markParts inp ((List.range lsuIssueWidth).foldl (s.issue inp) s),
      (List.range lsuIssueWidth).map (s.sent inp), (List.range lsuIssueWidth).map (s.feedback inp))

/-! ## `run_wakeup` -/

/-- `//find oldest store instruction`. -/
def oldestStore (cur new : LsuIssue) : Option Ptr :=
  (Pick.pick
    (fun j k => (new.entry k).item.robId.younger (new.entry j).item.robId)
    (unissuedStore cur new) (List.range lsuIssueQueueSize)).map
      fun j => (new.entry j).item.robId

/-- One entry in `run_wakeup`. -/
def wakeEntry (inp : LsuIssueInput) (lsu : List LsuWakeupChannel) (store : Option Ptr)
    (issued : Bool) (e : LsuEntry) : Option LsuEntry := do
  let channels := lsu.map LsuWakeupChannel.toWakeupChannel
  let execute := (List.range executeUnitNum).map fun j => (inp.execute j).toExecuteFeedbackChannel
  let src1 ← ((e.src1.cancel inp.lu).shift inp.lu).awaken e.item.arg1Src e.item.rs1NeedMap
    e.item.rs1Phy inp.integer channels execute
  let src2 ← ((e.src2.cancel inp.lu).shift inp.lu).awaken e.item.arg2Src e.item.rs2NeedMap
    e.item.rs2Phy inp.integer channels execute
  -- an issued part whose source was wrong has to be issued again
  let undone := inp.lu.replay && e.isStore && e.atRisk
  return { e with
    src1 := src1
    src2 := src2
    curLpv := e.nextLpv inp.lu issued
    sauPartIssued := e.sauPartIssued && !undone
    sduPartIssued := e.sduPartIssued && !undone
    waitingIssueIdReady := e.waitingIssueIdReady
      || lsu.any fun c => c.wakeupValid && c.wakeupIssueId == e.waitingIssueId
    waitingStore := e.waitingStore && !e.released store }

/-- `run_wakeup`, for slot `j`. -/
def wakeSlot (cur : LsuIssue) (inp : LsuIssueInput) (lsu : List LsuWakeupChannel)
    (store : Option Ptr) (new : LsuIssue) (j : Nat) : Option LsuIssue :=
  if !cur.valid j then some new
  else if inp.squashes (new.entry j).item.robId then
    some { new with valid := Function.update new.valid j false }
  else do
    let e ← wakeEntry inp lsu store (cur.issued j) (new.entry j)
    let replays := cur.issued j && (new.entry j).replays inp.lu
    let leaves := cur.issued j && !replays && (new.entry j).certain inp.lu
    return { new with
      entry := Function.update new.entry j e
      issued := if replays then Function.update new.issued j false else new.issued
      valid := if leaves then Function.update new.valid j false else new.valid }

/-- `run_wakeup`. -/
def runWakeup (cur new : LsuIssue) (inp : LsuIssueInput) (lsu : List LsuWakeupChannel) :
    Option LsuIssue :=
  if inp.commitFlush then some new
  else (List.range lsuIssueQueueSize).foldlM (cur.wakeSlot inp lsu (oldestStore cur new)) new

/-! ## `run_input` -/

/-- `producer_get_new_id`. -/
def newId (new : LsuIssue) : Option Nat :=
  (List.range lsuIssueQueueSize).find? fun i => !new.valid i

/-- `//find youngest store instruction`. -/
def youngestStore (cur new : LsuIssue) : Option Ptr :=
  (Pick.pick (fun j k => new.older k j) (unissuedStore cur new)
    (List.range lsuIssueQueueSize)).map fun j => (new.entry j).robId

/-- What `run_input` writes for an instruction it pushes, but for what the load waits for. -/
def entryOf (inp : LsuIssueInput) (op : OpInfo) : LsuEntry where
  item := op
  src1 := IntegerStage.firstSource inp.sources op op.rs1NeedMap op.rs1Phy
  src2 :=
    if op.valid && !op.hasException then
      IntegerStage.firstSource inp.sources op op.rs2NeedMap op.rs2Phy
    else {}
  lpv := if op.opUnit = .lu then initLpv else 0
  curLpv := if op.opUnit = .lu then initLpv else 0
  robId := op.robId
  wakeupRd := op.rdPhy
  wakeupRdValid := op.valid && !op.hasException && op.needRename
  wakeupShift := latencyToWakeupShift lsuLatency
  isStore := op.opUnit == .sdu
  waitingIssueIdReady := true

/-- `src2_ready[i] = true`, where `i` is the place in the pack and not the slot. -/
def markSrc2 (new : LsuIssue) (op : OpInfo) (i : Nat) : LsuIssue :=
  if op.valid && !op.hasException then new
  else
    { new with
      entry := Function.update new.entry i
        { new.entry i with src2 := { (new.entry i).src2 with ready := true } } }

/-- `push` into slot `id`, and the arrays next to it; `i` is the place in the pack. -/
def write (inp : LsuIssueInput) (i id : Nat) (op : OpInfo) (new : LsuIssue) : LsuIssue :=
  markSrc2
    { new with
      entry := Function.update new.entry id (entryOf inp op)
      valid := Function.update new.valid id true
      issued := Function.update new.issued id false } op i

/-- The store that a load whose wait bit is set waits for. -/
def awaitStore (cur : LsuIssue) (inp : LsuIssueInput) (id : Nat) (op : OpInfo) (new : LsuIssue) :
    LsuIssue :=
  let store := youngestStore cur new
  { new with
    entry := Function.update new.entry id
      { new.entry id with
        waitingStore := inp.waits op && store.isSome
        waitingStoreRobId := store.getD ⟨0, false⟩ } }

/-- An instruction enters. -/
def enter (cur : LsuIssue) (inp : LsuIssueInput) (i id : Nat) (op : OpInfo) (new : LsuIssue) :
    LsuIssue :=
  cur.awaitStore inp id op (write inp i id op new)

/-- The loop that pushes a pack into the queue, from place `i` on. -/
def pushPack (cur : LsuIssue) (inp : LsuIssueInput) : Nat → List OpInfo → LsuIssue → LsuIssue
  | _, [], new => new
  | i, op :: ops, new =>
      if !op.enable then pushPack cur inp (i + 1) ops new
      else match new.newId with
        | some id => pushPack cur inp (i + 1) ops (enter cur inp i id op new)
        | none => { new with busy := true, holdRevPack := op :: ops }

/-- The pack that `run_input` pushes. -/
def revPack (s : LsuIssue) (inp : LsuIssueInput) : List OpInfo :=
  squashPack inp.sau.squashesEqual
    (squashPack inp.bru.squashes (if s.busy then s.holdRevPack else inp.pack))

/-- `run_input`. -/
def runInput (cur new : LsuIssue) (inp : LsuIssueInput) : LsuIssue :=
  if inp.commitFlush then { new with valid := fun _ => false, busy := false, holdRevPack := [] }
  else pushPack cur inp 0 (new.revPack inp) { new with busy := false, holdRevPack := [] }

/-! ## A cycle -/

/-- The first two functions in one cycle. -/
def woken (s : LsuIssue) (inp : LsuIssueInput) : Option LsuIssue :=
  s.runWakeup (s.runOutput inp).1 inp (s.runOutput inp).2.2

/-- `lsu_issue` in one cycle of `cycle_model::run`. -/
def cycle (s : LsuIssue) (inp : LsuIssueInput) : Option LsuIssue :=
  (s.woken inp).map fun new => s.runInput new inp

end LsuIssue

end DreamCore
