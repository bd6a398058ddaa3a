import DreamCore.Component.Bus
import DreamCore.Isa.Lockstep
import DreamCore.Machine.Continuity
import DreamCore.Memory.Loads
import DreamCore.Pipeline.LsuReadreg

/-!
# One instruction, alone

How a single instruction ends: in the ISA model, which runs it in one go, and in an
otherwise empty pipeline, where it is fetched alone in its group and goes through
every stage up to commit.

What does not depend on the instruction is left open: the predictors, where rename
puts the registers, how long the memory takes, and whether the two parts of a store
come to commit together.
-/

namespace DreamCore

open Ring

/-! ## Endings -/

/-- The registers an exception leaves behind. -/
structure Trap where
  mcause : Word
  mepc : Word
  mtval : Word
deriving DecidableEq

/-- The trap registers of a CSR file. -/
def CsrFile.trap (csr : CsrFile) : Trap where
  mcause := csr.readSys csrMcause
  mepc := csr.readSys csrMepc
  mtval := csr.readSys csrMtval

/-- How an instruction ends. -/
inductive Ending where
  /-- A `verify` fails. -/
  | aborts
  /-- It has neither retired nor trapped so far. -/
  | running
  | retires
  | traps (trap : Trap)
deriving DecidableEq

/-- **Neither aborts, and either both raise nothing or both raise the same.** -/
def Ending.Same (e e' : Ending) : Prop := e = e' ∧ e ≠ .aborts ∧ e ≠ .running

namespace Isa

/-- How an instruction ends that `isa_model::execute` has run as far as its end. -/
def endingOf : Option (State × Model) → Ending
  | none => .aborts
  | some (s, m) => if s.hasException then .traps (finish s m).csr.regs.trap else .retires

/-- **How the instruction at the program counter ends** in the ISA model. -/
def Model.ending (m : Model) : Ending :=
  endingOf do
    let (s, m) ← fetch m
    executeUnit (readOperands (decode s) m.archRegfile) m

end Isa

/-! ## The way through the pipeline -/

/-- The order in which the two parts of a store come to commit. -/
inductive Arrival where
  | together
  | addressFirst
  | dataFirst
deriving DecidableEq

/-- **What is open** about the way of one instruction, where the registers are those of `m`. -/
structure Passage (m : Isa.Model) where
  predictors : BranchPredictorSet := .reset
  instId : Nat := 0
  /-- The components as rename finds them, and as they are with the destination mapped. -/
  before : Core
  mapped : Core
  /-- What `speculative_rat` says. -/
  map : Nat → Nat
  oldPhyRegId : Nat
  rdPhy : Nat
  phyRegfile : Regfile
  /-- The registers are where `map` has them. -/
  holds : ∀ a, IsReg a → (phyRegfile (map a)).data = m.archRegfile.read a
    ∧ (phyRegfile (map a)).dataValid = true
  checkpoint : Option Nat
  arrival : Arrival
  /-- The latency of the memory. -/
  latency : Nat

namespace Passage

variable {m : Isa.Model} (p : Passage m)

/-- Both levels of fetch, for a word that is alone in its group. -/
def fetch (word : Word) : Option (List FetchOpInfo) :=
  (fetchLoop p.predictors true m.pc 0 [word]
    { fetch1 := ⟨m.pc, false, p.instId⟩, predictors := p.predictors }).map fun st =>
    (level2 (st.predictors.sync (historyUpdates st.sendPack)).biMode 0 st.sendPack).pack

/-- What rename sends on, with a checkpoint or without. -/
def info (dec : DecodeRenamePack) : OpInfo :=
  let phy (needMap : Bool) (rs : Nat) : Nat := if needMap then p.map rs else 0
  let info := renameInfo p.before dec (phy dec.rs1NeedMap dec.rs1) (phy dec.rs2NeedMap dec.rs2)
    p.rdPhy
  match p.checkpoint with
  | some id =>
      { info with branchPredictorInfoPack := { info.branchPredictorInfoPack with
          checkpointIdValid := true, checkpointId := id } }
  | none => info

/-- The entry rename writes. -/
def item (dec : DecodeRenamePack) : RobItem :=
  renameRobItem p.before p.mapped dec p.oldPhyRegId p.rdPhy

/-- What an integer unit makes of the instruction. -/
def integer (info : OpInfo) : Option ExecuteWbPack :=
  integerExecute m.csr (readPack { phyRegfile := p.phyRegfile } info.toIssue)

/-- The pack register read sends to a unit of the LSU. -/
def lsuPack (op : OpInfo) : ReadregExecutePack :=
  LsuReadreg.readPack { phyRegfile := p.phyRegfile } op

/-- The load unit with its buses, `k` cycles after the cycle in which it has taken the load. -/
def loads (rev : ReadregExecutePack) (k : Nat) : LoadSystem :=
  (List.replicate k { clint := m.clint }).foldl LoadSystem.act
    ((LoadSystem.init m.mem p.latency).act { lu := { rev := some rev }, clint := m.clint })

/-- What the load unit sends on in the cycle after that. -/
def loadSend (rev : ReadregExecutePack) (k : Nat) : ExecuteWbPack :=
  luSend (p.loads rev k).lu {} (p.loads rev k).shown

/-- What it sends on within `n` cycles. -/
def loaded (rev : ReadregExecutePack) (n : Nat) : Option ExecuteWbPack :=
  ((List.range n).map (p.loadSend rev)).find? (·.enable)

/-- The address part of a store. -/
def address (info : OpInfo) (last : Bool) : ReadregExecutePack :=
  p.lsuPack { info.toIssue with
    lastUop := last
    opUnit := .sau
    subOp := LsuIssue.addressOp info.toIssue.subOp }

/-- The data part of a store. -/
def data (info : OpInfo) (last : Bool) : ReadregExecutePack :=
  p.lsuPack { info.toIssue with lastUop := last }

/-- What the two parts report, cycle by cycle: the part that is issued last is marked so, and the
port of the address comes before the one of the data. -/
def parts (info : OpInfo) : List (List ExecuteWbPack) :=
  match p.arrival with
  | .together => [[sauCompute (p.address info false), sduCompute (p.data info true)]]
  | .addressFirst => [[sauCompute (p.address info false)], [sduCompute (p.data info true)]]
  | .dataFirst => [[sduCompute (p.data info false)], [sauCompute (p.address info true)]]

/-- The entry after the input part of commit has seen the ports, cycle by cycle. -/
def reported (dec : DecodeRenamePack) (cycles : List (List ExecuteWbPack)) : RobItem :=
  let id := (p.info dec).robId.id
  let start := { p.before with rob := p.before.rob.setItem id (p.item dec) }
  (cycles.foldl (fun core ports => ports.foldl (commitInput core) core) start).rob.buffer id

end Passage

/-- What the exception block of commit leaves in the trap registers. -/
def RobItem.trap (csr : CsrFile) (item : RobItem) (id : RiscvException) (value : Word) : Trap :=
  (((csr.writeSys csrMepc item.pc).writeSys csrMtval value).writeSys csrMcause id.toWord).trap

/-- The store handle: a cacheable store goes into the retired store buffer, any other is written
now, and the entry waits for the answer. -/
def storeEnding (m : Isa.Model) (item : RobItem) (addr : Word) (size : Nat) (value : Word) :
    Ending :=
  if isCacheable addr then .retires
  else
    match (noncacheableWrite m.clint ({} : DataBus Word) addr size value).2.dataWriteAck with
    | none => .running
    | some .none => .retires
    | some .error => .traps (item.trap m.csr.regs .storeAmoAccessFault addr)

/-- What the output part of commit makes of the entry; `finished` is what it does with one that
has raised nothing. A prediction that agrees on the direction of a branch and not on its target
fails a `verify_only`. -/
def RobItem.ending (csr : CsrFile) (item : RobItem) (finished : Ending) : Ending :=
  if !item.finish then .running
  else if item.hasException then .traps (item.trap csr item.exceptionId item.exceptionValue)
  else if item.bruOp && item.branchPredictorInfoPack.predicted
      && item.branchPredictorInfoPack.conditionJump
      && item.bruJump == item.branchPredictorInfoPack.jump
      && item.bruNextPc != item.branchPredictorInfoPack.nextPc then .aborts
  else finished

/-- A group has a first word. -/
theorem fetchWidth_pos : 0 < fetchWidth := by decide

namespace Passage

variable {m : Isa.Model} (p : Passage m)

/-- From rename to commit, within `n` cycles of the load unit. -/
def execute (dec : DecodeRenamePack) (n : Nat) : Ending :=
  let info := p.info dec
  match dec.opUnit with
  | .lu =>
      match p.loaded (p.lsuPack info.toIssue) n with
      | some send => (p.reported dec [[send]]).ending m.csr.regs .retires
      | none => .running
  | .sdu =>
      let item := p.reported dec (p.parts info)
      item.ending m.csr.regs (storeEnding m item (p.address info false).effectiveAddr
        (sauSize (p.address info false)) (sduData (p.data info false)))
  | _ =>
      match p.integer info with
      | some send => (p.reported dec [[send]]).ending m.csr.regs .retires
      | none => .aborts

/-- **How the instruction at the program counter ends** when it goes through the pipeline alone. -/
def ending (n : Nat) : Ending :=
  match busReadInstruction m.mem m.pc with
  | none => .running
  | some words =>
      match p.fetch (words ⟨0, fetchWidth_pos⟩) with
      | none => .aborts
      | some [] => .running
      | some (q :: _) => p.execute q.decoded n

/-- **Both models agree on the exception**: the pipeline gets to an end, and it is that of the ISA
model. -/
def EndsAlike : Prop := ∃ n, ∀ n' ≥ n, (p.ending n').Same m.ending

end Passage

end DreamCore
