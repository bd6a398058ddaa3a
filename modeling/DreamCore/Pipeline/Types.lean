import DreamCore.Config
import DreamCore.Lib.Ring

/-!
# What travels down the pipeline

The packs of the pipeline headers. In the source every stage has its own struct
and copies its predecessor's fields one by one; here a later pack extends the
earlier one, so that a copied field is the same field. A stage that does *not*
copy a field resets it explicitly.

Fields that only feed the debugger, the trace files or the comparison with the
ISA model are left out.
-/

namespace DreamCore

open Ring

/-- `op_unit_t`. -/
inductive OpUnit where
  | alu | bru | csr | div | mul | lu | sau | sdu
deriving DecidableEq, Repr, Inhabited

/-- The units that dispatch sends to the LSU issue queue. -/
def OpUnit.isLsu : OpUnit → Bool
  | .lu | .sau | .sdu => true
  | _ => false

/-- `arg_src_t`. -/
inductive ArgSrc where
  | reg | imm | disable
deriving DecidableEq, Repr, Inhabited

/-- `op_t`. -/
inductive Op where
  | add | addi | and | andi | auipc | csrrc | csrrci | csrrs | csrrsi | csrrw | csrrwi
  | ebreak | ecall | fence | fenceI | lui | or | ori | sll | slli | slt | slti | sltiu | sltu
  | sra | srai | srl | srli | sub | xor | xori | beq | bge | bgeu | blt | bltu | bne | jal
  | jalr | div | divu | rem | remu | lb | lbu | lh | lhu | lw | sb | sh | sw | mul | mulh
  | mulhsu | mulhu | mret
deriving DecidableEq, Repr, Inhabited

/-- `alu_op_t`. -/
inductive AluOp where
  | add | and | auipc | ebreak | ecall | fence | fenceI | lui | or | sll | slt | sltu | sra
  | srl | sub | xor
deriving DecidableEq, Repr, Inhabited

/-- `bru_op_t`. -/
inductive BruOp where
  | beq | bge | bgeu | blt | bltu | bne | jal | jalr | mret
deriving DecidableEq, Repr, Inhabited

/-- `csr_op_t`. -/
inductive CsrOp where
  | csrrc | csrrs | csrrw
deriving DecidableEq, Repr, Inhabited

/-- `div_op_t`. -/
inductive DivOp where
  | div | divu | rem | remu
deriving DecidableEq, Repr, Inhabited

/-- `mul_op_t`. -/
inductive MulOp where
  | mul | mulh | mulhsu | mulhu
deriving DecidableEq, Repr, Inhabited

/-- `lu_op_t`. -/
inductive LuOp where
  | lb | lbu | lh | lhu | lw
deriving DecidableEq, Repr, Inhabited

/-- `sau_op_t`. -/
inductive SauOp where
  | stab | stah | staw
deriving DecidableEq, Repr, Inhabited

/-- `sdu_op_t`. -/
inductive SduOp where
  | sb | sh | sw
deriving DecidableEq, Repr, Inhabited

/-- The `sub_op` union, tagged. -/
inductive SubOp where
  | alu (op : AluOp)
  | bru (op : BruOp)
  | csr (op : CsrOp)
  | div (op : DivOp)
  | mul (op : MulOp)
  | lu (op : LuOp)
  | sau (op : SauOp)
  | sdu (op : SduOp)
deriving DecidableEq, Repr, Inhabited

/-- `branch_predictor_info_pack_t`. -/
structure BranchPredictorInfoPack where
  biModeGlobalHistory : Word := 0
  predicted : Bool := false
  jump : Bool := false
  nextPc : Word := 0
  unconditionIndirectJump : Bool := false
  conditionJump : Bool := false
  checkpointIdValid : Bool := false
  checkpointId : Nat := 0
deriving DecidableEq, Inhabited

/-- `fetch2_decode_pack_t`. -/
structure Fetch2DecodePack where
  enable : Bool := false
  pc : Word := 0
  value : Word := 0
  hasException : Bool := false
  exceptionId : RiscvException := .instructionAddressMisaligned
  exceptionValue : Word := 0
  branchPredictorInfoPack : BranchPredictorInfoPack := {}
deriving DecidableEq

/-- `decode_rename_pack_t`. -/
structure DecodeRenamePack where
  enable : Bool := false
  value : Word := 0
  valid : Bool := false
  lastUop : Bool := false
  pc : Word := 0
  imm : Word := 0
  hasException : Bool := false
  exceptionId : RiscvException := .instructionAddressMisaligned
  exceptionValue : Word := 0
  branchPredictorInfoPack : BranchPredictorInfoPack := {}
  rs1 : Nat := 0
  arg1Src : ArgSrc := .reg
  rs1NeedMap : Bool := false
  rs2 : Nat := 0
  arg2Src : ArgSrc := .reg
  rs2NeedMap : Bool := false
  rd : Nat := 0
  rdEnable : Bool := false
  needRename : Bool := false
  csr : Nat := 0
  op : Op := .add
  opUnit : OpUnit := .alu
  subOp : SubOp := .alu .add

/-- `rename_dispatch_op_info_t`, and `dispatch_issue_op_info_t`, which has the same fields. -/
structure OpInfo extends DecodeRenamePack where
  rs1Phy : Nat := 0
  rs2Phy : Nat := 0
  rdPhy : Nat := 0
  robId : Ptr := ⟨0, false⟩
  loadQueueId : Nat := 0
  storeBufferId : Nat := 0

/-- `integer_readreg_execute_pack_t` and `lsu_readreg_execute_pack_t`. -/
structure ReadregExecutePack extends OpInfo where
  src1Value : Word := 0
  src2Value : Word := 0

/-- `execute_wb_pack_t`, and `execute_commit_pack_t`, its copy a port further. -/
structure ExecuteWbPack extends ReadregExecutePack where
  rdValue : Word := 0
  bruJump : Bool := false
  bruNextPc : Word := 0
  csrNewvalue : Word := 0
  csrNewvalueValid : Bool := false

/-- `bru_feedback_pack_t` and `sau_feedback_pack_t`. -/
structure FlushFeedback where
  flush : Bool := false
  nextPc : Word := 0
  robId : Ptr := ⟨0, false⟩
deriving DecidableEq

/-- The flush of the branch unit squashes what is younger than the branch. -/
def FlushFeedback.squashes (fb : FlushFeedback) (robId : Ptr) : Bool :=
  fb.flush && robId.younger fb.robId

/-- The flush of the store address unit squashes the conflicting load as well. -/
def FlushFeedback.squashesEqual (fb : FlushFeedback) (robId : Ptr) : Bool :=
  fb.flush && (robId.younger fb.robId || robId == fb.robId)

/-- `lu_feedback_pack_t`. -/
structure LuFeedback where
  replay : Bool := false
  replayFollowingOnly : Bool := false
  stall : Bool := false
  robId : Ptr := ⟨0, false⟩

/-- `checkpoint_t`. -/
structure Checkpoint where
  phyMapTableValid : Nat → Bool
  oldPhyIdFreeListRptr : Ptr := ⟨0, false⟩
  newPhyIdFreeListRptr : Ptr := ⟨0, false⟩
  oldCheckpointBufferWptr : Ptr := ⟨0, false⟩
  newCheckpointBufferWptr : Ptr := ⟨0, false⟩
  oldLoadQueueWptr : Ptr := ⟨0, false⟩
  oldStoreBufferWptr : Ptr := ⟨0, false⟩

/-- `rob_item_t`. -/
structure RobItem where
  newPhyRegId : Nat := 0
  oldPhyRegId : Nat := 0
  oldPhyRegIdValid : Bool := false
  finish : Bool := false
  pc : Word := 0
  lastUop : Bool := false
  rd : Nat := 0
  hasException : Bool := false
  exceptionId : RiscvException := .instructionAddressMisaligned
  exceptionValue : Word := 0
  bruOp : Bool := false
  bruJump : Bool := false
  bruNextPc : Word := 0
  isMret : Bool := false
  csrAddr : Nat := 0
  csrNewvalue : Word := 0
  csrNewvalueValid : Bool := false
  oldPhyIdFreeListRptr : Ptr := ⟨0, false⟩
  newPhyIdFreeListRptr : Ptr := ⟨0, false⟩
  branchPredictorInfoPack : BranchPredictorInfoPack := {}
  loadQueueIdValid : Bool := false
  loadQueueId : Nat := 0
  storeBufferIdValid : Bool := false
  storeBufferId : Nat := 0
deriving DecidableEq

/-- `commit_feedback_pack_t`. The per-slot arrays hold a value where the source's valid bit
is set. -/
structure CommitFeedback where
  idle : Bool := true
  nextHandleRobId : Option Nat := none
  hasException : Bool := false
  exceptionPc : Word := 0
  flush : Bool := false
  committedRobId : Nat → Option Nat := fun _ => none
  jumpEnable : Bool := false
  jump : Bool := false
  jumpNextPc : Word := 0
  waitingForInterrupt : Bool := false

end DreamCore
