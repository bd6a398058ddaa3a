import DreamCore.Component.CsrFile
import DreamCore.Pipeline.Bru

/-!
# Register read and the integer units

The operand selection of `integer_readreg.cpp`, and `alu::run`, `csr::run`,
`div::run` and `mul::run`. Each unit copies the pack it receives and adds its
result; how long it takes to do so is not modelled here.
-/

namespace DreamCore

/-! ## Register read -/

/-- The operand of an instruction. `regValue` is what the renamed register holds, from wherever
register read finds it: the register file or one of the feedback channels. -/
def operandValue (needMap : Bool) (argSrc : ArgSrc) (imm regValue : Word) : Word :=
  if needMap then regValue else if argSrc = .imm then imm else 0

/-- The pack register read sends to a unit. -/
def readreg (info : OpInfo) (rs1Value rs2Value : Word) : ReadregExecutePack :=
  if info.valid && !info.hasException then
    { toOpInfo := info
      src1Value := operandValue info.rs1NeedMap info.arg1Src info.imm rs1Value
      src2Value := operandValue info.rs2NeedMap info.arg2Src info.imm rs2Value }
  else { toOpInfo := info }

/-! ## The units -/

/-- The exception a unit raises. -/
def ExecuteWbPack.raise (send : ExecuteWbPack) (id : RiscvException) (value : Word) :
    ExecuteWbPack :=
  { send with hasException := true, exceptionId := id, exceptionValue := value }

/-- The switch of `alu::run`. -/
def aluOutcome (rev : ReadregExecutePack) (op : AluOp) (send : ExecuteWbPack) : ExecuteWbPack :=
  match op with
  | .add => { send with rdValue := rev.src1Value + rev.src2Value }
  | .and => { send with rdValue := rev.src1Value &&& rev.src2Value }
  | .auipc => { send with rdValue := rev.imm + rev.pc }
  | .ebreak => { send with rdValue := 0 }.raise .breakpoint 0
  | .ecall => { send with rdValue := 0 }.raise .environmentCallFromMMode 0
  | .fence => { send with rdValue := 0 }
  | .fenceI => { send with rdValue := 0 }
  | .lui => { send with rdValue := rev.imm }
  | .or => { send with rdValue := rev.src1Value ||| rev.src2Value }
  | .sll => { send with rdValue := rev.src1Value <<< (rev.src2Value &&& 0x1f) }
  | .slt => { send with rdValue := if signedLt rev.src1Value rev.src2Value then 1 else 0 }
  | .sltu => { send with rdValue := if rev.src1Value < rev.src2Value then 1 else 0 }
  | .sra => { send with rdValue := rev.src1Value.sshiftRight' (rev.src2Value &&& 0x1f) }
  | .srl => { send with rdValue := rev.src1Value >>> (rev.src2Value &&& 0x1f) }
  | .sub => { send with rdValue := rev.src1Value - rev.src2Value }
  | .xor => { send with rdValue := rev.src1Value ^^^ rev.src2Value }

/-- What `alu::run` sends to write-back and commit. -/
def aluCompute (rev : ReadregExecutePack) : ExecuteWbPack :=
  let send := ExecuteWbPack.copy rev
  if rev.enable && !rev.hasException then
    match rev.valid, rev.subOp with
    | true, .alu op => aluOutcome rev op send
    | true, _ => send
    | false, _ => send.raise .illegalInstruction 0
  else send

/-- The switch of `div::run`. -/
def divOutcome (rev : ReadregExecutePack) (op : DivOp) (send : ExecuteWbPack) : ExecuteWbPack :=
  let overflow := rev.src1Value == 0x80000000 && rev.src2Value == 0xFFFFFFFF
  match op with
  | .div =>
      { send with rdValue :=
          if rev.src2Value = 0 then 0xFFFFFFFF
          else if overflow then 0x80000000
          else rev.src1Value.sdiv rev.src2Value }
  | .divu =>
      { send with rdValue :=
          if rev.src2Value = 0 then 0xFFFFFFFF else rev.src1Value.udiv rev.src2Value }
  | .rem =>
      { send with rdValue :=
          if rev.src2Value = 0 then rev.src1Value
          else if overflow then 0
          else rev.src1Value.srem rev.src2Value }
  | .remu =>
      { send with rdValue :=
          if rev.src2Value = 0 then rev.src1Value else rev.src1Value.umod rev.src2Value }

/-- What `div::run` sends, once its latency has passed. -/
def divCompute (rev : ReadregExecutePack) : ExecuteWbPack :=
  let send := ExecuteWbPack.copy rev
  match rev.enable, rev.subOp with
  | true, .div op => divOutcome rev op send
  | _, _ => send

/-- The high word of a 64-bit product. -/
def highWord (product : BitVec 64) : Word := ((product >>> 32) &&& 0xffffffff).setWidth 32

/-- The switch of `mul::run`. -/
def mulOutcome (rev : ReadregExecutePack) (op : MulOp) (send : ExecuteWbPack) : ExecuteWbPack :=
  let signed (v : Word) : BitVec 64 := v.signExtend 64
  let unsigned (v : Word) : BitVec 64 := v.setWidth 64
  match op with
  | .mul =>
      { send with rdValue :=
          ((signed rev.src1Value * signed rev.src2Value) &&& 0xffffffff).setWidth 32 }
  | .mulh => { send with rdValue := highWord (signed rev.src1Value * signed rev.src2Value) }
  | .mulhsu => { send with rdValue := highWord (signed rev.src1Value * unsigned rev.src2Value) }
  | .mulhu => { send with rdValue := highWord (unsigned rev.src1Value * unsigned rev.src2Value) }

/-- What `mul::run` sends to write-back and commit. -/
def mulCompute (rev : ReadregExecutePack) : ExecuteWbPack :=
  let send := ExecuteWbPack.copy rev
  match rev.enable, rev.subOp with
  | true, .mul op => mulOutcome rev op send
  | _, _ => send

/-- The switch of `csr::run`: the value a CSR instruction writes. -/
def csrOutcome (op : CsrOp) (csrValue src1Value : Word) : Word :=
  match op with
  | .csrrc => csrValue &&& ~~~src1Value
  | .csrrs => csrValue ||| src1Value
  | .csrrw => src1Value

/-- What `csr::run` makes of an enabled pack whose operation is `op`. The new value goes to
commit, which writes it when the instruction retires. -/
def csrExecute (csr : CsrBank) (rev : ReadregExecutePack) (op : CsrOp) (send : ExecuteWbPack) :
    ExecuteWbPack :=
  let (readRet, csrValue) := cycleCsrTable.read csr rev.csr
  if rev.needRename && !readRet then send.raise .illegalInstruction rev.value
  else
    let send := { send with rdValue := csrValue, csrNewvalueValid := false }
    if !(send.arg1Src == .reg && !send.rs1NeedMap) then
      if !cycleCsrTable.writeCheck rev.csr then send.raise .illegalInstruction rev.value
      else
        { send with
          csrNewvalue := csrOutcome op csrValue rev.src1Value
          csrNewvalueValid := true }
    else send

/-- What `csr::run` sends to write-back and commit. -/
def csrCompute (csr : CsrBank) (rev : ReadregExecutePack) : ExecuteWbPack :=
  let send := ExecuteWbPack.copy rev
  match rev.enable, rev.subOp with
  | true, .csr op => csrExecute csr rev op send
  | _, _ => send

/-- The value write-back writes to the register file, if it does: `wb::run` on one port. -/
def ExecuteWbPack.writes (rev : ExecuteWbPack) : Option Word :=
  if rev.enable && rev.valid && !rev.hasException && rev.needRename then some rev.rdValue else none

end DreamCore
