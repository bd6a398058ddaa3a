import DreamCore.Component.AddressMap
import DreamCore.Component.Clint
import DreamCore.Component.Memory
import DreamCore.Isa.Decode
import DreamCore.Pipeline.Execute

/-!
# The ISA model

`isa_model::fetch` and `isa_model::execute`: one instruction, its registers read
and written at once. The execute functions keep their own expressions for what the
units of the pipeline compute as well.

A `verify_only` that fails is `none`.
-/

namespace DreamCore.Isa

/-- `arch_regfile`. Register 0 is never written. -/
structure ArchRegfile where
  read : Nat → Word
  zero : read 0 = 0

/-- `arch_regfile.write`, behind the test of its one caller. -/
def ArchRegfile.write (regs : ArchRegfile) (rd : Nat) (value : Word) : ArchRegfile :=
  if h : rd = 0 then regs
  else ⟨Function.update regs.read rd value, by
    rw [Function.update_of_ne (Ne.symm h)]
    exact regs.zero⟩

/-- The state of `isa_model` that an instruction reads and writes. -/
structure Model where
  pc : Word
  archRegfile : ArchRegfile
  csr : CsrBank
  mem : Mem
  clint : Clint

/-! ## The bus -/

/-- `bus::read8`, `bus::read16` and `bus::read32`. No slave answers zero; a slave that is asked
for what it cannot give fails its `verify_only`. Only fetch passes `is_fetch`, and `read32`
ignores it. -/
def Model.read (m : Model) (addr : Word) (size : Nat) : Option Word :=
  if memorySlave.maps addr false then
    if memorySlave.check (memorySlave.offset addr) size then
      some (m.mem.read (memorySlave.offset addr).toNat size)
    else none
  else if clintSlave.maps addr false then
    if clintSlave.check (clintSlave.offset addr) size then
      some (if size = 4 then m.clint.read32 (clintSlave.offset addr).toNat else 0)
    else none
  else some 0

/-- `bus::write8`, `bus::write16` and `bus::write32`. -/
def Model.write (m : Model) (addr : Word) (size : Nat) (value : Word) : Option Model :=
  if memorySlave.maps addr false then
    if memorySlave.check (memorySlave.offset addr) size then
      some { m with mem := m.mem.write (memorySlave.offset addr).toNat size value }
    else none
  else if clintSlave.maps addr false then
    if clintSlave.check (clintSlave.offset addr) size then
      let clint := if size = 4 then m.clint.write32 (clintSlave.offset addr).toNat value else none
      some { m with clint := clint.getD m.clint }
    else none
  else some m

/-! ## Execution -/

/-- What an instruction raises. -/
def State.raise (s : State) (id : RiscvException) (value : Word) : State :=
  { s with hasException := true, exceptionId := id, exceptionValue := value }

/-- The two switches at the start of `isa_model::execute`. -/
def readOperands (s : State) (regs : ArchRegfile) : State :=
  if s.valid && !s.hasException then
    { s with
      src1Value := match s.arg1Src with
        | .reg => regs.read s.rs1
        | .imm => s.imm
        | .disable => s.src1Value
      src2Value := match s.arg2Src with
        | .reg => regs.read s.rs2
        | .imm => s.imm
        | .disable => s.src2Value }
  else s

/-- The switch of `isa_model::execute_alu`. -/
def aluSwitch (s : State) (op : AluOp) : State :=
  match op with
  | .add => { s with rdValue := s.src1Value + s.src2Value }
  | .and => { s with rdValue := s.src1Value &&& s.src2Value }
  | .auipc => { s with rdValue := s.imm + s.pc }
  | .ebreak => { s with rdValue := 0 }.raise .breakpoint 0
  | .ecall => { s with rdValue := 0 }.raise .environmentCallFromMMode 0
  | .fence => { s with rdValue := 0 }
  | .fenceI => { s with rdValue := 0 }
  | .lui => { s with rdValue := s.imm }
  | .or => { s with rdValue := s.src1Value ||| s.src2Value }
  | .sll => { s with rdValue := s.src1Value <<< (s.src2Value &&& 0x1f) }
  | .slt => { s with rdValue := if s.src1Value.slt s.src2Value then 1 else 0 }
  | .sltu => { s with rdValue := if s.src1Value < s.src2Value then 1 else 0 }
  | .sra => { s with rdValue := s.src1Value.sshiftRight' (s.src2Value &&& 0x1f) }
  | .srl => { s with rdValue := s.src1Value >>> (s.src2Value &&& 0x1f) }
  | .sub => { s with rdValue := s.src1Value - s.src2Value }
  | .xor => { s with rdValue := s.src1Value ^^^ s.src2Value }

/-- `isa_model::execute_alu`. -/
def executeAlu (s : State) : State :=
  if s.hasException then s
  else
    match s.valid, s.subOp with
    | true, .alu op => aluSwitch s op
    | true, _ => s
    | false, _ => s.raise .illegalInstruction 0

/-- The switch of `isa_model::execute_bru`: whether it jumps, where to, and the state. -/
def bruSwitch (s : State) (csr : CsrBank) (op : BruOp) : Bool × Word × State × CsrBank :=
  let next := s.pc + s.imm
  match op with
  | .beq => (s.src1Value == s.src2Value, next, s, csr)
  | .bge => (!s.src1Value.slt s.src2Value, next, s, csr)
  | .bgeu => (decide (s.src1Value ≥ s.src2Value), next, s, csr)
  | .blt => (s.src1Value.slt s.src2Value, next, s, csr)
  | .bltu => (decide (s.src1Value < s.src2Value), next, s, csr)
  | .bne => (s.src1Value != s.src2Value, next, s, csr)
  | .jal => (true, next, { s with rdValue := s.pc + 4 }, csr)
  | .jalr => (true, (s.imm + s.src1Value) &&& ~~~1, { s with rdValue := s.pc + 4 }, csr)
  | .mret =>
      (true, csr.value csrMepc, s, csr.store csrMstatus (mstatusLeave (csr.value csrMstatus)))

/-- `isa_model::execute_bru`. -/
def executeBru (s : State) (m : Model) : Option (State × Model) :=
  if s.valid && !s.hasException then
    match s.subOp with
    | .bru op =>
        let (jump, next, s, csr) := bruSwitch s m.csr op
        some (s, { m with pc := if jump then next else m.pc, csr := csr })
    | _ => some (s, m)
  else none

/-- The switch of `isa_model::execute_csr`. -/
def csrSwitch (op : CsrOp) (csrValue src1Value : Word) : Word :=
  match op with
  | .csrrc => csrValue &&& ~~~src1Value
  | .csrrs => csrValue ||| src1Value
  | .csrrw => src1Value

/-- The body of `isa_model::execute_csr`. -/
def csrBody (s : State) (m : Model) (op : CsrOp) : State × Model :=
  let (readRet, csrValue) := isaCsrTable.read m.csr s.csr
  if s.rdEnable && decide (s.rd ≠ 0) && !readRet then (s.raise .illegalInstruction s.value, m)
  else
    let s := { s with rdValue := csrValue }
    if !(s.arg1Src == .reg && decide (s.rs1 = 0)) then
      match isaCsrTable.write m.csr s.csr (csrSwitch op csrValue s.src1Value) with
      | (false, _) => (s.raise .illegalInstruction s.value, m)
      | (true, csr) => (s, { m with csr := csr })
    else (s, m)

/-- `isa_model::execute_csr`. -/
def executeCsr (s : State) (m : Model) : Option (State × Model) :=
  if s.valid && !s.hasException then
    match s.subOp with
    | .csr op => some (csrBody s m op)
    | _ => some (s, m)
  else none

/-- The switch of `isa_model::execute_div`. -/
def divSwitch (s : State) (op : DivOp) : State :=
  let overflow := s.src1Value == 0x80000000 && s.src2Value == 0xFFFFFFFF
  match op with
  | .div =>
      { s with rdValue :=
          if s.src2Value = 0 then 0xFFFFFFFF
          else if overflow then 0x80000000
          else s.src1Value.sdiv s.src2Value }
  | .divu =>
      { s with rdValue :=
          if s.src2Value = 0 then 0xFFFFFFFF else s.src1Value.udiv s.src2Value }
  | .rem =>
      { s with rdValue :=
          if s.src2Value = 0 then s.src1Value
          else if overflow then 0
          else s.src1Value.srem s.src2Value }
  | .remu =>
      { s with rdValue :=
          if s.src2Value = 0 then s.src1Value else s.src1Value.umod s.src2Value }

/-- `isa_model::execute_div`. -/
def executeDiv (s : State) : Option State :=
  if s.valid && !s.hasException then
    match s.subOp with
    | .div op => some (divSwitch s op)
    | _ => some s
  else none

/-- The switch of `isa_model::execute_mul`. -/
def mulSwitch (s : State) (op : MulOp) : State :=
  let signed (v : Word) : BitVec 64 := v.signExtend 64
  let unsigned (v : Word) : BitVec 64 := v.setWidth 64
  match op with
  | .mul =>
      { s with rdValue :=
          ((signed s.src1Value * signed s.src2Value) &&& 0xffffffff).setWidth 32 }
  | .mulh =>
      { s with rdValue :=
          (((signed s.src1Value * signed s.src2Value) >>> 32) &&& 0xffffffff).setWidth 32 }
  | .mulhsu =>
      { s with rdValue :=
          (((signed s.src1Value * unsigned s.src2Value) >>> 32) &&& 0xffffffff).setWidth 32 }
  | .mulhu =>
      { s with rdValue :=
          (((unsigned s.src1Value * unsigned s.src2Value) >>> 32) &&& 0xffffffff).setWidth 32 }

/-- `isa_model::execute_mul`. -/
def executeMul (s : State) : Option State :=
  if s.valid && !s.hasException then
    match s.subOp with
    | .mul op => some (mulSwitch s op)
    | _ => some s
  else none

/-- The switch of `isa_model::execute_lsu`. -/
def lsuSwitch (s : State) (m : Model) (op : LsuOp) : Option (State × Model) :=
  let addr := s.src1Value + s.imm
  let load (size : Nat) (extend : Word → Word) : Option (State × Model) :=
    (m.read addr size).map fun value => ({ s with rdValue := extend value }, m)
  let store (size : Nat) (value : Word) : Option (State × Model) :=
    (m.write addr size value).map fun m => (s, m)
  match op with
  | .lb => load 1 fun v => (v.setWidth 8).signExtend 32
  | .lbu => load 1 id
  | .lh => load 2 fun v => (v.setWidth 16).signExtend 32
  | .lhu => load 2 id
  | .lw => load 4 id
  | .sb => store 1 (s.src2Value &&& 0xff)
  | .sh => store 2 (s.src2Value &&& 0xffff)
  | .sw => store 4 s.src2Value

/-- `isa_model::execute_lsu`. -/
def executeLsu (s : State) (m : Model) : Option (State × Model) :=
  if s.valid && !s.hasException then
    match s.subOp with
    | .lsu op => lsuSwitch s m op
    | _ => some (s, m)
  else none

/-- The `switch(op_unit)` of `isa_model::execute`. -/
def executeUnit (s : State) (m : Model) : Option (State × Model) :=
  match s.opUnit with
  | .alu => some (executeAlu s, m)
  | .bru => executeBru s m
  | .csr => executeCsr s m
  | .div => (executeDiv s).map fun s => (s, m)
  | .mul => (executeMul s).map fun s => (s, m)
  | .lsu => executeLsu s m

/-- The end of `isa_model::execute`: the trap, or the destination register. -/
def finish (s : State) (m : Model) : Model :=
  if s.hasException then
    let csr := ((m.csr.store csrMepc s.pc).store csrMtval s.exceptionValue).store csrMcause
      s.exceptionId.toWord
    { m with csr := csr, pc := csr.value csrMtvec }
  else if s.rdEnable && decide (s.rd ≠ 0) then
    { m with archRegfile := m.archRegfile.write s.rd s.rdValue }
  else m

/-- `isa_model::execute`. -/
def execute (s : State) (m : Model) : Option Model :=
  (executeUnit (readOperands s m.archRegfile) m).map fun (s, m) => finish s m

/-- `isa_model::fetch`: the word, and the program counter moved on. -/
def fetch (m : Model) : Option (State × Model) :=
  (m.read m.pc 4).map fun value =>
    let s : State := { pc := m.pc, value := value, exceptionId := .instructionAccessFault }
    (if checkAlign m.pc 4 then s else s.raise .instructionAddressMisaligned m.pc,
      { m with pc := m.pc + 4 })

end DreamCore.Isa
