import DreamCore.Pipeline.Decode

/-!
# The decoder of the ISA model

`isa_model::decode`. It is written out a second time in the source, and so it is
here: the enumerations the two models have in common are shared, the switch is
not. The ISA model has one unit for loads and stores.
-/

namespace DreamCore.Isa

/-- `op_unit_t` of the ISA model. -/
inductive OpUnit where
  | alu | bru | csr | div | mul | lsu
deriving DecidableEq, Repr

/-- `lsu_op_t`. -/
inductive LsuOp where
  | lb | lbu | lh | lhu | lw | sb | sh | sw
deriving DecidableEq, Repr

/-- The `sub_op` union of the ISA model, tagged. -/
inductive SubOp where
  | alu (op : AluOp)
  | bru (op : BruOp)
  | csr (op : CsrOp)
  | div (op : DivOp)
  | mul (op : MulOp)
  | lsu (op : LsuOp)
deriving DecidableEq, Repr

/-- `isa_state_t`. -/
structure State where
  value : Word := 0
  valid : Bool := false
  pc : Word := 0
  imm : Word := 0
  hasException : Bool := false
  exceptionId : RiscvException := .instructionAddressMisaligned
  exceptionValue : Word := 0
  rs1 : Nat := 0
  arg1Src : ArgSrc := .reg
  src1Value : Word := 0
  rs2 : Nat := 0
  arg2Src : ArgSrc := .reg
  src2Value : Word := 0
  rd : Nat := 0
  rdEnable : Bool := false
  rdValue : Word := 0
  csr : Nat := 0
  op : Op := .add
  opUnit : OpUnit := .alu
  subOp : SubOp := .alu .add

/-- The `default` cases. -/
def State.invalid (s : State) : State := { s with valid := false }

/-! ## The switch over the opcode -/

/-- Opcode `0x63`. -/
def decodeBranch (w : Word) (s : State) : State :=
  let s := { s with
    opUnit := .bru, arg1Src := .reg, rs1 := rs1Of w, arg2Src := .reg, rs2 := rs2Of w
    imm := (immB w).signExtend 32 }
  match funct3Of w with
  | 0x0 => { s with op := .beq, subOp := .bru .beq }
  | 0x1 => { s with op := .bne, subOp := .bru .bne }
  | 0x4 => { s with op := .blt, subOp := .bru .blt }
  | 0x5 => { s with op := .bge, subOp := .bru .bge }
  | 0x6 => { s with op := .bltu, subOp := .bru .bltu }
  | 0x7 => { s with op := .bgeu, subOp := .bru .bgeu }
  | _ => s.invalid

/-- Opcode `0x03`. -/
def decodeLoad (w : Word) (s : State) : State :=
  let s := { s with
    opUnit := .lsu, arg1Src := .reg, rs1 := rs1Of w, arg2Src := .disable
    imm := (immI w).signExtend 32, rd := rdOf w, rdEnable := true }
  match funct3Of w with
  | 0x0 => { s with op := .lb, subOp := .lsu .lb }
  | 0x1 => { s with op := .lh, subOp := .lsu .lh }
  | 0x2 => { s with op := .lw, subOp := .lsu .lw }
  | 0x4 => { s with op := .lbu, subOp := .lsu .lbu }
  | 0x5 => { s with op := .lhu, subOp := .lsu .lhu }
  | _ => s.invalid

/-- Opcode `0x23`. -/
def decodeStore (w : Word) (s : State) : State :=
  let s := { s with
    opUnit := .lsu, arg1Src := .reg, rs1 := rs1Of w, arg2Src := .reg, rs2 := rs2Of w
    imm := (immS w).signExtend 32 }
  match funct3Of w with
  | 0x0 => { s with op := .sb, subOp := .lsu .sb }
  | 0x1 => { s with op := .sh, subOp := .lsu .sh }
  | 0x2 => { s with op := .sw, subOp := .lsu .sw }
  | _ => s.invalid

/-- Opcode `0x13`. -/
def decodeOpImm (w : Word) (s : State) : State :=
  let s := { s with
    opUnit := .alu, arg1Src := .reg, rs1 := rs1Of w, arg2Src := .imm
    imm := (immI w).signExtend 32, rd := rdOf w, rdEnable := true }
  match funct3Of w, funct7Of w with
  | 0x0, _ => { s with op := .addi, subOp := .alu .add }
  | 0x2, _ => { s with op := .slti, subOp := .alu .slt }
  | 0x3, _ => { s with op := .sltiu, subOp := .alu .sltu }
  | 0x4, _ => { s with op := .xori, subOp := .alu .xor }
  | 0x6, _ => { s with op := .ori, subOp := .alu .or }
  | 0x7, _ => { s with op := .andi, subOp := .alu .and }
  | 0x1, 0x00 => { s with op := .slli, subOp := .alu .sll }
  | 0x5, 0x00 => { s with op := .srli, subOp := .alu .srl }
  | 0x5, 0x20 => { s with op := .srai, subOp := .alu .sra }
  | _, _ => s.invalid

/-- Opcode `0x33`. -/
def decodeOpReg (w : Word) (s : State) : State :=
  let s := { s with
    opUnit := .alu, arg1Src := .reg, rs1 := rs1Of w, arg2Src := .reg, rs2 := rs2Of w
    rd := rdOf w, rdEnable := true }
  match funct3Of w, funct7Of w with
  | 0x0, 0x00 => { s with op := .add, subOp := .alu .add }
  | 0x0, 0x20 => { s with op := .sub, subOp := .alu .sub }
  | 0x0, 0x01 => { s with op := .mul, opUnit := .mul, subOp := .mul .mul }
  | 0x1, 0x00 => { s with op := .sll, subOp := .alu .sll }
  | 0x1, 0x01 => { s with op := .mulh, opUnit := .mul, subOp := .mul .mulh }
  | 0x2, 0x00 => { s with op := .slt, subOp := .alu .slt }
  | 0x2, 0x01 => { s with op := .mulhsu, opUnit := .mul, subOp := .mul .mulhsu }
  | 0x3, 0x00 => { s with op := .sltu, subOp := .alu .sltu }
  | 0x3, 0x01 => { s with op := .mulhu, opUnit := .mul, subOp := .mul .mulhu }
  | 0x4, 0x00 => { s with op := .xor, subOp := .alu .xor }
  | 0x4, 0x01 => { s with op := .div, opUnit := .div, subOp := .div .div }
  | 0x5, 0x00 => { s with op := .srl, subOp := .alu .srl }
  | 0x5, 0x20 => { s with op := .sra, subOp := .alu .sra }
  | 0x5, 0x01 => { s with op := .divu, opUnit := .div, subOp := .div .divu }
  | 0x6, 0x00 => { s with op := .or, subOp := .alu .or }
  | 0x6, 0x01 => { s with op := .rem, opUnit := .div, subOp := .div .rem }
  | 0x7, 0x00 => { s with op := .and, subOp := .alu .and }
  | 0x7, 0x01 => { s with op := .remu, opUnit := .div, subOp := .div .remu }
  | _, _ => s.invalid

/-- Opcode `0x0f`. -/
def decodeFence (w : Word) (s : State) : State :=
  match funct3Of w with
  | 0x0 =>
      if rdOf w = 0 ∧ rs1Of w = 0 ∧ w.extractLsb' 28 4 = 0 then
        { s with
          op := .fence, opUnit := .alu, subOp := .alu .fence, arg1Src := .disable
          arg2Src := .disable, imm := (immI w).zeroExtend 32 }
      else s.invalid
  | 0x1 =>
      if rdOf w = 0 ∧ rs1Of w = 0 ∧ immI w = 0 then
        { s with
          op := .fenceI, opUnit := .alu, subOp := .alu .fenceI, arg1Src := .disable
          arg2Src := .disable }
      else s.invalid
  | _ => s.invalid

/-- A CSR instruction that reads its operand from a register. -/
def decodeCsrReg (w : Word) (op : Op) (subOp : CsrOp) (s : State) : State :=
  { s with
    op := op, opUnit := .csr, subOp := .csr subOp, arg1Src := .reg, rs1 := rs1Of w
    arg2Src := .disable, csr := (immI w).toNat, rd := rdOf w, rdEnable := true }

/-- A CSR instruction whose operand is the `rs1` field itself. -/
def decodeCsrImm (w : Word) (op : Op) (subOp : CsrOp) (s : State) : State :=
  { s with
    op := op, opUnit := .csr, subOp := .csr subOp, arg1Src := .imm
    imm := BitVec.ofNat 32 (rs1Of w), arg2Src := .disable, csr := (immI w).toNat
    rd := rdOf w, rdEnable := true }

/-- Opcode `0x73`. -/
def decodeSystem (w : Word) (s : State) : State :=
  match funct3Of w with
  | 0x0 =>
      if rdOf w = 0 ∧ rs1Of w = 0 then
        match funct7Of w, rs2Of w with
        | 0x00, 0x00 =>
            { s with
              op := .ecall, opUnit := .alu, subOp := .alu .ecall, arg1Src := .disable
              arg2Src := .disable }
        | 0x00, 0x01 =>
            { s with
              op := .ebreak, opUnit := .alu, subOp := .alu .ebreak, arg1Src := .disable
              arg2Src := .disable }
        | 0x18, 0x02 =>
            { s with
              op := .mret, opUnit := .bru, subOp := .bru .mret, arg1Src := .disable
              arg2Src := .disable }
        | _, _ => s.invalid
      else s.invalid
  | 0x1 => decodeCsrReg w .csrrw .csrrw s
  | 0x2 => decodeCsrReg w .csrrs .csrrs s
  | 0x3 => decodeCsrReg w .csrrc .csrrc s
  | 0x5 => decodeCsrImm w .csrrwi .csrrw s
  | 0x6 => decodeCsrImm w .csrrsi .csrrs s
  | 0x7 => decodeCsrImm w .csrrci .csrrc s
  | _ => s.invalid

/-- The `switch(opcode)`. -/
def decodeSwitch (w : Word) (s : State) : State :=
  match opcodeOf w with
  | 0x37 =>
      { s with
        op := .lui, opUnit := .alu, subOp := .alu .lui, arg1Src := .disable
        arg2Src := .disable, imm := immU w, rd := rdOf w, rdEnable := true }
  | 0x17 =>
      { s with
        op := .auipc, opUnit := .alu, subOp := .alu .auipc, arg1Src := .disable
        arg2Src := .disable, imm := immU w, rd := rdOf w, rdEnable := true }
  | 0x6f =>
      { s with
        op := .jal, opUnit := .bru, subOp := .bru .jal, arg1Src := .disable
        arg2Src := .disable, imm := (immJ w).signExtend 32, rd := rdOf w, rdEnable := true }
  | 0x67 =>
      { s with
        op := .jalr, opUnit := .bru, subOp := .bru .jalr, arg1Src := .reg, rs1 := rs1Of w
        arg2Src := .disable, imm := (immI w).signExtend 32, rd := rdOf w, rdEnable := true }
  | 0x63 => decodeBranch w s
  | 0x03 => decodeLoad w s
  | 0x23 => decodeStore w s
  | 0x13 => decodeOpImm w s
  | 0x33 => decodeOpReg w s
  | 0x0f => decodeFence w s
  | 0x73 => decodeSystem w s
  | _ => s.invalid

/-- The assignments in front of the switch. The instruction word itself is not kept. -/
def decodeStart (s : State) : State :=
  { s with
    value := 0, valid := !s.hasException, imm := 0, rs1 := 0, arg1Src := .reg, rs2 := 0, rd := 0
    rdEnable := false, csr := 0, op := .add, opUnit := .alu, subOp := .alu .add }

/-- `isa_model::decode`. -/
def decode (s : State) : State := decodeSwitch s.value (decodeStart s)

end DreamCore.Isa
