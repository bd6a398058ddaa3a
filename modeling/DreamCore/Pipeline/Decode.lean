import DreamCore.Pipeline.Types

/-!
# Instruction decode

The switch of `decode.cpp`. The ISA model repeats it: it names the units of a
load and of a store both `lsu`, and otherwise sets the same fields, so the two
decoders are the same switch followed by different epilogues.
-/

namespace DreamCore

/-! ## Fields of an instruction word -/

def opcodeOf (w : Word) : Nat := (w.extractLsb' 0 7).toNat
def rdOf (w : Word) : Nat := (w.extractLsb' 7 5).toNat
def funct3Of (w : Word) : Nat := (w.extractLsb' 12 3).toNat
def rs1Of (w : Word) : Nat := (w.extractLsb' 15 5).toNat
def rs2Of (w : Word) : Nat := (w.extractLsb' 20 5).toNat
def funct7Of (w : Word) : Nat := (w.extractLsb' 25 7).toNat
def immI (w : Word) : BitVec 12 := w.extractLsb' 20 12
def immS (w : Word) : BitVec 12 := w.extractLsb' 25 7 ++ w.extractLsb' 7 5
def immB (w : Word) : BitVec 13 :=
  w.extractLsb' 31 1 ++ w.extractLsb' 7 1 ++ w.extractLsb' 25 6 ++ w.extractLsb' 8 4 ++ 0#1
def immU (w : Word) : Word := w &&& ~~~0xfff
def immJ (w : Word) : BitVec 21 :=
  w.extractLsb' 31 1 ++ w.extractLsb' 12 8 ++ w.extractLsb' 20 1 ++ w.extractLsb' 21 10 ++ 0#1

/-! ## The switch over the opcode -/

/-- The `default` cases: only `valid` is cleared, what was set before stays. -/
def DecodeRenamePack.invalid (p : DecodeRenamePack) : DecodeRenamePack := { p with valid := false }

/-- Opcode `0x63`. -/
def decodeBranch (w : Word) (p : DecodeRenamePack) : DecodeRenamePack :=
  let p := { p with
    opUnit := .bru, arg1Src := .reg, rs1 := rs1Of w, arg2Src := .reg, rs2 := rs2Of w
    imm := (immB w).signExtend 32 }
  match funct3Of w with
  | 0x0 => { p with op := .beq, subOp := .bru .beq }
  | 0x1 => { p with op := .bne, subOp := .bru .bne }
  | 0x4 => { p with op := .blt, subOp := .bru .blt }
  | 0x5 => { p with op := .bge, subOp := .bru .bge }
  | 0x6 => { p with op := .bltu, subOp := .bru .bltu }
  | 0x7 => { p with op := .bgeu, subOp := .bru .bgeu }
  | _ => p.invalid

/-- Opcode `0x03`. -/
def decodeLoad (w : Word) (p : DecodeRenamePack) : DecodeRenamePack :=
  let p := { p with
    opUnit := .lu, arg1Src := .reg, rs1 := rs1Of w, arg2Src := .disable
    imm := (immI w).signExtend 32, rd := rdOf w, rdEnable := true }
  match funct3Of w with
  | 0x0 => { p with op := .lb, subOp := .lu .lb }
  | 0x1 => { p with op := .lh, subOp := .lu .lh }
  | 0x2 => { p with op := .lw, subOp := .lu .lw }
  | 0x4 => { p with op := .lbu, subOp := .lu .lbu }
  | 0x5 => { p with op := .lhu, subOp := .lu .lhu }
  | _ => p.invalid

/-- Opcode `0x23`. -/
def decodeStore (w : Word) (p : DecodeRenamePack) : DecodeRenamePack :=
  let p := { p with
    opUnit := .sdu, arg1Src := .reg, rs1 := rs1Of w, arg2Src := .reg, rs2 := rs2Of w
    imm := (immS w).signExtend 32 }
  match funct3Of w with
  | 0x0 => { p with op := .sb, subOp := .sdu .sb }
  | 0x1 => { p with op := .sh, subOp := .sdu .sh }
  | 0x2 => { p with op := .sw, subOp := .sdu .sw }
  | _ => p.invalid

/-- Opcode `0x13`. -/
def decodeOpImm (w : Word) (p : DecodeRenamePack) : DecodeRenamePack :=
  let p := { p with
    opUnit := .alu, arg1Src := .reg, rs1 := rs1Of w, arg2Src := .imm
    imm := (immI w).signExtend 32, rd := rdOf w, rdEnable := true }
  match funct3Of w, funct7Of w with
  | 0x0, _ => { p with op := .addi, subOp := .alu .add }
  | 0x2, _ => { p with op := .slti, subOp := .alu .slt }
  | 0x3, _ => { p with op := .sltiu, subOp := .alu .sltu }
  | 0x4, _ => { p with op := .xori, subOp := .alu .xor }
  | 0x6, _ => { p with op := .ori, subOp := .alu .or }
  | 0x7, _ => { p with op := .andi, subOp := .alu .and }
  | 0x1, 0x00 => { p with op := .slli, subOp := .alu .sll }
  | 0x5, 0x00 => { p with op := .srli, subOp := .alu .srl }
  | 0x5, 0x20 => { p with op := .srai, subOp := .alu .sra }
  | _, _ => p.invalid

/-- Opcode `0x33`. -/
def decodeOpReg (w : Word) (p : DecodeRenamePack) : DecodeRenamePack :=
  let p := { p with
    opUnit := .alu, arg1Src := .reg, rs1 := rs1Of w, arg2Src := .reg, rs2 := rs2Of w
    rd := rdOf w, rdEnable := true }
  match funct3Of w, funct7Of w with
  | 0x0, 0x00 => { p with op := .add, subOp := .alu .add }
  | 0x0, 0x20 => { p with op := .sub, subOp := .alu .sub }
  | 0x0, 0x01 => { p with op := .mul, opUnit := .mul, subOp := .mul .mul }
  | 0x1, 0x00 => { p with op := .sll, subOp := .alu .sll }
  | 0x1, 0x01 => { p with op := .mulh, opUnit := .mul, subOp := .mul .mulh }
  | 0x2, 0x00 => { p with op := .slt, subOp := .alu .slt }
  | 0x2, 0x01 => { p with op := .mulhsu, opUnit := .mul, subOp := .mul .mulhsu }
  | 0x3, 0x00 => { p with op := .sltu, subOp := .alu .sltu }
  | 0x3, 0x01 => { p with op := .mulhu, opUnit := .mul, subOp := .mul .mulhu }
  | 0x4, 0x00 => { p with op := .xor, subOp := .alu .xor }
  | 0x4, 0x01 => { p with op := .div, opUnit := .div, subOp := .div .div }
  | 0x5, 0x00 => { p with op := .srl, subOp := .alu .srl }
  | 0x5, 0x20 => { p with op := .sra, subOp := .alu .sra }
  | 0x5, 0x01 => { p with op := .divu, opUnit := .div, subOp := .div .divu }
  | 0x6, 0x00 => { p with op := .or, subOp := .alu .or }
  | 0x6, 0x01 => { p with op := .rem, opUnit := .div, subOp := .div .rem }
  | 0x7, 0x00 => { p with op := .and, subOp := .alu .and }
  | 0x7, 0x01 => { p with op := .remu, opUnit := .div, subOp := .div .remu }
  | _, _ => p.invalid

/-- Opcode `0x0f`. -/
def decodeFence (w : Word) (p : DecodeRenamePack) : DecodeRenamePack :=
  match funct3Of w with
  | 0x0 =>
      if rdOf w = 0 ∧ rs1Of w = 0 ∧ w.extractLsb' 28 4 = 0 then
        { p with
          op := .fence, opUnit := .alu, subOp := .alu .fence, arg1Src := .disable
          arg2Src := .disable, imm := (immI w).zeroExtend 32 }
      else p.invalid
  | 0x1 =>
      if rdOf w = 0 ∧ rs1Of w = 0 ∧ immI w = 0 then
        { p with
          op := .fenceI, opUnit := .alu, subOp := .alu .fenceI, arg1Src := .disable
          arg2Src := .disable }
      else p.invalid
  | _ => p.invalid

/-- A CSR instruction that reads its operand from a register. -/
def decodeCsrReg (w : Word) (op : Op) (subOp : CsrOp) (p : DecodeRenamePack) :
    DecodeRenamePack :=
  { p with
    op := op, opUnit := .csr, subOp := .csr subOp, arg1Src := .reg, rs1 := rs1Of w
    arg2Src := .disable, csr := (immI w).toNat, rd := rdOf w, rdEnable := true }

/-- A CSR instruction whose operand is the `rs1` field itself. -/
def decodeCsrImm (w : Word) (op : Op) (subOp : CsrOp) (p : DecodeRenamePack) :
    DecodeRenamePack :=
  { p with
    op := op, opUnit := .csr, subOp := .csr subOp, arg1Src := .imm
    imm := BitVec.ofNat 32 (rs1Of w), arg2Src := .disable, csr := (immI w).toNat
    rd := rdOf w, rdEnable := true }

/-- Opcode `0x73`. -/
def decodeSystem (w : Word) (p : DecodeRenamePack) : DecodeRenamePack :=
  match funct3Of w with
  | 0x0 =>
      if rdOf w = 0 ∧ rs1Of w = 0 then
        match funct7Of w, rs2Of w with
        | 0x00, 0x00 =>
            { p with
              op := .ecall, opUnit := .alu, subOp := .alu .ecall, arg1Src := .disable
              arg2Src := .disable }
        | 0x00, 0x01 =>
            { p with
              op := .ebreak, opUnit := .alu, subOp := .alu .ebreak, arg1Src := .disable
              arg2Src := .disable }
        | 0x18, 0x02 =>
            { p with
              op := .mret, opUnit := .bru, subOp := .bru .mret, arg1Src := .disable
              arg2Src := .disable }
        | _, _ => p.invalid
      else p.invalid
  | 0x1 => decodeCsrReg w .csrrw .csrrw p
  | 0x2 => decodeCsrReg w .csrrs .csrrs p
  | 0x3 => decodeCsrReg w .csrrc .csrrc p
  | 0x5 => decodeCsrImm w .csrrwi .csrrw p
  | 0x6 => decodeCsrImm w .csrrsi .csrrs p
  | 0x7 => decodeCsrImm w .csrrci .csrrc p
  | _ => p.invalid

/-- The `switch(opcode)`. -/
def decodeSwitch (w : Word) (p : DecodeRenamePack) : DecodeRenamePack :=
  match opcodeOf w with
  | 0x37 =>
      { p with
        op := .lui, opUnit := .alu, subOp := .alu .lui, arg1Src := .disable
        arg2Src := .disable, imm := immU w, rd := rdOf w, rdEnable := true }
  | 0x17 =>
      { p with
        op := .auipc, opUnit := .alu, subOp := .alu .auipc, arg1Src := .disable
        arg2Src := .disable, imm := immU w, rd := rdOf w, rdEnable := true }
  | 0x6f =>
      { p with
        op := .jal, opUnit := .bru, subOp := .bru .jal, arg1Src := .disable
        arg2Src := .disable, imm := (immJ w).signExtend 32, rd := rdOf w, rdEnable := true }
  | 0x67 =>
      { p with
        op := .jalr, opUnit := .bru, subOp := .bru .jalr, arg1Src := .reg, rs1 := rs1Of w
        arg2Src := .disable, imm := (immI w).signExtend 32, rd := rdOf w, rdEnable := true }
  | 0x63 => decodeBranch w p
  | 0x03 => decodeLoad w p
  | 0x23 => decodeStore w p
  | 0x13 => decodeOpImm w p
  | 0x33 => decodeOpReg w p
  | 0x0f => decodeFence w p
  | 0x73 => decodeSystem w p
  | _ => p.invalid

/-- What the switch leaves alone, whatever the word: the predictor's pack, and, where the word
is a store, the destination. Only the branch unit is ever given an `mret`, only the ALU a
fence, and nothing makes an invalid pack valid. -/
structure DecodeRenamePack.Decodes (p q : DecodeRenamePack) : Prop where
  pack : q.branchPredictorInfoPack = p.branchPredictorInfoPack
  store : q.opUnit = .sdu → q.rdEnable = p.rdEnable
  mret : q.op = .mret → q.opUnit = .bru
  fence : q.op = .fence → q.opUnit = .alu
  valid : q.valid = true → p.valid = true

theorem decodeSwitch_decodes (w : Word) {p : DecodeRenamePack} (hp : p.opUnit = .alu)
    (hop : p.op = .add) : p.Decodes (decodeSwitch w p) := by
  have hadd : p.op ≠ .mret ∧ p.op ≠ .fence := by simp [hop]
  have hinv : p.Decodes p.invalid := by
    refine ⟨rfl, fun h => ?_, fun h => absurd h hadd.1, fun h => absurd h hadd.2,
      fun h => by cases h⟩
    rw [DecodeRenamePack.invalid, hp] at h
    cases h
  -- an instruction of some other unit, with an operation of its own
  have hplain : ∀ {q : DecodeRenamePack}, q.branchPredictorInfoPack = p.branchPredictorInfoPack →
      q.opUnit ≠ .sdu → q.op ≠ .mret ∧ q.op ≠ .fence → (q.valid = true → p.valid = true) →
      p.Decodes q :=
    fun h₁ h₂ h₃ h₄ =>
      ⟨h₁, fun h => absurd h h₂, fun h => absurd h h₃.1, fun h => absurd h h₃.2, h₄⟩
  have hbranch : p.Decodes (decodeBranch w p) := by
    unfold decodeBranch
    dsimp only
    split <;> exact hplain rfl (by simp [DecodeRenamePack.invalid])
      (by simp [DecodeRenamePack.invalid, hop]) (by simp [DecodeRenamePack.invalid])
  have hload : p.Decodes (decodeLoad w p) := by
    unfold decodeLoad
    dsimp only
    split <;> exact hplain rfl (by simp [DecodeRenamePack.invalid])
      (by simp [DecodeRenamePack.invalid, hop]) (by simp [DecodeRenamePack.invalid])
  have hstore : p.Decodes (decodeStore w p) := by
    unfold decodeStore
    dsimp only
    split
    case h_4 =>
      exact ⟨rfl, fun _ => rfl, fun h => absurd h hadd.1, fun h => absurd h hadd.2,
        fun h => by cases h⟩
    all_goals exact ⟨rfl, fun _ => rfl, fun h => by simp at h, fun h => by simp at h, id⟩
  have hopImm : p.Decodes (decodeOpImm w p) := by
    unfold decodeOpImm
    dsimp only
    split <;> exact hplain rfl (by simp [DecodeRenamePack.invalid])
      (by simp [DecodeRenamePack.invalid, hop]) (by simp [DecodeRenamePack.invalid])
  have hopReg : p.Decodes (decodeOpReg w p) := by
    unfold decodeOpReg
    dsimp only
    split <;> exact hplain rfl (by simp [DecodeRenamePack.invalid])
      (by simp [DecodeRenamePack.invalid, hop]) (by simp [DecodeRenamePack.invalid])
  have hfence : p.Decodes (decodeFence w p) := by
    unfold decodeFence
    split
    · split
      · exact ⟨rfl, fun h => by simp at h, fun h => by simp at h, fun _ => rfl, id⟩
      · exact hinv
    · split
      · exact hplain rfl (by simp) (by simp) id
      · exact hinv
    · exact hinv
  have hsystem : p.Decodes (decodeSystem w p) := by
    unfold decodeSystem
    split
    · split
      · split
        · exact hplain rfl (by simp) (by simp) id
        · exact hplain rfl (by simp) (by simp) id
        · exact ⟨rfl, fun h => by simp at h, fun _ => rfl, fun h => by simp at h, id⟩
        · exact hinv
      · exact hinv
    all_goals first
      | exact hinv
      | exact hplain rfl (by simp [decodeCsrReg, decodeCsrImm])
          (by simp [decodeCsrReg, decodeCsrImm]) (by simp [decodeCsrReg, decodeCsrImm])
  unfold decodeSwitch
  split
  case h_5 => exact hbranch
  case h_6 => exact hload
  case h_7 => exact hstore
  case h_8 => exact hopImm
  case h_9 => exact hopReg
  case h_10 => exact hfence
  case h_11 => exact hsystem
  case h_12 => exact hinv
  all_goals exact hplain rfl (by simp) (by simp) id

/-- The register fields stay within the register file. -/
structure DecodeRenamePack.Fields (p : DecodeRenamePack) : Prop where
  rs1 : p.rs1 < archRegNum
  rs2 : p.rs2 < archRegNum
  rd : p.rd < archRegNum

theorem rdOf_lt (w : Word) : rdOf w < archRegNum := (w.extractLsb' 7 5).isLt
theorem rs1Of_lt (w : Word) : rs1Of w < archRegNum := (w.extractLsb' 15 5).isLt
theorem rs2Of_lt (w : Word) : rs2Of w < archRegNum := (w.extractLsb' 20 5).isLt

theorem decodeSwitch_fields (w : Word) {p : DecodeRenamePack} (hp : p.Fields) :
    (decodeSwitch w p).Fields := by
  have h1 := rs1Of_lt w
  have h2 := rs2Of_lt w
  have hd := rdOf_lt w
  obtain ⟨p1, p2, pd⟩ := hp
  have hbranch : (decodeBranch w p).Fields := by
    unfold decodeBranch
    dsimp only
    split <;> exact ⟨h1, h2, pd⟩
  have hload : (decodeLoad w p).Fields := by
    unfold decodeLoad
    dsimp only
    split <;> exact ⟨h1, p2, hd⟩
  have hstore : (decodeStore w p).Fields := by
    unfold decodeStore
    dsimp only
    split <;> exact ⟨h1, h2, pd⟩
  have hopImm : (decodeOpImm w p).Fields := by
    unfold decodeOpImm
    dsimp only
    split <;> exact ⟨h1, p2, hd⟩
  have hopReg : (decodeOpReg w p).Fields := by
    unfold decodeOpReg
    dsimp only
    split <;> exact ⟨h1, h2, hd⟩
  have hfence : (decodeFence w p).Fields := by
    unfold decodeFence
    split
    · split <;> exact ⟨p1, p2, pd⟩
    · split <;> exact ⟨p1, p2, pd⟩
    · exact ⟨p1, p2, pd⟩
  have hsystem : (decodeSystem w p).Fields := by
    unfold decodeSystem
    split
    · split
      · split <;> exact ⟨p1, p2, pd⟩
      · exact ⟨p1, p2, pd⟩
    all_goals first
      | exact ⟨h1, p2, hd⟩
      | exact ⟨p1, p2, hd⟩
      | exact ⟨p1, p2, pd⟩
  unfold decodeSwitch
  split
  case h_4 => exact ⟨h1, p2, hd⟩
  case h_5 => exact hbranch
  case h_6 => exact hload
  case h_7 => exact hstore
  case h_8 => exact hopImm
  case h_9 => exact hopReg
  case h_10 => exact hfence
  case h_11 => exact hsystem
  case h_12 => exact ⟨p1, p2, pd⟩
  all_goals exact ⟨p1, p2, hd⟩

/-- No instruction is one for the address unit: that part of a store is made at issue. -/
theorem decodeSwitch_unit (w : Word) {p : DecodeRenamePack} (hp : p.opUnit = .alu) :
    (decodeSwitch w p).opUnit ≠ .sau := by
  have hinv : p.invalid.opUnit ≠ .sau := by simp [DecodeRenamePack.invalid, hp]
  unfold decodeSwitch
  split
  case h_5 =>
    unfold decodeBranch
    dsimp only
    split <;> simp [DecodeRenamePack.invalid]
  case h_6 =>
    unfold decodeLoad
    dsimp only
    split <;> simp [DecodeRenamePack.invalid]
  case h_7 =>
    unfold decodeStore
    dsimp only
    split <;> simp [DecodeRenamePack.invalid]
  case h_8 =>
    unfold decodeOpImm
    dsimp only
    split <;> simp [DecodeRenamePack.invalid]
  case h_9 =>
    unfold decodeOpReg
    dsimp only
    split <;> simp [DecodeRenamePack.invalid]
  case h_10 =>
    unfold decodeFence
    split
    · split
      · simp
      · exact hinv
    · split
      · simp
      · exact hinv
    · exact hinv
  case h_11 =>
    unfold decodeSystem
    split
    · split
      · split
        all_goals first
          | exact hinv
          | simp
      · exact hinv
    all_goals first
      | exact hinv
      | simp [decodeCsrReg, decodeCsrImm]
  case h_12 => exact hinv
  all_goals simp

/-- The loop after the switch, which derives the mapping flags. -/
def DecodeRenamePack.setNeedMap (p : DecodeRenamePack) : DecodeRenamePack :=
  { p with
    rs1NeedMap := p.arg1Src == .reg && decide (p.rs1 > 0)
    rs2NeedMap := p.arg2Src == .reg && decide (p.rs2 > 0)
    needRename := p.rdEnable && decide (p.rd > 0) }

/-- The pack before the switch. -/
def decodeStart (rev : Fetch2DecodePack) : DecodeRenamePack where
  valid := !rev.hasException
  pc := rev.pc
  branchPredictorInfoPack := rev.branchPredictorInfoPack

/-- `decode::run` on one fetched instruction: every instruction is a single uop, and an
instruction that is not valid goes to the ALU. -/
def decode (rev : Fetch2DecodePack) : DecodeRenamePack :=
  let p := decodeSwitch rev.value (decodeStart rev)
  let p := if p.valid then p else { p with opUnit := .alu }
  { p.setNeedMap with
    enable := true
    lastUop := true
    value := rev.value
    hasException := rev.hasException
    exceptionId := rev.exceptionId
    exceptionValue := rev.exceptionValue }

end DreamCore
