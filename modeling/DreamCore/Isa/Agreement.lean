import DreamCore.Isa.Execute

/-!
# The two models compute the same

The decoders are two copies of one switch, the execution units and the execute
functions two copies of the same expressions. What differs is around them: the
cycle model names the units of a load and of a store apart, reads an operand only
when it was renamed, writes a destination only when it was renamed, and lets the
branch unit report the next program counter instead of assigning it.
-/

namespace DreamCore

/-! ## Decoding -/

/-- The unit of the ISA model that does the work of a unit of the pipeline. -/
def OpUnit.toIsa : OpUnit → Isa.OpUnit
  | .alu => .alu
  | .bru => .bru
  | .csr => .csr
  | .div => .div
  | .mul => .mul
  | .lu | .sau | .sdu => .lsu

/-- The unit an operation belongs to. -/
def SubOp.unit : SubOp → OpUnit
  | .alu _ => .alu
  | .bru _ => .bru
  | .csr _ => .csr
  | .div _ => .div
  | .mul _ => .mul
  | .lu _ => .lu
  | .sau _ => .sau
  | .sdu _ => .sdu

/-- The operation in the terms of the ISA model. -/
def SubOp.toIsa : SubOp → Isa.SubOp
  | .alu op => .alu op
  | .bru op => .bru op
  | .csr op => .csr op
  | .div op => .div op
  | .mul op => .mul op
  | .lu .lb => .lsu .lb
  | .lu .lbu => .lsu .lbu
  | .lu .lh => .lsu .lh
  | .lu .lhu => .lsu .lhu
  | .lu .lw => .lsu .lw
  | .sau .stab => .lsu .sb
  | .sau .stah => .lsu .sh
  | .sau .staw => .lsu .sw
  | .sdu .sb => .lsu .sb
  | .sdu .sh => .lsu .sh
  | .sdu .sw => .lsu .sw

/-- **The two decoders said the same**: every field they both set. An instruction that is legal
names the unit its operation belongs to, and the ISA model has computed nothing yet. -/
structure SameDecode (p : DecodeRenamePack) (s : Isa.State) : Prop where
  valid : p.valid = s.valid
  pc : p.pc = s.pc
  imm : p.imm = s.imm
  rs1 : p.rs1 = s.rs1
  arg1Src : p.arg1Src = s.arg1Src
  rs2 : p.rs2 = s.rs2
  arg2Src : p.arg2Src = s.arg2Src
  rd : p.rd = s.rd
  rdEnable : p.rdEnable = s.rdEnable
  csr : p.csr = s.csr
  op : p.op = s.op
  opUnit : p.opUnit.toIsa = s.opUnit
  subOp : p.subOp.toIsa = s.subOp
  unit : p.valid = true → p.subOp.unit = p.opUnit
  fresh : s.hasException = false ∧ s.src1Value = 0 ∧ s.src2Value = 0 ∧ s.rdValue = 0

variable {p : DecodeRenamePack} {s : Isa.State}

theorem SameDecode.invalid (h : SameDecode p s) : SameDecode p.invalid s.invalid :=
  { h with valid := rfl, unit := fun hv => by cases hv }

theorem SameDecode.ite {c : Prop} [Decidable c] {q : DecodeRenamePack} {t : Isa.State}
    (h : SameDecode p s) (h' : SameDecode q t) :
    SameDecode (if c then p else q) (if c then s else t) := by
  by_cases hc : c
  · rw [if_pos hc, if_pos hc]
    exact h
  · rw [if_neg hc, if_neg hc]
    exact h'

/-! Case by case the two switches set the same fields to the same values: the first is split, and
what its case says of the fields of the word picks the case of the second. A case names an
operation and the unit it belongs to, the default case an instruction that is not valid. -/

theorem decodeBranch_same (w : Word) (h : SameDecode p s) :
    SameDecode (decodeBranch w p) (Isa.decodeBranch w s) := by
  unfold decodeBranch
  dsimp only
  split <;> simp only [Isa.decodeBranch, *]
  case h_7 =>
    exact { h.invalid with
      opUnit := rfl, arg1Src := rfl, rs1 := rfl, arg2Src := rfl, rs2 := rfl, imm := rfl
      unit := fun hv => absurd hv Bool.false_ne_true }
  all_goals
    exact { h with
      opUnit := rfl, arg1Src := rfl, rs1 := rfl, arg2Src := rfl, rs2 := rfl, imm := rfl
      op := rfl, subOp := rfl, unit := fun _ => rfl }

theorem decodeLoad_same (w : Word) (h : SameDecode p s) :
    SameDecode (decodeLoad w p) (Isa.decodeLoad w s) := by
  unfold decodeLoad
  dsimp only
  split <;> simp only [Isa.decodeLoad, *]
  case h_6 =>
    exact { h.invalid with
      opUnit := rfl, arg1Src := rfl, rs1 := rfl, arg2Src := rfl, imm := rfl, rd := rfl
      rdEnable := rfl, unit := fun hv => absurd hv Bool.false_ne_true }
  all_goals
    exact { h with
      opUnit := rfl, arg1Src := rfl, rs1 := rfl, arg2Src := rfl, imm := rfl, rd := rfl
      rdEnable := rfl, op := rfl, subOp := rfl, unit := fun _ => rfl }

theorem decodeStore_same (w : Word) (h : SameDecode p s) :
    SameDecode (decodeStore w p) (Isa.decodeStore w s) := by
  unfold decodeStore
  dsimp only
  split <;> simp only [Isa.decodeStore, *]
  case h_4 =>
    exact { h.invalid with
      opUnit := rfl, arg1Src := rfl, rs1 := rfl, arg2Src := rfl, rs2 := rfl, imm := rfl
      unit := fun hv => absurd hv Bool.false_ne_true }
  all_goals
    exact { h with
      opUnit := rfl, arg1Src := rfl, rs1 := rfl, arg2Src := rfl, rs2 := rfl, imm := rfl
      op := rfl, subOp := rfl, unit := fun _ => rfl }

theorem decodeOpImm_same (w : Word) (h : SameDecode p s) :
    SameDecode (decodeOpImm w p) (Isa.decodeOpImm w s) := by
  unfold decodeOpImm
  dsimp only
  split <;> simp only [Isa.decodeOpImm, *]
  case h_10 =>
    exact { h.invalid with
      opUnit := rfl, arg1Src := rfl, rs1 := rfl, arg2Src := rfl, imm := rfl, rd := rfl
      rdEnable := rfl, unit := fun hv => absurd hv Bool.false_ne_true }
  all_goals
    exact { h with
      opUnit := rfl, arg1Src := rfl, rs1 := rfl, arg2Src := rfl, imm := rfl, rd := rfl
      rdEnable := rfl, op := rfl, subOp := rfl, unit := fun _ => rfl }

/-- Here the cases name three units. -/
theorem decodeOpReg_same (w : Word) (h : SameDecode p s) :
    SameDecode (decodeOpReg w p) (Isa.decodeOpReg w s) := by
  unfold decodeOpReg
  dsimp only
  split <;> simp only [Isa.decodeOpReg, *]
  case h_19 =>
    exact { h.invalid with
      opUnit := rfl, arg1Src := rfl, rs1 := rfl, arg2Src := rfl, rs2 := rfl, rd := rfl
      rdEnable := rfl, unit := fun hv => absurd hv Bool.false_ne_true }
  all_goals
    exact { h with
      opUnit := rfl, arg1Src := rfl, rs1 := rfl, arg2Src := rfl, rs2 := rfl, rd := rfl
      rdEnable := rfl, op := rfl, subOp := rfl, unit := fun _ => rfl }

theorem decodeFence_same (w : Word) (h : SameDecode p s) :
    SameDecode (decodeFence w p) (Isa.decodeFence w s) := by
  unfold decodeFence
  split <;> simp only [Isa.decodeFence, *]
  · refine SameDecode.ite ?_ h.invalid
    exact { h with
      op := rfl, opUnit := rfl, subOp := rfl, arg1Src := rfl, arg2Src := rfl, imm := rfl
      unit := fun _ => rfl }
  · refine SameDecode.ite ?_ h.invalid
    exact { h with
      op := rfl, opUnit := rfl, subOp := rfl, arg1Src := rfl, arg2Src := rfl
      unit := fun _ => rfl }
  · exact h.invalid

theorem decodeSystem_same (w : Word) (h : SameDecode p s) :
    SameDecode (decodeSystem w p) (Isa.decodeSystem w s) := by
  have hreg (op : Op) (subOp : CsrOp) :
      SameDecode (decodeCsrReg w op subOp p) (Isa.decodeCsrReg w op subOp s) :=
    { h with
      op := rfl, opUnit := rfl, subOp := rfl, arg1Src := rfl, rs1 := rfl, arg2Src := rfl
      csr := rfl, rd := rfl, rdEnable := rfl, unit := fun _ => rfl }
  have himm (op : Op) (subOp : CsrOp) :
      SameDecode (decodeCsrImm w op subOp p) (Isa.decodeCsrImm w op subOp s) :=
    { h with
      op := rfl, opUnit := rfl, subOp := rfl, arg1Src := rfl, imm := rfl, arg2Src := rfl
      csr := rfl, rd := rfl, rdEnable := rfl, unit := fun _ => rfl }
  unfold decodeSystem
  split
  case h_1 =>
    split
    case isFalse =>
      simp only [Isa.decodeSystem, *, if_false]
      exact h.invalid
    split <;> simp only [Isa.decodeSystem, *, and_self, if_true]
    case h_4 => exact h.invalid
    all_goals
      exact { h with
        op := rfl, opUnit := rfl, subOp := rfl, arg1Src := rfl, arg2Src := rfl
        unit := fun _ => rfl }
  case h_8 =>
    simp only [Isa.decodeSystem, *]
    exact h.invalid
  all_goals simp only [Isa.decodeSystem, *]

/-- **One switch, written twice.** -/
theorem decodeSwitch_same (w : Word) (h : SameDecode p s) :
    SameDecode (decodeSwitch w p) (Isa.decodeSwitch w s) := by
  have hbranch := decodeBranch_same w h
  have hload := decodeLoad_same w h
  have hstore := decodeStore_same w h
  have hopImm := decodeOpImm_same w h
  have hopReg := decodeOpReg_same w h
  have hfence := decodeFence_same w h
  have hsystem := decodeSystem_same w h
  unfold decodeSwitch
  split <;> simp only [Isa.decodeSwitch, *]
  case h_12 => exact h.invalid
  case h_4 =>
    exact { h with
      op := rfl, opUnit := rfl, subOp := rfl, arg1Src := rfl, rs1 := rfl, arg2Src := rfl
      imm := rfl, rd := rfl, rdEnable := rfl, unit := fun _ => rfl }
  all_goals
    exact { h with
      op := rfl, opUnit := rfl, subOp := rfl, arg1Src := rfl, arg2Src := rfl, imm := rfl
      rd := rfl, rdEnable := rfl, unit := fun _ => rfl }

/-! ## Computing -/

/-- What rename sends on of a decoded instruction: registers, queue entries and a checkpoint are
added, the rest is copied. -/
def DecodeRenamePack.renamed (p : DecodeRenamePack) (rest : OpInfo) : OpInfo :=
  { rest with
    toDecodeRenamePack := { p with branchPredictorInfoPack := rest.branchPredictorInfoPack } }

/-- The unit register read hands a pack to. The LSU has its own register read, so the failing
`verify_only` of the default case is `none`. -/
def integerExecute (csr : CsrBank) (rev : ReadregExecutePack) : Option ExecuteWbPack :=
  match rev.opUnit with
  | .alu => some (aluCompute rev)
  | .bru => some (bruCompute csr.regs rev)
  | .csr => some (csrCompute csr rev)
  | .div => some (divCompute rev)
  | .mul => some (mulCompute rev)
  | _ => none

/-- Where the program goes on behind a result: commit traps to `mtvec`, the branch unit reports
the next program counter, and behind everything else fetch has gone on in line. -/
def ExecuteWbPack.nextPc (csr : CsrBank) (send : ExecuteWbPack) : Word :=
  if send.hasException then csr.regs.readSys csrMtvec
  else if send.opUnit = .bru then send.bruNextPc
  else send.pc + 4

/-- The instructions whose result is computed from their operands alone. -/
def DecodeRenamePack.computes (p : DecodeRenamePack) : Bool :=
  (p.opUnit == .alu || p.opUnit == .bru || p.opUnit == .div || p.opUnit == .mul) && p.subOp != .bru .mret

/-- Whether the ISA model writes the destination register. -/
def Isa.State.writes (s : Isa.State) : Bool :=
  !s.hasException && (s.rdEnable && decide (s.rd ≠ 0))

/-- **The two models computed the same**: destination, write enable, value, next pc. -/
structure SameEffect (csr : CsrBank) (send : ExecuteWbPack) (s : Isa.State) (m : Isa.Model) :
    Prop where
  rd : send.rd = s.rd
  writes : send.writes.isSome = s.writes
  rdValue : send.rdValue = s.rdValue
  nextPc : send.nextPc csr = (Isa.finish s m).pc

/-- **The two models read the same operands.** -/
structure SameOperands (rev : ReadregExecutePack) (s : Isa.State) : Prop where
  enable : rev.enable = true
  valid : rev.valid = true ∧ s.valid = true
  hasException : rev.hasException = false ∧ s.hasException = false
  pc : rev.pc = s.pc
  imm : rev.imm = s.imm
  src1Value : rev.src1Value = s.src1Value
  src2Value : rev.src2Value = s.src2Value
  rd : rev.rd = s.rd
  needRename : rev.needRename = (s.rdEnable && decide (s.rd ≠ 0))
  rdValue : s.rdValue = 0
  csr : rev.csr = s.csr
  /-- The operand is register 0: not renamed there, told by its number here. -/
  unread : (rev.arg1Src == .reg && !rev.rs1NeedMap) = (s.arg1Src == .reg && decide (s.rs1 = 0))
  opUnit : rev.opUnit.toIsa = s.opUnit
  subOp : rev.subOp.toIsa = s.subOp
  unit : rev.subOp.unit = rev.opUnit

/-- An operand that was not renamed is the immediate or zero; in the ISA model register 0 reads
as zero and a disabled operand keeps the zero it started with. -/
theorem operandValue_same (regs : Isa.ArchRegfile) (argSrc : ArgSrc) (rs : Nat) (imm : Word) :
    operandValue (argSrc == .reg && decide (rs > 0)) argSrc imm (regs.read rs)
      = (match argSrc with
        | .reg => regs.read rs
        | .imm => imm
        | .disable => 0) := by
  cases argSrc with
  | reg =>
    rcases Nat.eq_zero_or_pos rs with rfl | hrs
    · simp [operandValue, regs.zero]
    · simp [operandValue, hrs]
  | imm => rfl
  | disable => rfl

/-- What fetch hands to the decoder, for a word it could read. -/
def fetched (pc w : Word) (pack : BranchPredictorInfoPack) : Fetch2DecodePack :=
  { enable := true, pc := pc, value := w, branchPredictorInfoPack := pack }

/-- What the ISA model's fetch hands to its decoder. -/
def Isa.fetched (pc w : Word) : Isa.State :=
  { pc := pc, value := w, exceptionId := .instructionAccessFault }

variable {pc w : Word} {pack : BranchPredictorInfoPack} {rest : OpInfo}

theorem switch_same (pc w : Word) (pack : BranchPredictorInfoPack) :
    SameDecode (decodeSwitch w (decodeStart (fetched pc w pack)))
      (Isa.decode (Isa.fetched pc w)) := by
  refine decodeSwitch_same w ?_
  constructor <;> first | rfl | exact fun _ => rfl | exact ⟨rfl, rfl, rfl, rfl⟩

/-- The epilogue of `decode::run` keeps what the switch set. -/
theorem decode_valid : (decode (fetched pc w pack)).valid
    = (decodeSwitch w (decodeStart (fetched pc w pack))).valid := by
  unfold decode
  dsimp only
  split <;> rfl

theorem decode_same (hv : (decode (fetched pc w pack)).valid = true) :
    SameDecode (decode (fetched pc w pack)) (Isa.decode (Isa.fetched pc w)) := by
  have h := switch_same pc w pack
  rw [decode_valid] at hv
  have hp : (if (decodeSwitch w (decodeStart (fetched pc w pack))).valid then
      decodeSwitch w (decodeStart (fetched pc w pack))
      else { decodeSwitch w (decodeStart (fetched pc w pack)) with opUnit := .alu })
      = decodeSwitch w (decodeStart (fetched pc w pack)) := if_pos hv
  have hd : decode (fetched pc w pack)
      = { (decodeSwitch w (decodeStart (fetched pc w pack))).setNeedMap with
          enable := true, lastUop := true, value := w, hasException := false
          exceptionId := .instructionAddressMisaligned, exceptionValue := 0 } := by
    unfold decode
    dsimp only
    rw [show (fetched pc w pack).value = w from rfl, hp]
    rfl
  rw [hd]
  exact ⟨h.valid, h.pc, h.imm, h.rs1, h.arg1Src, h.rs2, h.arg2Src, h.rd, h.rdEnable, h.csr, h.op,
    h.opUnit, h.subOp, h.unit, h.fresh⟩

/-- A legal instruction as the decoder hands it on: the mapping flags are derived. -/
structure DecodeRenamePack.Issuable (p : DecodeRenamePack) : Prop where
  enable : p.enable = true
  valid : p.valid = true
  hasException : p.hasException = false
  rs1NeedMap : p.rs1NeedMap = (p.arg1Src == .reg && decide (p.rs1 > 0))
  rs2NeedMap : p.rs2NeedMap = (p.arg2Src == .reg && decide (p.rs2 > 0))
  needRename : p.needRename = (p.rdEnable && decide (p.rd > 0))

theorem decode_issuable (hv : (decode (fetched pc w pack)).valid = true) :
    (decode (fetched pc w pack)).Issuable :=
  ⟨rfl, hv, rfl, rfl, rfl, rfl⟩

/-- **Register read and the two switches of `execute` agree.** -/
theorem readreg_same (regs : Isa.ArchRegfile) (rest : OpInfo) (hp : p.Issuable)
    (h : SameDecode p s) :
    SameOperands (readreg (p.renamed rest) (regs.read p.rs1) (regs.read p.rs2))
      (Isa.readOperands s regs) := by
  have hsv : s.valid = true := by rw [← h.valid, hp.valid]
  obtain ⟨hs, hs₁, hs₂, hrd⟩ := h.fresh
  have hread : readreg (p.renamed rest) (regs.read p.rs1) (regs.read p.rs2)
      = { toOpInfo := p.renamed rest
          src1Value := operandValue p.rs1NeedMap p.arg1Src p.imm (regs.read p.rs1)
          src2Value := operandValue p.rs2NeedMap p.arg2Src p.imm (regs.read p.rs2) } := by
    unfold readreg
    rw [if_pos (by simp [DecodeRenamePack.renamed, hp.valid, hp.hasException])]
    rfl
  have hoperands : Isa.readOperands s regs
      = { s with
          src1Value := match s.arg1Src with
            | .reg => regs.read s.rs1
            | .imm => s.imm
            | .disable => s.src1Value
          src2Value := match s.arg2Src with
            | .reg => regs.read s.rs2
            | .imm => s.imm
            | .disable => s.src2Value } := by
    unfold Isa.readOperands
    exact if_pos (by simp [hsv, hs])
  rw [hread, hoperands, hs₁, hs₂, ← h.arg1Src, ← h.arg2Src, ← h.rs1, ← h.rs2, ← h.imm]
  constructor
  case enable => exact hp.enable
  case valid => exact ⟨hp.valid, hsv⟩
  case hasException => exact ⟨hp.hasException, hs⟩
  case pc => exact h.pc
  case imm => rfl
  case src1Value =>
    rw [hp.rs1NeedMap]
    exact operandValue_same regs ..
  case src2Value =>
    rw [hp.rs2NeedMap]
    exact operandValue_same regs ..
  case rd => exact h.rd
  case needRename =>
    have hdec : decide (p.rd > 0) = decide (s.rd ≠ 0) := by
      rw [h.rd]
      exact decide_eq_decide.mpr Nat.pos_iff_ne_zero
    rw [← hdec, ← h.rdEnable]
    exact hp.needRename
  case rdValue => exact hrd
  case csr => exact h.csr
  case unread =>
    show (p.arg1Src == .reg && !p.rs1NeedMap) = (p.arg1Src == .reg && decide (p.rs1 = 0))
    rw [hp.rs1NeedMap]
    rcases Nat.eq_zero_or_pos p.rs1 with hz | hpos
    · simp [hz]
    · have hz : p.rs1 ≠ 0 := Nat.ne_of_gt hpos
      cases p.arg1Src <;> simp [hz, hpos]
  case opUnit => exact h.opUnit
  case subOp => exact h.subOp
  case unit => exact h.unit hp.valid

/-! ## The units -/

variable {rev : ReadregExecutePack} {csr : CsrBank} {m : Isa.Model}

/-- Two results that agree on the value and the exception have the same effect. -/
theorem SameOperands.effect (h : SameOperands rev s) {send : ExecuteWbPack} {t : Isa.State}
    (hsend : send.enable = rev.enable ∧ send.valid = rev.valid ∧ send.needRename = rev.needRename
      ∧ send.rd = rev.rd)
    (ht : t.rd = s.rd ∧ t.rdEnable = s.rdEnable) (he : send.hasException = t.hasException)
    (hvalue : send.rdValue = t.rdValue) (hcsr : csr = m.csr)
    (hnext : send.hasException = false → send.nextPc csr = m.pc) : SameEffect csr send t m := by
  obtain ⟨henable, hvalid, hrename, hrd⟩ := hsend
  constructor
  case rd => rw [hrd, ht.1, h.rd]
  case writes =>
    unfold ExecuteWbPack.writes Isa.State.writes
    rw [henable, hvalid, hrename, h.enable, h.valid.1, h.needRename, he, ht.1, ht.2]
    cases t.hasException <;> cases s.rdEnable <;> by_cases hz : s.rd = 0 <;> simp [hz]
  case rdValue => exact hvalue
  case nextPc =>
    cases hx : send.hasException with
    | false =>
      rw [hnext hx]
      unfold Isa.finish
      rw [← he, hx]
      cases t.rdEnable && decide (t.rd ≠ 0) <;> rfl
    | true =>
      -- none of the three registers the trap stores is the one it jumps through
      unfold ExecuteWbPack.nextPc Isa.finish
      rw [← he, hx, hcsr]
      rfl

theorem SameOperands.inline (h : SameOperands rev s) (hm : m.pc = s.pc + 4)
    {send : ExecuteWbPack} (hpc : send.pc = rev.pc) (hu : send.opUnit = rev.opUnit)
    (hb : rev.opUnit ≠ .bru) (hx : send.hasException = false) : send.nextPc csr = m.pc := by
  unfold ExecuteWbPack.nextPc
  rw [hx, hu, hpc, h.pc, hm, if_neg hb]
  rfl

theorem SubOp.alu_of_unit {o : SubOp} (h : o.unit = .alu) : ∃ op, o = .alu op := by
  cases o
  case alu op => exact ⟨op, rfl⟩
  all_goals cases h

theorem SubOp.bru_of_unit {o : SubOp} (h : o.unit = .bru) : ∃ op, o = .bru op := by
  cases o
  case bru op => exact ⟨op, rfl⟩
  all_goals cases h

theorem SubOp.div_of_unit {o : SubOp} (h : o.unit = .div) : ∃ op, o = .div op := by
  cases o
  case div op => exact ⟨op, rfl⟩
  all_goals cases h

theorem SubOp.mul_of_unit {o : SubOp} (h : o.unit = .mul) : ∃ op, o = .mul op := by
  cases o
  case mul op => exact ⟨op, rfl⟩
  all_goals cases h

theorem alu_same (h : SameOperands rev s) (hu : rev.opUnit = .alu) (hm : m.pc = s.pc + 4) :
    SameEffect m.csr (aluCompute rev) (Isa.executeAlu s) m := by
  obtain ⟨op, hop⟩ := SubOp.alu_of_unit (h.unit.trans hu)
  have hsop : s.subOp = .alu op := by rw [← h.subOp, hop]; rfl
  have hcompute : aluCompute rev = aluOutcome rev op (ExecuteWbPack.copy rev) := by
    unfold aluCompute
    rw [h.enable, h.valid.1, h.hasException.1, hop]
    rfl
  have hexecute : Isa.executeAlu s = Isa.aluSwitch s op := by
    unfold Isa.executeAlu
    rw [h.valid.2, h.hasException.2, hsop]
    rfl
  have hb : rev.opUnit ≠ .bru := by
    rw [hu]
    exact OpUnit.noConfusion
  have hexc : rev.hasException = s.hasException :=
    h.hasException.1.trans h.hasException.2.symm
  rw [hcompute, hexecute]
  cases op
  all_goals
    refine h.effect ⟨rfl, rfl, rfl, rfl⟩ ⟨rfl, rfl⟩ ?_ ?_ rfl (h.inline hm rfl rfl hb)
  all_goals first
    | rfl
    | exact hexc
    | simp only [aluOutcome, Isa.aluSwitch, signedLt, h.src1Value, h.src2Value, h.imm, h.pc]

theorem div_same (h : SameOperands rev s) (hu : rev.opUnit = .div) (hm : m.pc = s.pc + 4) :
    ∃ s', Isa.executeDiv s = some s' ∧ SameEffect m.csr (divCompute rev) s' m := by
  obtain ⟨op, hop⟩ := SubOp.div_of_unit (h.unit.trans hu)
  have hsop : s.subOp = .div op := by rw [← h.subOp, hop]; rfl
  have hcompute : divCompute rev = divOutcome rev op (ExecuteWbPack.copy rev) := by
    unfold divCompute
    rw [h.enable, hop]
  have hexecute : Isa.executeDiv s = some (Isa.divSwitch s op) := by
    unfold Isa.executeDiv
    rw [h.valid.2, h.hasException.2, hsop]
    rfl
  have hb : rev.opUnit ≠ .bru := by
    rw [hu]
    exact OpUnit.noConfusion
  have hexc : rev.hasException = s.hasException :=
    h.hasException.1.trans h.hasException.2.symm
  refine ⟨_, hexecute, ?_⟩
  rw [hcompute]
  cases op
  all_goals
    refine h.effect ⟨rfl, rfl, rfl, rfl⟩ ⟨rfl, rfl⟩ hexc ?_ rfl (h.inline hm rfl rfl hb)
    simp only [divOutcome, Isa.divSwitch, h.src1Value, h.src2Value]

theorem mul_same (h : SameOperands rev s) (hu : rev.opUnit = .mul) (hm : m.pc = s.pc + 4) :
    ∃ s', Isa.executeMul s = some s' ∧ SameEffect m.csr (mulCompute rev) s' m := by
  obtain ⟨op, hop⟩ := SubOp.mul_of_unit (h.unit.trans hu)
  have hsop : s.subOp = .mul op := by rw [← h.subOp, hop]; rfl
  have hcompute : mulCompute rev = mulOutcome rev op (ExecuteWbPack.copy rev) := by
    unfold mulCompute
    rw [h.enable, hop]
  have hexecute : Isa.executeMul s = some (Isa.mulSwitch s op) := by
    unfold Isa.executeMul
    rw [h.valid.2, h.hasException.2, hsop]
    rfl
  have hb : rev.opUnit ≠ .bru := by
    rw [hu]
    exact OpUnit.noConfusion
  have hexc : rev.hasException = s.hasException :=
    h.hasException.1.trans h.hasException.2.symm
  refine ⟨_, hexecute, ?_⟩
  rw [hcompute]
  cases op
  all_goals
    refine h.effect ⟨rfl, rfl, rfl, rfl⟩ ⟨rfl, rfl⟩ hexc ?_ rfl (h.inline hm rfl rfl hb)
    simp only [mulOutcome, Isa.mulSwitch, highWord, h.src1Value, h.src2Value]

/-- The two switches over the branches, side by side. -/
theorem bruSwitch_same (h : SameOperands rev s) (op : BruOp) (hmret : op ≠ .mret)
    {send : ExecuteWbPack} (hsend : send = bruOutcome csr.regs rev op
      { ExecuteWbPack.copy rev with bruNextPc := rev.pc + rev.imm }) :
    send.bruJump = (Isa.bruSwitch s csr op).1
      ∧ send.bruNextPc = (Isa.bruSwitch s csr op).2.1
      ∧ send.rdValue = (Isa.bruSwitch s csr op).2.2.1.rdValue
      ∧ (Isa.bruSwitch s csr op).2.2.2 = csr
      ∧ (Isa.bruSwitch s csr op).2.2.1.rd = s.rd
      ∧ (Isa.bruSwitch s csr op).2.2.1.rdEnable = s.rdEnable
      ∧ (Isa.bruSwitch s csr op).2.2.1.hasException = s.hasException
      ∧ send.toReadregExecutePack = rev := by
  subst hsend
  cases op
  case mret => exact absurd rfl hmret
  all_goals
    simp only [bruOutcome, Isa.bruSwitch, signedLt, ExecuteWbPack.copy, h.src1Value, h.src2Value,
      h.imm, h.pc, h.rdValue, and_self]

/-- The branch unit reports where a branch goes, the ISA model goes there. -/
theorem bru_same (h : SameOperands rev s) (hu : rev.opUnit = .bru) (hm : m.pc = s.pc + 4)
    (hmret : rev.subOp ≠ .bru .mret) :
    ∃ s' m', Isa.executeBru s m = some (s', m')
      ∧ SameEffect m.csr (bruCompute m.csr.regs rev) s' m' := by
  obtain ⟨op, hop⟩ := SubOp.bru_of_unit (h.unit.trans hu)
  have hsop : s.subOp = .bru op := by rw [← h.subOp, hop]; rfl
  generalize hsend : bruOutcome m.csr.regs rev op
    { ExecuteWbPack.copy rev with bruNextPc := rev.pc + rev.imm } = send
  have hcompute : bruCompute m.csr.regs rev
      = if send.bruJump then send else { send with bruNextPc := rev.pc + 4 } := by
    unfold bruCompute
    rw [h.enable, hop, ← hsend]
  have hop' : op ≠ .mret := by
    intro hm
    rw [hm] at hop
    exact hmret hop
  obtain ⟨hjump, hnext, hvalue, hcsr, hrd, hrdEnable, hx, hrev⟩ :=
    bruSwitch_same h op hop' hsend.symm
  generalize hswitch : Isa.bruSwitch s m.csr op = switch at hjump hnext hvalue hcsr hrd hrdEnable hx
  obtain ⟨jump, next, t, csr⟩ := switch
  have hexecute : Isa.executeBru s m
      = some (t, { m with pc := if jump then next else m.pc, csr := csr }) := by
    unfold Isa.executeBru
    rw [h.valid.2, h.hasException.2, hsop]
    simp only [hswitch]
    rfl
  obtain ⟨rev', value, jump', next', newvalue, newvalueValid⟩ := send
  obtain rfl : rev' = rev := hrev
  obtain rfl : jump' = jump := hjump
  obtain rfl : next' = next := hnext
  have hexc : rev'.hasException = t.hasException :=
    h.hasException.1.trans (hx.trans h.hasException.2).symm
  refine ⟨_, _, hexecute, ?_⟩
  rw [hcompute]
  cases jump' with
  | true =>
    rw [if_pos rfl, if_pos rfl]
    refine h.effect ⟨rfl, rfl, rfl, rfl⟩ ⟨hrd, hrdEnable⟩ hexc hvalue hcsr.symm ?_
    intro hx
    unfold ExecuteWbPack.nextPc
    rw [if_neg (ne_true_of_eq_false hx), if_pos hu]
  | false =>
    rw [if_neg Bool.false_ne_true, if_neg Bool.false_ne_true]
    refine h.effect ⟨rfl, rfl, rfl, rfl⟩ ⟨hrd, hrdEnable⟩ hexc hvalue hcsr.symm ?_
    intro hx
    unfold ExecuteWbPack.nextPc
    rw [if_neg (ne_true_of_eq_false hx), if_pos hu]
    exact (congrArg (· + 4) h.pc).trans hm.symm

/-- Rename and register read leave the operation alone. -/
theorem readreg_computes (p : DecodeRenamePack) (rest : OpInfo) (rs1Value rs2Value : Word) :
    (readreg (p.renamed rest) rs1Value rs2Value).computes = p.computes := by
  unfold readreg
  split <;> rfl

/-- **Operand for operand, the unit and the execute function have the same effect.** -/
theorem execute_same (h : SameOperands rev s) (hc : rev.computes = true) (hm : m.pc = s.pc + 4) :
    ∃ send s' m', integerExecute m.csr rev = some send ∧ Isa.executeUnit s m = some (s', m')
      ∧ SameEffect m.csr send s' m' := by
  have hisa := h.opUnit
  unfold DecodeRenamePack.computes at hc
  simp only [Bool.and_eq_true, bne_iff_ne, ne_eq] at hc
  unfold integerExecute Isa.executeUnit
  rw [← hisa]
  cases hu : rev.opUnit with
  | alu => exact ⟨_, _, m, rfl, rfl, alu_same h hu hm⟩
  | bru =>
    obtain ⟨s', m', hrun, hsame⟩ := bru_same h hu hm hc.2
    exact ⟨_, s', m', rfl, hrun, hsame⟩
  | div =>
    obtain ⟨s', hrun, hsame⟩ := div_same h hu hm
    exact ⟨_, s', m, rfl, by rw [OpUnit.toIsa, hrun]; rfl, hsame⟩
  | mul =>
    obtain ⟨s', hrun, hsame⟩ := mul_same h hu hm
    exact ⟨_, s', m, rfl, by rw [OpUnit.toIsa, hrun]; rfl, hsame⟩
  | _ => simp [hu] at hc

/-! ## Every word -/

/-- No case of the switch touches the program counter or the word. -/
theorem Isa.decodeSwitch_keeps (w : Word) (s : Isa.State) :
    (Isa.decodeSwitch w s).pc = s.pc ∧ (Isa.decodeSwitch w s).value = s.value := by
  unfold Isa.decodeSwitch
  split
  case h_5 => unfold Isa.decodeBranch; dsimp only; split <;> exact ⟨rfl, rfl⟩
  case h_6 => unfold Isa.decodeLoad; dsimp only; split <;> exact ⟨rfl, rfl⟩
  case h_7 => unfold Isa.decodeStore; dsimp only; split <;> exact ⟨rfl, rfl⟩
  case h_8 => unfold Isa.decodeOpImm; dsimp only; split <;> exact ⟨rfl, rfl⟩
  case h_9 => unfold Isa.decodeOpReg; dsimp only; split <;> exact ⟨rfl, rfl⟩
  case h_10 =>
    unfold Isa.decodeFence
    split
    · split <;> exact ⟨rfl, rfl⟩
    · split <;> exact ⟨rfl, rfl⟩
    · exact ⟨rfl, rfl⟩
  case h_11 =>
    unfold Isa.decodeSystem
    split
    case h_1 =>
      split
      · split <;> exact ⟨rfl, rfl⟩
      · exact ⟨rfl, rfl⟩
    all_goals exact ⟨rfl, rfl⟩
  all_goals exact ⟨rfl, rfl⟩

theorem Isa.decode_pc (s : Isa.State) : (Isa.decode s).pc = s.pc :=
  (Isa.decodeSwitch_keeps s.value (Isa.decodeStart s)).1

/-- **The two models agree on every word.** They call the same words legal and decode a legal one
to the same operation, operands, immediate, CSR number and destination; and what is computed
from the operands alone they compute to the same destination, value and next program counter. -/
theorem models_agree (w pc : Word) (pack : BranchPredictorInfoPack) (rest : OpInfo)
    (m : Isa.Model) :
    (decode (fetched pc w pack)).valid = (Isa.decode (Isa.fetched pc w)).valid
      ∧ ((decode (fetched pc w pack)).valid = true →
        SameDecode (decode (fetched pc w pack)) (Isa.decode (Isa.fetched pc w)))
      ∧ ((decode (fetched pc w pack)).valid = true →
        (decode (fetched pc w pack)).computes = true →
        ∃ send s' m',
          integerExecute m.csr (readreg ((decode (fetched pc w pack)).renamed rest)
            (m.archRegfile.read (decode (fetched pc w pack)).rs1)
            (m.archRegfile.read (decode (fetched pc w pack)).rs2)) = some send
          ∧ Isa.executeUnit (Isa.readOperands (Isa.decode (Isa.fetched pc w)) m.archRegfile)
            { m with pc := pc + 4 } = some (s', m')
          ∧ SameEffect m.csr send s' m') := by
  refine ⟨?_, decode_same, ?_⟩
  · rw [decode_valid]
    exact (switch_same pc w pack).valid
  · intro hv hcomputes
    have hsame := decode_same hv
    have hoperands := readreg_same m.archRegfile rest (decode_issuable hv) hsame
    have hpc : (Isa.readOperands (Isa.decode (Isa.fetched pc w)) m.archRegfile).pc = pc := by
      refine Eq.trans ?_ (Isa.decode_pc (Isa.fetched pc w))
      unfold Isa.readOperands
      split <;> rfl
    exact execute_same (m := { m with pc := pc + 4 }) hoperands
      ((readreg_computes ..).trans hcomputes) (congrArg (· + 4) hpc.symm)

end DreamCore
