import DreamCore.Isa.Agreement
import DreamCore.Pipeline.Commit
import DreamCore.Pipeline.Rename

/-!
# The CSR instructions

What the six CSR instructions should do, and what the two models make of them.
Both decide whether an instruction writes by one test on the source of its operand:
a register operand that is register 0 means no write. That is the rule of `csrrs`
and `csrrc` alone. `csrrw` always writes; and the immediate forms never take the
branch, so `csrrsi` and `csrrci` with a zero immediate write as well.

The counters and the pending-interrupt bits that `cycle_model::run` refreshes at the
end of a cycle are not the doing of an instruction and play no part here.
-/

namespace DreamCore

/-- What a CSR instruction did: the exception it raised, the value its destination
register got, the file it left. -/
structure CsrEffect where
  exception : Option RiscvException
  rd : Option Word
  csr : CsrBank

/-- The effect of an illegal instruction. -/
def CsrEffect.illegal (csr : CsrBank) : CsrEffect := ⟨some .illegalInstruction, none, csr⟩

/-! ## What the instructions are for -/

/-- A CSR instruction word. -/
def isZicsr (w : Word) : Bool :=
  opcodeOf w == 0x73 && funct3Of w != 0 && funct3Of w != 4

/-- Whether a CSR instruction writes: replacing always does, setting and clearing do unless
the field that names the operand is zero. -/
def zicsrWrites (w : Word) : Bool := funct3Of w % 4 == 1 || rs1Of w != 0

/-- The operand of a CSR instruction. -/
def zicsrOperand (w rs1Value : Word) : Word :=
  if funct3Of w < 4 then rs1Value else BitVec.ofNat 32 (rs1Of w)

/-- Replace, set or clear. -/
def zicsrCombine (w old operand : Word) : Word :=
  if funct3Of w % 4 = 1 then operand
  else if funct3Of w % 4 = 2 then old ||| operand
  else old &&& ~~~operand

/-- **The CSR instructions as the instruction set defines them**, over the CSRs of `t`. -/
def zicsr (t : CsrTable) (csr : CsrBank) (w rs1Value : Word) : CsrEffect :=
  let addr := (immI w).toNat
  if !t.mapped addr || (zicsrWrites w && t.readonly addr) then .illegal csr
  else
    { exception := none
      rd := if rdOf w = 0 then none else some (csr.value addr)
      csr :=
        if zicsrWrites w then
          csr.store addr (zicsrCombine w (csr.value addr) (zicsrOperand w rs1Value))
        else csr }

/-! ## What the models do -/

/-- What commit does to the CSR file with the ROB entry of a CSR instruction. -/
def commitCsr (csr : CsrBank) (item : RobItem) : CsrBank :=
  if item.hasException then csr
  else if item.csrNewvalueValid then (cycleCsrTable.write csr item.csrAddr item.csrNewvalue).2
  else csr

/-- The effect of one result of the CSR unit and of the ROB entry it was merged into. -/
def ExecuteWbPack.csrEffect (csr : CsrBank) (item : RobItem) (send : ExecuteWbPack) : CsrEffect :=
  let item := item.applyResult send
  { exception := if item.hasException then some item.exceptionId else none
    rd := send.writes
    csr := commitCsr csr item }

/-- The effect of one instruction in the ISA model. -/
def Isa.State.csrEffect (s : Isa.State) (m : Isa.Model) : CsrEffect where
  exception := if s.hasException then some s.exceptionId else none
  rd := if s.writes then some s.rdValue else none
  csr := m.csr

/-- What both models compute from a decoded CSR instruction. -/
def csrMade (t : CsrTable) (csr : CsrBank) (s : Isa.State) (op : CsrOp) : CsrEffect :=
  let old := (t.read csr s.csr).2
  let rd := if s.rdEnable && decide (s.rd ≠ 0) then some old else none
  if s.rdEnable && decide (s.rd ≠ 0) && !t.mapped s.csr then .illegal csr
  else if s.arg1Src == .reg && decide (s.rs1 = 0) then ⟨none, rd, csr⟩
  else if !t.writeCheck s.csr then .illegal csr
  else ⟨none, rd, csr.store s.csr (csrOutcome op old s.src1Value)⟩

/-! ## From the models to their common shape -/

variable {rev : ReadregExecutePack} {s : Isa.State} {csr : CsrBank} {item : RobItem}

theorem csrEffect_raised {send : ExecuteWbPack} (hitem : item.hasException = false)
    (hx : send.hasException = true) :
    send.csrEffect csr item = ⟨some send.exceptionId, none, csr⟩ := by
  simp only [ExecuteWbPack.csrEffect, RobItem.applyResult, commitCsr, ExecuteWbPack.writes, hitem,
    hx, Bool.not_true, Bool.and_false, Bool.false_and, Bool.false_eq_true, if_true, if_false]

theorem csrEffect_done {send : ExecuteWbPack} (hitem : item.hasException = false)
    (he : send.enable = true) (hv : send.valid = true) (hx : send.hasException = false) :
    send.csrEffect csr item
      = { exception := none
          rd := if send.needRename then some send.rdValue else none
          csr :=
            if send.csrNewvalueValid then
              (cycleCsrTable.write csr item.csrAddr send.csrNewvalue).2
            else csr } := by
  simp only [ExecuteWbPack.csrEffect, RobItem.applyResult, commitCsr, ExecuteWbPack.writes, hitem,
    he, hv, hx, Bool.not_false, Bool.and_true, Bool.true_and, Bool.false_eq_true, if_false]

theorem csrCompute_effect (h : SameOperands rev s) {op : CsrOp} (hop : rev.subOp = .csr op)
    (hitem : item.hasException = false) (hcsr : item.csrAddr = rev.csr) :
    (csrCompute csr rev).csrEffect csr item = csrMade cycleCsrTable csr s op := by
  have hcompute : csrCompute csr rev = csrExecute csr rev op (ExecuteWbPack.copy rev) := by
    unfold csrCompute
    rw [h.enable, hop]
  have hread : (cycleCsrTable.read csr s.csr).1 = cycleCsrTable.mapped s.csr := by
    unfold CsrTable.read
    cases cycleCsrTable.mapped s.csr <;> rfl
  have hx := h.hasException.1
  have hwrites : rev.enable = true ∧ rev.valid = true := ⟨h.enable, h.valid.1⟩
  rw [hcompute]
  unfold csrExecute csrMade
  rw [← hread, ← h.needRename, ← h.csr, ← h.src1Value, ← h.unread]
  generalize cycleCsrTable.read csr rev.csr = r
  obtain ⟨readRet, old⟩ := r
  dsimp only
  -- no right to read, then no wish to write, then no right to write
  by_cases hr : (rev.needRename && !readRet) = true
  · rw [if_pos hr, if_pos hr]
    exact csrEffect_raised hitem rfl
  · rw [if_neg hr, if_neg hr]
    cases hu : (rev.arg1Src == .reg && !rev.rs1NeedMap) with
    | true =>
      rw [if_neg (by simp [ExecuteWbPack.copy, hu]), if_pos rfl]
      rw [csrEffect_done hitem h.enable h.valid.1 hx]
      rfl
    | false =>
      rw [if_pos (by simp [ExecuteWbPack.copy, hu]), if_neg Bool.false_ne_true]
      cases hw : cycleCsrTable.writeCheck rev.csr with
      | false => exact csrEffect_raised hitem rfl
      | true =>
        have hstore (value : Word) : (cycleCsrTable.write csr item.csrAddr value).2
            = csr.store rev.csr value := by
          unfold CsrTable.write
          rw [hcsr, hw]
          rfl
        rw [← hstore]
        exact csrEffect_done hitem h.enable h.valid.1 hx

/-- The switch over the operation is written a second time as well. -/
theorem csrSwitch_same (op : CsrOp) (old src1Value : Word) :
    Isa.csrSwitch op old src1Value = csrOutcome op old src1Value := by
  cases op <;> rfl

theorem executeCsr_effect (m : Isa.Model) {op : CsrOp} (hop : s.subOp = .csr op)
    (hv : s.valid = true) (hx : s.hasException = false) :
    (Isa.executeCsr s m).map (fun r => r.1.csrEffect r.2)
      = some (csrMade isaCsrTable m.csr s op) := by
  have hexecute : Isa.executeCsr s m = some (Isa.csrBody s m op) := by
    unfold Isa.executeCsr
    rw [hv, hx, hop]
    rfl
  have hread : (isaCsrTable.read m.csr s.csr).1 = isaCsrTable.mapped s.csr := by
    unfold CsrTable.read
    cases isaCsrTable.mapped s.csr <;> rfl
  have hplain {t : Isa.State} {m' : Isa.Model} (ht : t.hasException = false) :
      t.csrEffect m' = ⟨none, if t.rdEnable && decide (t.rd ≠ 0) then some t.rdValue else none,
        m'.csr⟩ := by
    simp only [Isa.State.csrEffect, Isa.State.writes, ht, Bool.not_false, Bool.true_and,
      Bool.false_eq_true, if_false]
  rw [hexecute, Option.map_some]
  unfold Isa.csrBody csrMade CsrTable.write
  rw [← hread]
  generalize isaCsrTable.read m.csr s.csr = r
  obtain ⟨readRet, old⟩ := r
  dsimp only
  by_cases hr : (s.rdEnable && decide (s.rd ≠ 0) && !readRet) = true
  · rw [if_pos hr, if_pos hr]
    rfl
  · rw [if_neg hr, if_neg hr]
    cases hu : (s.arg1Src == .reg && decide (s.rs1 = 0)) with
    | true =>
      rw [if_neg (by simp), if_pos rfl]
      exact congrArg some (hplain hx)
    | false =>
      rw [if_pos (by simp), if_neg Bool.false_ne_true, csrSwitch_same]
      cases isaCsrTable.writeCheck s.csr with
      | false => rfl
      | true => exact congrArg some (hplain hx)

/-! ## When that is what the instructions are for -/

/-- A CSR that is mapped, may be written and holds `value` already, so that writing `value`
changes nothing. Nothing written to the character queue leaves it alone. -/
def CsrTable.settled (t : CsrTable) (csr : CsrBank) (addr : Nat) (value : Word) : Prop :=
  t.readonly addr = false ∧ addr ≠ csrCharfifo ∧ csrFilter addr value = csr.regs addr

/-- **The accesses the models get right**: those with an operand field that is not zero, every
`csrrwi`, and the others where the missing or the surplus write makes no difference. -/
def csrRegular (t : CsrTable) (csr : CsrBank) (w : Word) : Prop :=
  let addr := (immI w).toNat
  rs1Of w = 0 →
    match funct3Of w with
    | 1 => if t.mapped addr then t.settled csr addr 0 else rdOf w ≠ 0
    | 2 | 3 => t.mapped addr = true ∨ rdOf w ≠ 0
    | 5 => True
    | _ => t.mapped addr = true → t.settled csr addr (csr.value addr)

/-- A CSR instruction as the decoder and the operand switch of the ISA model leave it. -/
structure DecodesCsr (w rs1Value : Word) (s : Isa.State) (op : CsrOp) : Prop where
  subOp : s.subOp = .csr op
  opUnit : s.opUnit = .csr
  valid : s.valid = true
  hasException : s.hasException = false
  csr : s.csr = (immI w).toNat
  rd : (s.rdEnable && decide (s.rd ≠ 0)) = decide (rdOf w ≠ 0)
  unread : (s.arg1Src == .reg && decide (s.rs1 = 0)) = decide (funct3Of w < 4 ∧ rs1Of w = 0)
  outcome : ∀ old, csrOutcome op old s.src1Value = zicsrCombine w old (zicsrOperand w rs1Value)

theorem funct3Of_lt (w : Word) : funct3Of w < 8 := (w.extractLsb' 12 3).isLt

theorem isZicsr_iff {w : Word} : isZicsr w = true ↔ opcodeOf w = 0x73 ∧ (funct3Of w = 1
    ∨ funct3Of w = 2 ∨ funct3Of w = 3 ∨ funct3Of w = 5 ∨ funct3Of w = 6 ∨ funct3Of w = 7) := by
  have hlt := funct3Of_lt w
  simp only [isZicsr, Bool.and_eq_true, beq_iff_eq, bne_iff_ne]
  omega

theorem decode_system {w : Word} (hopcode : opcodeOf w = 0x73) (pc : Word) :
    Isa.decode (Isa.fetched pc w)
      = Isa.decodeSystem w (Isa.decodeStart (Isa.fetched pc w)) := by
  unfold Isa.decode Isa.decodeSwitch
  rw [show (Isa.fetched pc w).value = w from rfl, hopcode]
  rfl

/-- What the two CSR cases of the switch set, after the operand switch. -/
theorem decodeCsrReg_decodes (w pc : Word) (op : Op) (subOp : CsrOp) (regs : Isa.ArchRegfile)
    (hf : funct3Of w < 4)
    (hop : ∀ old v, csrOutcome subOp old v = zicsrCombine w old v) :
    DecodesCsr w (regs.read (rs1Of w))
      (Isa.readOperands (Isa.decodeCsrReg w op subOp (Isa.decodeStart (Isa.fetched pc w))) regs)
      subOp where
  subOp := rfl
  opUnit := rfl
  valid := rfl
  hasException := rfl
  csr := rfl
  rd := rfl
  unread := by
    show (ArgSrc.reg == .reg && decide (rs1Of w = 0)) = _
    simp [hf]
  outcome old := by
    rw [zicsrOperand, if_pos hf]
    exact hop old _

theorem decodeCsrImm_decodes (w pc : Word) (op : Op) (subOp : CsrOp) (regs : Isa.ArchRegfile)
    (hf : ¬funct3Of w < 4)
    (hop : ∀ old v, csrOutcome subOp old v = zicsrCombine w old v) :
    DecodesCsr w (regs.read (rs1Of w))
      (Isa.readOperands (Isa.decodeCsrImm w op subOp (Isa.decodeStart (Isa.fetched pc w))) regs)
      subOp where
  subOp := rfl
  opUnit := rfl
  valid := rfl
  hasException := rfl
  csr := rfl
  rd := rfl
  unread := by
    show (ArgSrc.imm == .reg && decide (rs1Of w = 0)) = _
    simp [hf]
  outcome old := by
    rw [zicsrOperand, if_neg hf]
    exact hop old _

theorem decode_csr {w : Word} (hw : isZicsr w = true) (pc : Word) (regs : Isa.ArchRegfile) :
    ∃ op, DecodesCsr w (regs.read (rs1Of w))
      (Isa.readOperands (Isa.decode (Isa.fetched pc w)) regs) op := by
  obtain ⟨hopcode, hf⟩ := isZicsr_iff.mp hw
  rw [decode_system hopcode]
  unfold Isa.decodeSystem
  -- the operation of the unit is the one `funct3` stands for
  rcases hf with hf | hf | hf | hf | hf | hf <;> rw [hf]
  case inl | inr.inl | inr.inr.inl =>
    exact ⟨_, decodeCsrReg_decodes w pc _ _ regs (by omega)
      (by simp [csrOutcome, zicsrCombine, hf])⟩
  all_goals
    exact ⟨_, decodeCsrImm_decodes w pc _ _ regs (by omega)
      (by simp [csrOutcome, zicsrCombine, hf])⟩

theorem CsrBank.store_eq_iff {csr : CsrBank} {addr : Nat} {value : Word}
    (hq : addr = csrCharfifo → csr.queues.write value ≠ csr.queues) :
    csr.store addr value = csr ↔ addr ≠ csrCharfifo ∧ csrFilter addr value = csr.regs addr := by
  constructor
  · intro h
    have hqueues : (csr.store addr value).queues = csr.queues := by rw [h]
    have hregs : (csr.store addr value).regs addr = csr.regs addr := by rw [h]
    refine ⟨fun haddr => ?_, ?_⟩
    · unfold store at hqueues
      rw [if_pos haddr] at hqueues
      exact hq haddr hqueues
    · rw [← hregs]
      exact (Function.update_self addr (csrFilter addr value) csr.regs).symm
  · intro ⟨haddr, hvalue⟩
    unfold store CsrFile.writeSys
    rw [if_neg haddr, hvalue, Function.update_eq_self]

/-- Writing zero to the queue sends a character. -/
theorem CharFifo.write_zero (q : CharFifo) : q.write 0 ≠ q := by
  intro h
  have hsend : (q.write 0).send.length = q.send.length := by rw [h]
  simp [CharFifo.write] at hsend

/-- Writing back what was read takes the character that was read, or sends one. -/
theorem CharFifo.write_read (q : CharFifo) : q.write q.read ≠ q := by
  obtain ⟨send, rev⟩ := q
  intro h
  cases rev with
  | nil => exact CharFifo.write_zero _ h
  | cons ch rev =>
    have hrev : (CharFifo.write ⟨send, ch :: rev⟩ (CharFifo.read ⟨send, ch :: rev⟩)).rev.length
        = (ch :: rev).length := by rw [h]
    have hbit : (CharFifo.read ⟨send, ch :: rev⟩).getLsbD 31 = true := by
      simp [CharFifo.read]
    simp [CharFifo.write, hbit] at hrev

theorem CsrTable.settled_iff_zero {t : CsrTable} {csr : CsrBank} {addr : Nat} :
    t.settled csr addr 0 ↔ t.readonly addr = false ∧ csr.store addr 0 = csr := by
  unfold settled
  rw [CsrBank.store_eq_iff fun _ => CharFifo.write_zero _]

theorem CsrTable.settled_iff_value {t : CsrTable} {csr : CsrBank} {addr : Nat} :
    t.settled csr addr (csr.value addr)
      ↔ t.readonly addr = false ∧ csr.store addr (csr.value addr) = csr := by
  unfold settled
  rw [CsrBank.store_eq_iff]
  intro haddr
  have hvalue : csr.value addr = csr.queues.read := if_pos haddr
  rw [hvalue]
  exact CharFifo.write_read _

/-- With a zero operand field, replacing replaces by zero, setting and clearing change nothing. -/
theorem zicsrCombine_zero {w v : Word} (hz : rs1Of w = 0) (hv : v = 0) (old : Word) :
    zicsrCombine w old (zicsrOperand w v)
      = if funct3Of w % 4 = 1 then 0 else old := by
  have hoperand : zicsrOperand w v = 0 := by
    rw [zicsrOperand, hv, hz]
    split <;> rfl
  rw [zicsrCombine, hoperand]
  split
  · rfl
  · split
    · exact BitVec.or_zero
    · exact BitVec.and_allOnes

/-- **The common shape meets the definition exactly at the regular accesses.** -/
theorem csrMade_iff {t : CsrTable} {w v : Word} {op : CsrOp} (hw : isZicsr w = true)
    (hv : rs1Of w = 0 → v = 0) (h : DecodesCsr w v s op) :
    csrMade t csr s op = zicsr t csr w v ↔ csrRegular t csr w := by
  obtain ⟨-, hf⟩ := isZicsr_iff.mp hw
  unfold csrMade zicsr csrRegular CsrTable.writeCheck CsrTable.read
  rw [h.rd, h.unread, h.csr]
  simp only [h.outcome, CsrTable.settled_iff_zero, CsrTable.settled_iff_value]
  generalize (immI w).toNat = addr
  by_cases hz : rs1Of w = 0
  · -- the six opcodes, and what is mapped, writable and asked for
    rw [zicsrCombine_zero hz (hv hz), zicsrCombine_zero hz (hv hz)]
    rcases hf with hf | hf | hf | hf | hf | hf
    all_goals
      cases t.mapped addr <;> cases t.readonly addr <;> by_cases hrd : rdOf w = 0 <;>
        simp [hf, hz, hrd, zicsrWrites, CsrEffect.illegal, eq_comm]
  · -- both write
    cases t.mapped addr <;> cases t.readonly addr <;> by_cases hrd : rdOf w = 0 <;>
      simp [hz, hrd, zicsrWrites, CsrEffect.illegal]

/-! ## Both models -/

/-- The effect of a CSR instruction in the cycle model: decoded, given the values of its
registers, executed, merged into its ROB entry and retired. -/
def cycleCsrEffect (m : Isa.Model) (pc w : Word) (pack : BranchPredictorInfoPack) (rest : OpInfo)
    (before mapped : Core) (oldPhy rdPhy : Nat) : CsrEffect :=
  let p := decode (fetched pc w pack)
  (csrCompute m.csr
    (readreg (p.renamed rest) (m.archRegfile.read p.rs1) (m.archRegfile.read p.rs2))).csrEffect
      m.csr (renameRobItem before mapped p oldPhy rdPhy)

/-- The effect of a CSR instruction in the ISA model. -/
def isaCsrEffect (m : Isa.Model) (pc w : Word) : Option CsrEffect :=
  (Isa.executeUnit (Isa.readOperands (Isa.decode (Isa.fetched pc w)) m.archRegfile) m).map
    fun r => r.1.csrEffect r.2

theorem isaCsrEffect_made (m : Isa.Model) (pc : Word) {w : Word} {op : CsrOp}
    (h : DecodesCsr w (m.archRegfile.read (rs1Of w))
      (Isa.readOperands (Isa.decode (Isa.fetched pc w)) m.archRegfile) op) :
    isaCsrEffect m pc w = some (csrMade isaCsrTable m.csr
      (Isa.readOperands (Isa.decode (Isa.fetched pc w)) m.archRegfile) op) := by
  unfold isaCsrEffect Isa.executeUnit
  rw [h.opUnit]
  exact executeCsr_effect m h.subOp h.valid h.hasException

theorem cycleCsrEffect_made (m : Isa.Model) (pc : Word) {w : Word} (pack : BranchPredictorInfoPack)
    (rest : OpInfo) (before mapped : Core) (oldPhy rdPhy : Nat) {op : CsrOp}
    (h : DecodesCsr w (m.archRegfile.read (rs1Of w))
      (Isa.readOperands (Isa.decode (Isa.fetched pc w)) m.archRegfile) op) :
    cycleCsrEffect m pc w pack rest before mapped oldPhy rdPhy = csrMade cycleCsrTable m.csr
      (Isa.readOperands (Isa.decode (Isa.fetched pc w)) m.archRegfile) op := by
  have hv : (decode (fetched pc w pack)).valid = true := by
    rw [decode_valid, (switch_same pc w pack).valid, ← h.valid]
    unfold Isa.readOperands
    split <;> rfl
  have hissue := decode_issuable hv
  have hoperands := readreg_same m.archRegfile rest hissue (decode_same hv)
  refine csrCompute_effect hoperands ?_ hissue.hasException ?_
  · have hsub := hoperands.subOp.trans h.subOp
    generalize (readreg ((decode (fetched pc w pack)).renamed rest) _ _).subOp = o at hsub ⊢
    cases o
    case csr op' => exact congrArg SubOp.csr (Isa.SubOp.csr.inj hsub)
    case lu op' => cases op' <;> cases hsub
    case sau op' => cases op' <;> cases hsub
    case sdu op' => cases op' <;> cases hsub
    all_goals cases hsub
  · unfold readreg
    split <;> rfl

/-- **The CSR instructions, exactly.** Both models do with a CSR instruction what the
instruction set defines, if and only if the access is regular for both tables. -/
theorem zicsr_iff (m : Isa.Model) (pc w : Word) (pack : BranchPredictorInfoPack) (rest : OpInfo)
    (before mapped : Core) (oldPhy rdPhy : Nat) (hw : isZicsr w = true) :
    (cycleCsrEffect m pc w pack rest before mapped oldPhy rdPhy
        = zicsr cycleCsrTable m.csr w (m.archRegfile.read (rs1Of w))
      ∧ isaCsrEffect m pc w
        = some (zicsr isaCsrTable m.csr w (m.archRegfile.read (rs1Of w))))
      ↔ csrRegular cycleCsrTable m.csr w ∧ csrRegular isaCsrTable m.csr w := by
  obtain ⟨op, h⟩ := decode_csr hw pc m.archRegfile
  have hzero : rs1Of w = 0 → m.archRegfile.read (rs1Of w) = 0 := by
    intro hz
    rw [hz]
    exact m.archRegfile.zero
  rw [isaCsrEffect_made m pc h, cycleCsrEffect_made m pc pack rest before mapped oldPhy rdPhy h,
    Option.some_inj, csrMade_iff hw hzero h, csrMade_iff hw hzero h]

/-- A machine whose registers and CSRs hold zero, but for `mscratch`. -/
def scratchModel (mscratch : Word) : Isa.Model where
  pc := 0
  archRegfile := ⟨fun _ => 0, rfl⟩
  csr := ⟨Function.update CsrFile.reset 0x340 mscratch, {}⟩
  mem := fun _ => 0
  clint := {}

/-- **`csrrw x0, mscratch, x0` does not clear `mscratch`**, in neither model. -/
theorem csrrw_zero_keeps :
    isZicsr 0x34001073 = true
      ∧ cycleCsrEffect (scratchModel 5) 0 0x34001073 {} {} Core.reset Core.reset 0 0
        ≠ zicsr cycleCsrTable (scratchModel 5).csr 0x34001073 0
      ∧ isaCsrEffect (scratchModel 5) 0 0x34001073
        ≠ some (zicsr isaCsrTable (scratchModel 5).csr 0x34001073 0) := by
  refine ⟨by decide, fun h => ?_, fun h => ?_⟩
  · have hvalue := congrArg (fun e => e.csr.regs 0x340) h
    revert hvalue
    decide
  · have hvalue := congrArg (fun e => e.map fun e => e.csr.regs 0x340) h
    revert hvalue
    decide

/-- `csrrs x0, mscratch, x2` is regular. -/
theorem zicsr_csrrs :
    isZicsr 0x34012073 = true
      ∧ cycleCsrEffect (scratchModel 5) 0 0x34012073 {} {} Core.reset Core.reset 0 0
        = zicsr cycleCsrTable (scratchModel 5).csr 0x34012073 0
      ∧ isaCsrEffect (scratchModel 5) 0 0x34012073
        = some (zicsr isaCsrTable (scratchModel 5).csr 0x34012073 0) :=
  ⟨by decide, (zicsr_iff (scratchModel 5) 0 0x34012073 {} {} Core.reset Core.reset 0 0
    (by decide)).mpr ⟨fun h => absurd h (by decide), fun h => absurd h (by decide)⟩⟩

end DreamCore
