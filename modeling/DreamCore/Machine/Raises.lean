import DreamCore.Isa.Zicsr
import DreamCore.Machine.Passage

/-!
# What an instruction raises

The units of the pipeline and the execute functions of the ISA model, as far as
exceptions go. What computes raises the same in both, and a word that is no
instruction is illegal in both where it goes to the ALU. The CSR instructions differ
by the tables, and by the word, which the decoder of the ISA model does not keep.
-/

namespace DreamCore

open Ring

variable {m : Isa.Model} {p : Passage m} {w : Word} {q : FetchOpInfo}

/-! ## What is raised -/

/-- How an instruction ends that raises what is given, if it raises anything. -/
def Ending.raised (hasException : Bool) (id : RiscvException) (pc value : Word) : Ending :=
  if hasException then .traps ⟨id.toWord, pc &&& ~~~0x3, value⟩ else .retires

/-- Raising the same is ending alike. -/
theorem Ending.raised_same (hasException : Bool) (id : RiscvException) (pc value : Word) :
    (raised hasException id pc value).Same (raised hasException id pc value) := by
  unfold raised
  cases hasException <;> exact ⟨rfl, Ending.noConfusion, Ending.noConfusion⟩

variable {rev : ReadregExecutePack} {s : Isa.State}

/-! ## What is computed -/

/-- `ecall` and `ebreak` are what the ALUs raise. -/
theorem alu_raises (h : SameOperands rev s) (hu : rev.opUnit = .alu) :
    Ending.raised (aluCompute rev).hasException (aluCompute rev).exceptionId rev.pc
        (aluCompute rev).exceptionValue
      = Ending.raised (Isa.executeAlu s).hasException (Isa.executeAlu s).exceptionId
        (Isa.executeAlu s).pc (Isa.executeAlu s).exceptionValue := by
  obtain ⟨op, hop⟩ := SubOp.alu_of_unit (h.unit.trans hu)
  have hsop : s.subOp = .alu op := by rw [← h.subOp, hop]; rfl
  have hcompute : aluCompute rev = aluOutcome rev op (ExecuteWbPack.copy rev) := by
    unfold aluCompute
    rw [h.enable, h.valid.1, h.hasException.1, hop]
    rfl
  have hexecute : Isa.executeAlu s = Isa.aluSwitch s op := by
    unfold Isa.executeAlu
    rw [h.valid.2, h.hasException.2, hsop]
    rfl
  have hx := h.hasException
  rw [hcompute, hexecute]
  cases op
  case ecall | ebreak =>
    simp only [aluOutcome, Isa.aluSwitch, ExecuteWbPack.raise, Isa.State.raise, h.pc]
  all_goals
    simp only [aluOutcome, Isa.aluSwitch, ExecuteWbPack.copy, hx.1, hx.2, Ending.raised,
      Bool.false_eq_true, if_false]

/-- **Where nothing is asked of the CSRs and of the memory the two models raise the same.** -/
theorem computes_raises (h : SameOperands rev s)
    (hu : rev.opUnit = .alu ∨ rev.opUnit = .bru ∨ rev.opUnit = .div ∨ rev.opUnit = .mul)
    (csr : CsrBank) (m : Isa.Model) :
    ∃ send, integerExecute csr rev = some send ∧ rev.Copied send
      ∧ (rev.opUnit = .bru → send = bruCompute csr.regs rev)
      ∧ Isa.endingOf (Isa.executeUnit s m)
        = Ending.raised send.hasException send.exceptionId rev.pc send.exceptionValue := by
  have hisa := h.opUnit
  have hx := h.hasException
  unfold integerExecute Isa.executeUnit
  rw [← hisa]
  rcases hu with hu | hu | hu | hu <;> rw [hu]
  · refine ⟨_, rfl, aluCompute_copied rev, OpUnit.noConfusion, ?_⟩
    rw [alu_raises h hu]
    exact Isa.endingOf_some _ _
  · obtain ⟨op, hop⟩ := SubOp.bru_of_unit (h.unit.trans hu)
    have hsop : s.subOp = .bru op := by rw [← h.subOp, hop]; rfl
    refine ⟨_, rfl, bruCompute_copied csr.regs rev, fun _ => rfl, ?_⟩
    have hsend : (bruCompute csr.regs rev).hasException = false := by
      unfold bruCompute
      rw [h.enable, hop]
      cases op <;> dsimp only [bruOutcome, ExecuteWbPack.copy] <;> split <;> exact hx.1
    rw [hsend]
    dsimp only [OpUnit.toIsa]
    unfold Isa.executeBru
    rw [h.valid.2, hx.2, hsop]
    cases op <;> simp only [Isa.bruSwitch, Isa.endingOf, hx.2, Bool.not_false, Bool.and_self,
      if_true, Bool.false_eq_true, if_false] <;> rfl
  · obtain ⟨op, hop⟩ := SubOp.div_of_unit (h.unit.trans hu)
    have hsop : s.subOp = .div op := by rw [← h.subOp, hop]; rfl
    refine ⟨_, rfl, divCompute_copied rev, OpUnit.noConfusion, ?_⟩
    have hsend : (divCompute rev).hasException = false := by
      unfold divCompute
      rw [h.enable, hop]
      cases op <;> exact hx.1
    rw [hsend]
    dsimp only [OpUnit.toIsa]
    unfold Isa.executeDiv
    rw [h.valid.2, hx.2, hsop]
    cases op <;> simp only [Isa.divSwitch, Isa.endingOf, hx.2, Bool.not_false, Bool.and_self,
      if_true, Option.map_some, Bool.false_eq_true, if_false] <;> rfl
  · obtain ⟨op, hop⟩ := SubOp.mul_of_unit (h.unit.trans hu)
    have hsop : s.subOp = .mul op := by rw [← h.subOp, hop]; rfl
    refine ⟨_, rfl, mulCompute_copied rev, OpUnit.noConfusion, ?_⟩
    have hsend : (mulCompute rev).hasException = false := by
      unfold mulCompute
      rw [h.enable, hop]
      cases op <;> exact hx.1
    rw [hsend]
    dsimp only [OpUnit.toIsa]
    unfold Isa.executeMul
    rw [h.valid.2, hx.2, hsop]
    cases op <;> simp only [Isa.mulSwitch, Isa.endingOf, hx.2, Bool.not_false, Bool.and_self,
      if_true, Option.map_some, Bool.false_eq_true, if_false] <;> rfl

/-- **What fetch hands to decode** for the word at the program counter. -/
structure FetchOpInfo.Brings (q : FetchOpInfo) (pc word : Word) : Prop where
  recorded : q.Recorded
  pc : q.pc = pc
  value : q.value = word
  hasException : q.hasException = false

/-- The state of the ISA model in front of the execute functions. -/
abbrev Isa.Model.operands (m : Isa.Model) (word : Word) : Isa.State :=
  Isa.readOperands (Isa.decode (Isa.fetched m.pc word)) m.archRegfile

theorem FetchOpInfo.Brings.same (h : q.Brings m.pc w) (hv : q.decoded.valid = true) :
    SameDecode q.decoded (Isa.decode (Isa.fetched m.pc w)) ∧ q.decoded.Issuable := by
  have hsame := decode_unfaulted h.hasException hv
  rw [show q.toFetch2DecodePack.pc = m.pc from h.pc,
    show q.toFetch2DecodePack.value = w from h.value] at hsame
  exact hsame

theorem FetchOpInfo.Brings.operands (h : q.Brings m.pc w) (hv : q.decoded.valid = true)
    (rest : OpInfo) :
    SameOperands (readreg (q.decoded.renamed rest) (m.archRegfile.read q.decoded.rs1)
      (m.archRegfile.read q.decoded.rs2)) (m.operands w) :=
  readreg_same m.archRegfile rest (h.same hv).2 (h.same hv).1

/-- Both decoders call the same words legal. -/
theorem FetchOpInfo.Brings.valid (h : q.Brings m.pc w) :
    q.decoded.valid = (Isa.decode (Isa.fetched m.pc w)).valid := by
  rw [← h.pc, ← h.value]
  exact decode_unfaulted_valid h.hasException

theorem OpUnit.toIsa_inj {u v : OpUnit} (h : v.toIsa = u.toIsa) (hu : u.isLsu = false) :
    v = u := by
  revert h hu
  cases u <;> cases v <;> decide

theorem FetchOpInfo.Brings.unit {u : OpUnit} (h : q.Brings m.pc w) (hv : q.decoded.valid = true)
    (hu : (Isa.decode (Isa.fetched m.pc w)).opUnit = u.toIsa) (hlsu : u.isLsu = false) :
    q.decoded.opUnit = u :=
  OpUnit.toIsa_inj ((h.same hv).1.opUnit.trans hu) hlsu

/-- **What the integer register read makes of a legal instruction** is what the ISA model has. -/
theorem FetchOpInfo.Brings.read (h : q.Brings m.pc w) (p : Passage m)
    (hv : q.decoded.valid = true) (hu : q.decoded.opUnit.isLsu = false) :
    ∃ rev, readPack { phyRegfile := p.phyRegfile } (p.info q.decoded).toIssue = rev
      ∧ rev.toOpInfo = p.info q.decoded ∧ SameOperands rev (m.operands w) :=
  ⟨_, p.readPack_eq (decode_regsOk q.toFetch2DecodePack) hu,
    (readreg_toOpInfo ..).trans (p.info_sends q.decoded).renamed, h.operands hv _⟩

/-- **An instruction for an integer unit** has one result, and commit raises what it says. -/
theorem Passage.execute_integer {send : ExecuteWbPack} (hq : q.Brings m.pc w)
    (hu : q.decoded.opUnit.isLsu = false)
    (hread : readPack { phyRegfile := p.phyRegfile } (p.info q.decoded).toIssue = rev)
    (hrev : rev.toOpInfo = p.info q.decoded) (hsend : integerExecute m.csr rev = some send)
    (hcopied : rev.Copied send) (hbru : rev.opUnit = .bru → send = bruCompute m.csr.regs rev)
    (n : Nat) :
    p.execute q.decoded n
      = Ending.raised send.hasException send.exceptionId m.pc send.exceptionValue := by
  have hsends := p.info_sends q.decoded
  have hen : send.enable = true := by
    rw [hcopied.enable, show rev.enable = (p.info q.decoded).enable from
      congrArg (·.enable) hrev]
    exact congrArg (·.enable) hsends
  have hid : send.robId = (p.info q.decoded).robId := by
    rw [hcopied.robId]
    exact congrArg (·.robId) hrev
  have hlast : send.lastUop = true := by
    rw [hcopied.lastUop, show rev.lastUop = (p.info q.decoded).lastUop from
      congrArg (·.lastUop) hrev]
    exact hsends.lastUop
  have hagrees : send.opUnit = .bru → send.Agrees := by
    intro hb
    rw [hbru (hcopied.opUnit.symm.trans hb)]
    exact bruCompute_agrees ⟨q, hq.recorded, hsends⟩ (hrev.trans (p.info_toIssue hu).symm)
  have hend : (p.reported q.decoded [[send]]).ending m.csr.regs .retires
      = Ending.raised send.hasException send.exceptionId m.pc send.exceptionValue := by
    rw [p.reported_one _ hen hid, ← hq.pc, ← decode_pc q.toFetch2DecodePack]
    exact ending_applyResult hq.hasException hlast hagrees
  have hinteger : p.integer (p.info q.decoded) = some send := by
    rw [← hsend, ← hread]
    rfl
  unfold execute
  dsimp only
  rw [hinteger]
  cases hunit : q.decoded.opUnit with
  | lu | sau | sdu =>
    rw [hunit] at hu
    cases hu
  | _ => exact hend

/-- **An instruction that only computes ends alike.** -/
theorem Passage.execute_computes (hq : q.Brings m.pc w) (hv : q.decoded.valid = true)
    (hu : q.decoded.opUnit = .alu ∨ q.decoded.opUnit = .bru ∨ q.decoded.opUnit = .div
      ∨ q.decoded.opUnit = .mul) (m' : Isa.Model) (n : Nat) :
    (p.execute q.decoded n).Same (Isa.endingOf (Isa.executeUnit (m.operands w) m')) := by
  have hlsu : q.decoded.opUnit.isLsu = false := by rcases hu with h | h | h | h <;> rw [h] <;> rfl
  obtain ⟨rev, hread, hrev, hops⟩ := hq.read p hv hlsu
  have hunit : rev.opUnit = q.decoded.opUnit := by
    rw [show rev.opUnit = (p.info q.decoded).opUnit from congrArg (·.opUnit) hrev]
    exact congrArg (·.opUnit) (p.info_sends q.decoded)
  have hpc : rev.pc = m.pc := by
    rw [show rev.pc = (p.info q.decoded).pc from congrArg (·.pc) hrev, ← hq.pc]
    exact (congrArg (·.pc) (p.info_sends q.decoded)).trans (decode_pc _)
  obtain ⟨send, hsend, hcopied, hbru, hend⟩ := computes_raises hops (hunit ▸ hu) m.csr m'
  rw [hend, hpc, execute_integer hq hlsu hread hrev hsend hcopied hbru n]
  exact Ending.raised_same ..

/-! ## What the switch decides -/

theorem funct3Of_cases (w : Word) : funct3Of w = 0 ∨ funct3Of w = 1 ∨ funct3Of w = 2
    ∨ funct3Of w = 3 ∨ funct3Of w = 4 ∨ funct3Of w = 5 ∨ funct3Of w = 6 ∨ funct3Of w = 7 := by
  have hlt := funct3Of_lt w
  omega

namespace Isa

theorem decodeBranch_valid (hv : s.valid = true) :
    (decodeBranch w s).valid = decide (funct3Of w ≠ 2 ∧ funct3Of w ≠ 3)
      ∧ (decodeBranch w s).opUnit = .bru := by
  unfold decodeBranch
  dsimp only
  rcases funct3Of_cases w with h | h | h | h | h | h | h | h <;> rw [h]
  all_goals first | exact ⟨hv, rfl⟩ | exact ⟨rfl, rfl⟩

theorem decodeLoad_valid (hv : s.valid = true) :
    (decodeLoad w s).valid = decide (funct3Of w ≠ 3 ∧ funct3Of w < 6)
      ∧ (decodeLoad w s).opUnit = .lsu := by
  unfold decodeLoad
  dsimp only
  rcases funct3Of_cases w with h | h | h | h | h | h | h | h <;> rw [h]
  all_goals first | exact ⟨hv, rfl⟩ | exact ⟨rfl, rfl⟩

theorem decodeStore_valid (hv : s.valid = true) :
    (decodeStore w s).valid = decide (funct3Of w < 3)
      ∧ (decodeStore w s).opUnit = .lsu := by
  unfold decodeStore
  dsimp only
  rcases funct3Of_cases w with h | h | h | h | h | h | h | h <;> rw [h]
  all_goals first | exact ⟨hv, rfl⟩ | exact ⟨rfl, rfl⟩

/-- The unit is one that computes, and the ALU if there is no such instruction. -/
def State.Calculates (s : State) : Prop :=
  s.opUnit = .alu ∨ s.valid = true ∧ (s.opUnit = .bru ∨ s.opUnit = .div ∨ s.opUnit = .mul)

theorem decodeOpImm_calculates : (decodeOpImm w s).Calculates := by
  unfold decodeOpImm
  dsimp only
  split <;> exact .inl rfl

theorem decodeOpReg_calculates (hv : s.valid = true) : (decodeOpReg w s).Calculates := by
  unfold decodeOpReg
  dsimp only
  split <;> first
    | exact .inl rfl
    | exact .inr ⟨hv, .inr (.inl rfl)⟩
    | exact .inr ⟨hv, .inr (.inr rfl)⟩

theorem decodeFence_calculates (hu : s.opUnit = .alu) : (decodeFence w s).Calculates := by
  unfold decodeFence
  split
  · split
    · exact .inl rfl
    · exact .inl hu
  · split
    · exact .inl rfl
    · exact .inl hu
  · exact .inl hu

/-- What is left of opcode `0x73` without the CSR instructions. -/
theorem decodeSystem_calculates (hw : funct3Of w = 0 ∨ funct3Of w = 4) (hv : s.valid = true)
    (hu : s.opUnit = .alu) : (decodeSystem w s).Calculates := by
  unfold decodeSystem
  split
  case h_1 =>
    split
    · split
      · exact .inl rfl
      · exact .inl rfl
      · exact .inr ⟨hv, .inl rfl⟩
      · exact .inl hu
    · exact .inl hu
  case h_8 => exact .inl hu
  -- the CSR instructions
  all_goals omega

end Isa

/-- The words that are no branch, load, store or CSR instruction. -/
def Plain (w : Word) : Prop :=
  opcodeOf w ≠ 0x63 ∧ opcodeOf w ≠ 0x03 ∧ opcodeOf w ≠ 0x23 ∧ isZicsr w = false

theorem Isa.decode_calculates (hw : Plain w) (pc : Word) :
    (Isa.decode (Isa.fetched pc w)).Calculates := by
  obtain ⟨h₁, h₂, h₃, hz⟩ := hw
  unfold Isa.decode Isa.decodeSwitch
  rw [show (Isa.fetched pc w).value = w from rfl]
  split
  case h_1 | h_2 => exact .inl rfl
  case h_3 | h_4 => exact .inr ⟨rfl, .inl rfl⟩
  case h_5 h => exact absurd h h₁
  case h_6 h => exact absurd h h₂
  case h_7 h => exact absurd h h₃
  case h_8 => exact decodeOpImm_calculates
  case h_9 => exact decodeOpReg_calculates rfl
  case h_10 => exact decodeFence_calculates rfl
  case h_11 h =>
    refine decodeSystem_calculates ?_ rfl rfl
    have hlt := funct3Of_lt w
    have hno := mt isZicsr_iff.mpr (Bool.eq_false_iff.mp hz)
    omega
  case h_12 => exact .inl rfl

theorem decode_invalid {q : Fetch2DecodePack} (hv : (decode q).valid = false) :
    (decode q).opUnit = .alu := by
  unfold decode at hv ⊢
  dsimp only at hv ⊢
  cases hs : (decodeSwitch q.value (decodeStart q)).valid with
  | false => rfl
  | true =>
    rw [hs, if_pos rfl] at hv
    change (decodeSwitch q.value (decodeStart q)).valid = false at hv
    rw [hs] at hv
    cases hv

theorem Isa.fetched_fresh (pc w : Word) :
    (Isa.decode (Isa.fetched pc w)).hasException = false := (switch_same pc w {}).fresh.1

namespace Isa

theorem readOperands_invalid (hv : s.valid = false) (regs : ArchRegfile) :
    readOperands s regs = s := by
  unfold readOperands
  rw [hv]
  rfl

theorem executeUnit_invalid (hu : s.opUnit = .alu) (hv : s.valid = false)
    (hx : s.hasException = false) (m : Model) :
    executeUnit s m = some (s.raise .illegalInstruction 0, m) := by
  unfold executeUnit executeAlu
  rw [hu, hv, hx]
  rfl

end Isa

/-- **A word that is no instruction is illegal in both models**, where it goes to the ALU. -/
theorem Passage.execute_invalid (hq : q.Brings m.pc w) (hv : q.decoded.valid = false)
    (hu : (Isa.decode (Isa.fetched m.pc w)).opUnit = .alu) (m' : Isa.Model) (n : Nat) :
    (p.execute q.decoded n).Same (Isa.endingOf (Isa.executeUnit (m.operands w) m')) := by
  have hunit : q.decoded.opUnit = .alu := decode_invalid hv
  have hlsu : q.decoded.opUnit.isLsu = false := by rw [hunit]; rfl
  have hsends := p.info_sends q.decoded
  have hivalid : (p.info q.decoded).valid = false := (congrArg (·.valid) hsends).trans hv
  have hread : readPack { phyRegfile := p.phyRegfile } (p.info q.decoded).toIssue
      = { toOpInfo := p.info q.decoded } := by
    rw [p.info_toIssue hlsu]
    unfold readPack readreg
    rw [hivalid]
    rfl
  have hx : (p.info q.decoded).hasException = false :=
    (congrArg (·.hasException) hsends).trans hq.hasException
  have hsvalid : (Isa.decode (Isa.fetched m.pc w)).valid = false := hq.valid.symm.trans hv
  generalize hrev : ({ toOpInfo := p.info q.decoded } : ReadregExecutePack) = rev at hread
  have hrunit : rev.opUnit = .alu := by
    rw [← hrev]
    exact (congrArg (·.opUnit) hsends).trans hunit
  have hsend : aluCompute rev = (ExecuteWbPack.copy rev).raise .illegalInstruction 0 := by
    unfold aluCompute
    rw [← hrev]
    dsimp only
    rw [hx, hivalid, show (p.info q.decoded).enable = true from congrArg (·.enable) hsends]
    rfl
  have hisa : Isa.executeUnit (m.operands w) m'
      = some ((Isa.decode (Isa.fetched m.pc w)).raise .illegalInstruction 0, m') := by
    unfold Isa.Model.operands
    rw [Isa.readOperands_invalid hsvalid]
    exact Isa.executeUnit_invalid hu hsvalid (Isa.fetched_fresh m.pc w) m'
  have hinteger : integerExecute m.csr rev = some (aluCompute rev) := by
    unfold integerExecute
    rw [hrunit]
  have hbru : rev.opUnit = .bru → aluCompute rev = bruCompute m.csr.regs rev := by
    rw [hrunit]
    exact OpUnit.noConfusion
  rw [hisa, Isa.endingOf_some, execute_integer hq hlsu hread (by rw [← hrev]) hinteger
    (aluCompute_copied rev) hbru n, hsend]
  rw [show ((Isa.decode (Isa.fetched m.pc w)).raise .illegalInstruction 0).pc = m.pc from
    Isa.decode_pc _]
  exact Ending.raised_same true .illegalInstruction m.pc 0

/-- **A plain word ends alike.** -/
theorem Passage.execute_plain (hq : q.Brings m.pc w) (hw : Plain w) (m' : Isa.Model) (n : Nat) :
    (p.execute q.decoded n).Same (Isa.endingOf (Isa.executeUnit (m.operands w) m')) := by
  have hcalc := Isa.decode_calculates hw m.pc
  cases hv : q.decoded.valid with
  | true =>
    refine execute_computes hq hv ?_ m' n
    rcases hcalc with hu | ⟨-, hu | hu | hu⟩
    · exact .inl (hq.unit hv hu rfl)
    · exact .inr (.inl (hq.unit hv hu rfl))
    · exact .inr (.inr (.inl (hq.unit hv hu rfl)))
    · exact .inr (.inr (.inr (hq.unit hv hu rfl)))
  | false =>
    refine execute_invalid hq hv ?_ m' n
    rcases hcalc with hu | ⟨hs, -⟩
    · exact hu
    · rw [← hq.valid, hv] at hs
      cases hs

/-! ## CSR instructions -/

/-- What a table lets an instruction do that wants the old value or not, and writes or not. -/
def CsrTable.permits (t : CsrTable) (addr : Nat) (reads writes : Bool) : Bool :=
  (!reads || t.mapped addr) && (!writes || t.writeCheck addr)

/-- **The CSR instructions a table lets through**: the old value is wanted unless the destination
is register 0, and a new one is written unless the operand is register 0. -/
def CsrTable.allows (t : CsrTable) (w : Word) : Bool :=
  t.permits (immI w).toNat (decide (rdOf w ≠ 0)) !decide (funct3Of w < 4 ∧ rs1Of w = 0)

/-- A load counter is not to be written. -/
theorem csrWritable_counter {addr : Nat} (h : csrWritable addr = true) :
    csrLoadCounter addr = false := by
  simp only [csrWritable, csrLoadCounter, Bool.or_eq_true, decide_eq_true_eq, List.mem_cons,
    List.not_mem_nil, or_false, Bool.or_eq_false_iff, decide_eq_false_iff_not] at h ⊢
  omega

/-- The ISA model maps fewer registers. -/
theorem isaCsrTable_allows (h : isaCsrTable.allows w = true) : cycleCsrTable.allows w = true := by
  have hmapped (addr : Nat) (ha : isaCsrTable.mapped addr = true) :
      cycleCsrTable.mapped addr = true := by
    simp only [isaCsrTable, cycleCsrTable, Bool.or_eq_true] at ha ⊢
    exact ha.imp_left .inl
  have hwrite (addr : Nat) (ha : isaCsrTable.writeCheck addr = true) :
      cycleCsrTable.writeCheck addr = true := by
    simp only [CsrTable.writeCheck, isaCsrTable, cycleCsrTable, Bool.and_eq_true,
      Bool.or_eq_true, Bool.not_eq_true', Bool.or_eq_false_iff] at ha ⊢
    obtain ⟨hro | hw, hro'⟩ := ha
    · rw [hro] at hro'
      cases hro'
    · exact ⟨.inr hw, hro', csrWritable_counter hw⟩
  unfold CsrTable.allows CsrTable.permits at h ⊢
  rw [Bool.and_eq_true, Bool.or_eq_true, Bool.or_eq_true] at h ⊢
  exact ⟨h.1.imp_right (hmapped _), h.2.imp_right (hwrite _)⟩

theorem CsrTable.read_fst (t : CsrTable) (csr : CsrBank) (addr : Nat) :
    (t.read csr addr).1 = t.mapped addr := by
  unfold CsrTable.read
  cases t.mapped addr <;> rfl

/-- What the CSR unit raises. -/
theorem csrCompute_raises (csr : CsrBank) (h : SameOperands rev s) {op : CsrOp}
    (hop : rev.subOp = .csr op) (pc : Word) :
    Ending.raised (csrCompute csr rev).hasException (csrCompute csr rev).exceptionId pc
        (csrCompute csr rev).exceptionValue
      = Ending.raised (!cycleCsrTable.permits rev.csr rev.needRename
          !(rev.arg1Src == .reg && !rev.rs1NeedMap)) .illegalInstruction pc rev.value := by
  have hcompute : csrCompute csr rev = csrExecute csr rev op (ExecuteWbPack.copy rev) := by
    unfold csrCompute
    rw [h.enable, hop]
  have hx : (ExecuteWbPack.copy rev).hasException = false := h.hasException.1
  rw [hcompute]
  unfold csrExecute CsrTable.permits
  rw [← cycleCsrTable.read_fst csr]
  generalize cycleCsrTable.read csr rev.csr = r
  obtain ⟨readRet, old⟩ := r
  dsimp only
  cases hr : rev.needRename && !readRet with
  | true =>
    rw [Bool.and_eq_true, Bool.not_eq_true'] at hr
    rw [if_pos rfl, hr.1, hr.2]
    rfl
  | false =>
    have hr' : (!rev.needRename || readRet) = true := by
      rw [← Bool.not_eq_false', Bool.not_or, Bool.not_not]
      exact hr
    rw [hr', if_neg Bool.false_ne_true]
    cases hu : (rev.arg1Src == .reg && !rev.rs1NeedMap) with
    | true =>
      rw [if_neg (by simp [ExecuteWbPack.copy, hu])]
      dsimp only
      rw [hx]
      rfl
    | false =>
      rw [if_pos (by simp [ExecuteWbPack.copy, hu])]
      cases cycleCsrTable.writeCheck rev.csr with
      | false => rfl
      | true =>
        rw [if_neg (by decide)]
        dsimp only
        rw [hx]
        rfl

/-- What `execute_csr` raises. -/
theorem executeCsr_raises (hv : s.valid = true) (hx : s.hasException = false) {op : CsrOp}
    (hop : s.subOp = .csr op) (m : Isa.Model) :
    Isa.endingOf (Isa.executeCsr s m)
      = Ending.raised (!isaCsrTable.permits s.csr (s.rdEnable && decide (s.rd ≠ 0))
          !(s.arg1Src == .reg && decide (s.rs1 = 0))) .illegalInstruction s.pc s.value := by
  have hexecute : Isa.executeCsr s m = some (Isa.csrBody s m op) := by
    unfold Isa.executeCsr
    rw [hv, hx, hop]
    rfl
  rw [hexecute]
  unfold Isa.csrBody CsrTable.permits CsrTable.write
  rw [← isaCsrTable.read_fst m.csr]
  generalize isaCsrTable.read m.csr s.csr = r
  obtain ⟨readRet, old⟩ := r
  dsimp only
  generalize (s.rdEnable && decide (s.rd ≠ 0)) = reads
  cases hr : reads && !readRet with
  | true =>
    rw [Bool.and_eq_true, Bool.not_eq_true'] at hr
    rw [if_pos rfl, hr.1, hr.2]
    exact Isa.endingOf_some _ _
  | false =>
    have hr' : (!reads || readRet) = true := by
      rw [← Bool.not_eq_false', Bool.not_or, Bool.not_not]
      exact hr
    rw [hr', if_neg Bool.false_ne_true]
    cases (s.arg1Src == .reg && decide (s.rs1 = 0)) with
    | true =>
      rw [if_neg (by decide), Isa.endingOf_some]
      dsimp only
      rw [hx]
      rfl
    | false =>
      rw [if_pos (by decide)]
      cases isaCsrTable.writeCheck s.csr with
      | false => exact Isa.endingOf_some _ _
      | true =>
        rw [if_pos rfl]
        refine (Isa.endingOf_some _ _).trans ?_
        dsimp only
        rw [hx]
        rfl

/-- The word itself is not kept. -/
theorem Isa.decode_value (s : Isa.State) : (Isa.decode s).value = 0 :=
  (Isa.decodeSwitch_keeps s.value (Isa.decodeStart s)).2

/-- The operands leave the rest alone. -/
theorem Isa.readOperands_rest (s : Isa.State) (regs : Isa.ArchRegfile) :
    (Isa.readOperands s regs).pc = s.pc ∧ (Isa.readOperands s regs).value = s.value
      ∧ (Isa.readOperands s regs).valid = s.valid
      ∧ (Isa.readOperands s regs).opUnit = s.opUnit := by
  unfold Isa.readOperands
  split <;> exact ⟨rfl, rfl, rfl, rfl⟩

theorem SubOp.csr_of_unit {o : SubOp} (h : o.unit = .csr) : ∃ op, o = .csr op := by
  cases o
  case csr op => exact ⟨op, rfl⟩
  all_goals cases h

/-- **A CSR instruction**: what each of the two models makes of it is decided by its table. -/
theorem Passage.execute_csr (hq : q.Brings m.pc w) (hw : isZicsr w = true) (m' : Isa.Model)
    (n : Nat) :
    p.execute q.decoded n
        = Ending.raised (!cycleCsrTable.allows w) .illegalInstruction m.pc w
      ∧ Isa.endingOf (Isa.executeUnit (m.operands w) m')
        = Ending.raised (!isaCsrTable.allows w) .illegalInstruction m.pc 0 := by
  obtain ⟨op, hdec⟩ := decode_csr hw m.pc m.archRegfile
  obtain ⟨hpc, hvalue, hvalid, hisa⟩ :=
    Isa.readOperands_rest (Isa.decode (Isa.fetched m.pc w)) m.archRegfile
  rw [Isa.decode_pc] at hpc
  rw [Isa.decode_value] at hvalue
  have hv : q.decoded.valid = true := by
    rw [hq.valid, ← hvalid]
    exact hdec.valid
  have hunit : q.decoded.opUnit = .csr := hq.unit hv (hisa.symm.trans hdec.opUnit) rfl
  have hlsu : q.decoded.opUnit.isLsu = false := by rw [hunit]; rfl
  obtain ⟨rev, hread, hrev, hops⟩ := hq.read p hv hlsu
  constructor
  · have hsends := p.info_sends q.decoded
    have hrunit : rev.opUnit = .csr := by
      rw [show rev.opUnit = (p.info q.decoded).opUnit from congrArg (·.opUnit) hrev, ← hunit]
      exact congrArg (·.opUnit) hsends
    have hrvalue : rev.value = w := by
      rw [show rev.value = (p.info q.decoded).value from congrArg (·.value) hrev, ← hq.value]
      exact congrArg (·.value) hsends
    obtain ⟨op', hop⟩ := SubOp.csr_of_unit (hops.unit.trans hrunit)
    have hend := csrCompute_raises m.csr hops hop m.pc
    rw [hops.needRename, hops.unread, hops.csr, hrvalue, hdec.rd, hdec.unread, hdec.csr]
      at hend
    refine Eq.trans ?_ hend
    refine execute_integer hq hlsu hread hrev ?_ (csrCompute_copied m.csr rev) ?_ n
    · unfold integerExecute
      rw [hrunit]
    · rw [hrunit]
      exact OpUnit.noConfusion
  · have hend := executeCsr_raises hdec.valid hdec.hasException hdec.subOp m'
    rw [hpc, hvalue, hdec.rd, hdec.unread, hdec.csr] at hend
    unfold Isa.executeUnit Isa.Model.operands
    rw [hdec.opUnit]
    exact hend

/-- **A CSR instruction ends alike where the ISA model permits it.** What it does not permit it
reports without the word, and the cycle model with the word, if it does not permit it either. -/
theorem Passage.csr_same_iff (hq : q.Brings m.pc w) (hw : isZicsr w = true) (m' : Isa.Model)
    (n : Nat) :
    (p.execute q.decoded n).Same (Isa.endingOf (Isa.executeUnit (m.operands w) m'))
      ↔ isaCsrTable.allows w = true := by
  obtain ⟨hcycle, hisa⟩ := p.execute_csr hq hw m' n
  rw [hcycle, hisa]
  constructor
  · intro h
    by_contra hno
    rw [Bool.not_eq_true] at hno
    rw [hno] at h
    have hne : w ≠ 0 := by
      intro h0
      rw [h0] at hw
      exact absurd hw (by decide)
    unfold Ending.Same Ending.raised at h
    cases hc : cycleCsrTable.allows w with
    | true =>
      rw [hc] at h
      cases h.1
    | false =>
      rw [hc] at h
      exact hne (Trap.mk.inj (Ending.traps.inj h.1)).2.2
  · intro h
    rw [h, isaCsrTable_allows h]
    exact ⟨rfl, Ending.noConfusion, Ending.noConfusion⟩

end DreamCore
