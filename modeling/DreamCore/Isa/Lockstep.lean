import DreamCore.Isa.Agreement

/-!
# One instruction of the ISA model

`isa_model::run` on an instruction that is computed from its operands alone: it moves
the program counter, writes the destination and touches nothing else, and both are
what a unit of the pipeline makes of the same word and the same operands.
-/

namespace DreamCore

namespace Isa

/-- **`isa_model::run`**, up to `execute`: one instruction, from the memory of the model. -/
def Model.run (m : Model) : Option Model := do
  let (s, m) ← fetch m
  execute (decode s) m

/-- What the register file holds when a result has been written. -/
def ArchRegfile.after (regs : ArchRegfile) (send : ExecuteWbPack) : ArchRegfile :=
  if send.writes.isSome then regs.write send.rd send.rdValue else regs

/-- An instruction that only computes, for the ISA model. -/
def State.Computes (s : State) : Prop :=
  s.opUnit ≠ .csr ∧ s.opUnit ≠ .lsu ∧ s.subOp ≠ .bru .mret

variable {s s' : State} {m m' : Model}

/-- **What computes moves the program counter at most.** -/
theorem executeUnit_frame (hc : s.Computes) (h : executeUnit s m = some (s', m')) :
    m' = { m with pc := m'.pc } := by
  obtain ⟨hcsr, hlsu, hmret⟩ := hc
  unfold executeUnit at h
  cases hu : s.opUnit with
  | csr => exact absurd hu hcsr
  | lsu => exact absurd hu hlsu
  | alu =>
    rw [hu] at h
    cases h
    rfl
  | div =>
    rw [hu] at h
    obtain ⟨t, -, h⟩ := Option.map_eq_some_iff.mp h
    cases h
    rfl
  | mul =>
    rw [hu] at h
    obtain ⟨t, -, h⟩ := Option.map_eq_some_iff.mp h
    cases h
    rfl
  | bru =>
    rw [hu] at h
    dsimp only at h
    unfold executeBru at h
    split at h
    · cases hop : s.subOp with
      | bru op =>
        rw [hop] at h
        cases h
        cases op with
        | mret => exact absurd hop hmret
        | _ => rfl
      | _ =>
        rw [hop] at h
        cases h
        rfl
    · cases h

/-- The end of `isa_model::execute`, without an exception. -/
theorem finish_eq (hx : s.hasException = false) :
    finish s m = { m with archRegfile := if s.writes then m.archRegfile.write s.rd s.rdValue
      else m.archRegfile } := by
  unfold finish State.writes
  rw [hx]
  cases s.rdEnable && decide (s.rd ≠ 0) <;> rfl

end Isa

variable {rev : ReadregExecutePack} {send : ExecuteWbPack} {s s' : Isa.State} {m m' : Isa.Model}
  {csr : CsrBank}

/-- A branch that is no `mret` does not look at the CSRs. -/
theorem bruCompute_anyCsr (csr csr' : CsrFile) (h : rev.subOp ≠ .bru .mret) :
    bruCompute csr rev = bruCompute csr' rev := by
  unfold bruCompute
  cases rev.enable with
  | false => rfl
  | true =>
    cases hop : rev.subOp with
    | bru op =>
      cases op with
      | mret => exact absurd hop h
      | _ => rfl
    | _ => rfl

theorem integerExecute_csr (hc : rev.computes = true) (csr csr' : CsrBank) :
    integerExecute csr rev = integerExecute csr' rev := by
  unfold DecodeRenamePack.computes at hc
  rw [Bool.and_eq_true, bne_iff_ne] at hc
  unfold integerExecute
  cases hu : rev.opUnit with
  | bru => exact congrArg some (bruCompute_anyCsr _ _ hc.2)
  | csr | lu | sau | sdu => simp [hu] at hc
  | alu | div | mul => rfl

/-- Where an instruction stands, and where its result goes, is as it was. -/
theorem integerExecute_place (hc : rev.computes = true) (h : integerExecute csr rev = some send) :
    send.pc = rev.pc ∧ send.rd = rev.rd := by
  unfold DecodeRenamePack.computes at hc
  unfold integerExecute at h
  cases hu : rev.opUnit with
  | csr | lu | sau | sdu => simp [hu] at hc
  | alu =>
    rw [hu] at h
    cases h
    unfold aluCompute
    dsimp only
    split
    · split
      · rename_i op _ _
        cases op <;> exact ⟨rfl, rfl⟩
      · exact ⟨rfl, rfl⟩
      · exact ⟨rfl, rfl⟩
    · exact ⟨rfl, rfl⟩
  | bru =>
    rw [hu] at h
    cases h
    have hout : ∀ op send, (bruOutcome csr.regs rev op send).pc = send.pc
        ∧ (bruOutcome csr.regs rev op send).rd = send.rd := by
      intro op send
      cases op <;> exact ⟨rfl, rfl⟩
    unfold bruCompute
    dsimp only
    split <;> split <;> first | exact hout _ _ | exact ⟨rfl, rfl⟩
  | div =>
    rw [hu] at h
    cases h
    unfold divCompute
    dsimp only
    split
    · rename_i op _ _
      cases op <;> exact ⟨rfl, rfl⟩
    · exact ⟨rfl, rfl⟩
  | mul =>
    rw [hu] at h
    cases h
    unfold mulCompute
    dsimp only
    split
    · rename_i op _ _
      cases op <;> exact ⟨rfl, rfl⟩
    · exact ⟨rfl, rfl⟩

/-- **The two models raise an exception for the same operands.** -/
theorem exception_same (h : SameOperands rev s) (hc : rev.computes = true)
    (hsend : integerExecute csr rev = some send) (hrun : Isa.executeUnit s m = some (s', m')) :
    send.hasException = s'.hasException := by
  have hexc : rev.hasException = s.hasException :=
    h.hasException.1.trans h.hasException.2.symm
  have hisa := h.opUnit
  have hsop := h.subOp
  unfold DecodeRenamePack.computes at hc
  unfold integerExecute at hsend
  unfold Isa.executeUnit at hrun
  cases hu : rev.opUnit with
  | csr | lu | sau | sdu => simp [hu] at hc
  | alu =>
    rw [hu] at hsend
    rw [← hisa, hu] at hrun
    obtain ⟨op, hop⟩ := SubOp.alu_of_unit (h.unit.trans hu)
    rw [hop] at hsop
    cases hsend
    cases hrun
    unfold aluCompute Isa.executeAlu
    rw [h.enable, h.valid.1, h.hasException.1, h.valid.2, h.hasException.2, hop, ← hsop]
    cases op <;> first | rfl | exact hexc
  | bru =>
    rw [hu] at hsend
    rw [← hisa, hu] at hrun
    obtain ⟨op, hop⟩ := SubOp.bru_of_unit (h.unit.trans hu)
    rw [hop] at hsop
    cases hsend
    dsimp only [OpUnit.toIsa] at hrun
    unfold Isa.executeBru at hrun
    rw [h.valid.2, h.hasException.2, ← hsop] at hrun
    cases hrun
    unfold bruCompute
    rw [h.enable, hop]
    cases op <;> dsimp only [bruOutcome, Isa.bruSwitch, ExecuteWbPack.copy] <;>
      (split <;> exact hexc)
  | div =>
    rw [hu] at hsend
    rw [← hisa, hu] at hrun
    obtain ⟨op, hop⟩ := SubOp.div_of_unit (h.unit.trans hu)
    rw [hop] at hsop
    cases hsend
    dsimp only [OpUnit.toIsa] at hrun
    unfold Isa.executeDiv at hrun
    rw [h.valid.2, h.hasException.2, ← hsop] at hrun
    cases hrun
    unfold divCompute
    rw [h.enable, hop]
    cases op <;> exact hexc
  | mul =>
    rw [hu] at hsend
    rw [← hisa, hu] at hrun
    obtain ⟨op, hop⟩ := SubOp.mul_of_unit (h.unit.trans hu)
    rw [hop] at hsop
    cases hsend
    dsimp only [OpUnit.toIsa] at hrun
    unfold Isa.executeMul at hrun
    rw [h.valid.2, h.hasException.2, ← hsop] at hrun
    cases hrun
    unfold mulCompute
    rw [h.enable, hop]
    cases op <;> exact hexc

/-! ## A fetched word -/

/-- An operand that is not mapped is not looked at. -/
theorem readreg_congr {info : OpInfo} {v₁ v₂ w₁ w₂ : Word}
    (h : info.valid = true → info.hasException = false →
      (info.rs1NeedMap = true → v₁ = w₁) ∧ (info.rs2NeedMap = true → v₂ = w₂)) :
    readreg info v₁ v₂ = readreg info w₁ w₂ := by
  unfold readreg
  split
  · rename_i hcond
    rw [Bool.and_eq_true, Bool.not_eq_true'] at hcond
    obtain ⟨h₁, h₂⟩ := h hcond.1 hcond.2
    have hvalue : ∀ (needMap : Bool) (argSrc : ArgSrc) (v w : Word), (needMap = true → v = w) →
        operandValue needMap argSrc info.imm v = operandValue needMap argSrc info.imm w := by
      intro needMap argSrc v w hvw
      unfold operandValue
      split
      · exact hvw (by assumption)
      · rfl
    rw [hvalue _ _ _ _ h₁, hvalue _ _ _ _ h₂]
  · rfl

/-- **The two decoders agree** on an instruction that was fetched without a fault. -/
theorem decode_unfaulted {q : Fetch2DecodePack} (hx : q.hasException = false)
    (hv : (decode q).valid = true) :
    SameDecode (decode q) (Isa.decode (Isa.fetched q.pc q.value)) ∧ (decode q).Issuable := by
  -- of the pack decode reads the word, unless fetch has marked it
  have hstart : decodeStart q
      = decodeStart (fetched q.pc q.value q.branchPredictorInfoPack) := by
    unfold decodeStart
    rw [hx]
    rfl
  have hdecode : decode q = { decode (fetched q.pc q.value q.branchPredictorInfoPack) with
      hasException := q.hasException
      exceptionId := q.exceptionId
      exceptionValue := q.exceptionValue } := by
    unfold decode
    rw [hstart]
    rfl
  rw [hdecode] at hv ⊢
  have hsame := decode_same hv
  exact ⟨{ hsame with }, { decode_issuable hv with hasException := hx }⟩

theorem SameOperands.computes (h : SameOperands rev s) (hc : rev.computes = true) :
    s.Computes := by
  unfold DecodeRenamePack.computes at hc
  rw [Bool.and_eq_true, bne_iff_ne] at hc
  unfold Isa.State.Computes
  rw [← h.opUnit, ← h.subOp]
  refine ⟨?_, ?_, ?_⟩
  · cases hu : rev.opUnit <;> simp_all [OpUnit.toIsa]
  · cases hu : rev.opUnit <;> simp_all [OpUnit.toIsa]
  · cases hop : rev.subOp with
    | bru op =>
      rintro ⟨⟩
      exact hc.2 hop
    | lu op | sau op | sdu op =>
      intro h
      cases op <;> cases h
    | _ => exact Isa.SubOp.noConfusion

/-- **One instruction of the ISA model is one of the pipeline**: if a unit makes `send` of the word
at the program counter and the operands in the register file, the model writes and goes on as
`send` says. -/
theorem run_computes {q : Fetch2DecodePack} {rest : OpInfo} (hx : q.hasException = false)
    (hv : (decode q).valid = true) (hc : (decode q).computes = true)
    (halign : checkAlign q.pc 4 = true) (hpc : m.pc = q.pc) (hword : m.read q.pc 4 = some q.value)
    (hsend : integerExecute csr (readreg ((decode q).renamed rest)
      (m.archRegfile.read (decode q).rs1) (m.archRegfile.read (decode q).rs2)) = some send)
    (hok : send.hasException = false) :
    m.run = some { m with
      pc := send.nextPc csr
      archRegfile := m.archRegfile.after send } := by
  obtain ⟨hsame, hissue⟩ := decode_unfaulted hx hv
  have hops := readreg_same m.archRegfile rest hissue hsame
  have hcomputes := (readreg_computes (decode q) rest (m.archRegfile.read (decode q).rs1)
    (m.archRegfile.read (decode q).rs2)).trans hc
  have hspc : (Isa.readOperands (Isa.decode (Isa.fetched q.pc q.value)) m.archRegfile).pc
      = q.pc := by
    refine Eq.trans ?_ (Isa.decode_pc (Isa.fetched q.pc q.value))
    unfold Isa.readOperands
    split <;> rfl
  -- fetch has moved the program counter on before the unit runs
  obtain ⟨send', s', m', hsend', hrun, heffect⟩ := execute_same (m := { m with pc := q.pc + 4 })
    hops hcomputes (congrArg (· + 4) hspc.symm)
  rw [integerExecute_csr hcomputes _ csr, hsend] at hsend'
  cases hsend'
  have hexc := (exception_same hops hcomputes hsend hrun).symm.trans hok
  have hframe := Isa.executeUnit_frame (hops.computes hcomputes) hrun
  have hfinish := Isa.finish_eq (m := m') hexc
  have hnext : send.nextPc csr = m'.pc := by
    have hpc' := heffect.nextPc
    rw [hfinish] at hpc'
    rw [← show send.nextPc m.csr = m'.pc from hpc']
    unfold ExecuteWbPack.nextPc
    rw [hok]
    rfl
  have hfetch : Isa.fetch m
      = some (Isa.fetched q.pc q.value, { m with pc := q.pc + 4 }) := by
    unfold Isa.fetch
    rw [hpc, hword, halign]
    rfl
  unfold Isa.Model.run
  rw [hfetch]
  show Isa.execute (Isa.decode (Isa.fetched q.pc q.value)) { m with pc := q.pc + 4 } = _
  unfold Isa.execute
  rw [show ({ m with pc := q.pc + 4 } : Isa.Model).archRegfile = m.archRegfile from rfl, hrun,
    Option.map_some]
  show some (Isa.finish s' m') = _
  rw [hfinish, hnext, hframe]
  unfold Isa.ArchRegfile.after
  rw [heffect.writes, heffect.rd, heffect.rdValue]

end DreamCore
