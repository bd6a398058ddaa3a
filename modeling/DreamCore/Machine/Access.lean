import DreamCore.Machine.Raises
import DreamCore.Memory.Pairing

/-!
# Loads and stores in the two models

The ISA model performs a load or a store at once, and a `verify_only` fails where a
slave refuses it, which is where the access is misaligned. The pipeline reads the
same operands on its own way to the units of the LSU.
-/

namespace DreamCore

open Ring

variable {m : Isa.Model} {p : Passage m} {w : Word} {dec : DecodeRenamePack} {q : FetchOpInfo}
  {rev : ReadregExecutePack} {s : Isa.State}

/-! ## The bus of the ISA model -/

namespace Isa

/-- The access size of a load or a store. -/
def LsuOp.size : LsuOp → Nat
  | .lb | .lbu | .sb => 1
  | .lh | .lhu | .sh => 2
  | .lw | .sw => 4

/-- A store has two parts. -/
def LsuOp.isStore : LsuOp → Bool
  | .sb | .sh | .sw => true
  | _ => false

/-- Whether a slave gives what it is asked for. Where there is no slave nothing goes wrong. -/
def busTakes (addr : Word) (size : Nat) : Bool :=
  if memorySlave.maps addr false then memorySlave.check (memorySlave.offset addr) size
  else if clintSlave.maps addr false then clintSlave.check (clintSlave.offset addr) size
  else true

theorem slaves_isSome {α : Type} (mem ok clint ok' : Bool) (x y z : α) :
    (if mem then if ok then some x else none
      else if clint then if ok' then some y else none
      else some z).isSome = if mem then ok else if clint then ok' else true := by
  cases mem <;> cases ok <;> cases clint <;> cases ok' <;> rfl

theorem read_isSome (m : Model) (addr : Word) (size : Nat) :
    (m.read addr size).isSome = busTakes addr size := slaves_isSome ..

theorem write_isSome (m : Model) (addr : Word) (size : Nat) (value : Word) :
    (m.write addr size value).isSome = busTakes addr size := slaves_isSome ..

/-- **A load or a store raises nothing**: the ISA model performs it, or a `verify_only` fails. -/
theorem executeLsu_ends (hv : s.valid = true) (hx : s.hasException = false) {op : LsuOp}
    (hop : s.subOp = .lsu op) (m : Model) :
    endingOf (executeLsu s m)
      = if busTakes (s.src1Value + s.imm) op.size then .retires else .aborts := by
  have hexecute : executeLsu s m = lsuSwitch s m op := by
    unfold executeLsu
    rw [hv, hx, hop]
    rfl
  have hload (size : Nat) (extend : Word → Word) :
      endingOf ((m.read (s.src1Value + s.imm) size).map fun value =>
          ({ s with rdValue := extend value }, m))
        = if busTakes (s.src1Value + s.imm) size then .retires else .aborts := by
    rw [← read_isSome m]
    cases m.read (s.src1Value + s.imm) size with
    | none => rfl
    | some value =>
      rw [Option.map_some, endingOf_some]
      dsimp only
      rw [hx]
      rfl
  have hstore (size : Nat) (value : Word) :
      endingOf ((m.write (s.src1Value + s.imm) size value).map fun m => (s, m))
        = if busTakes (s.src1Value + s.imm) size then .retires else .aborts := by
    rw [← write_isSome m _ _ value]
    cases m.write (s.src1Value + s.imm) size value with
    | none => rfl
    | some m' =>
      rw [Option.map_some, endingOf_some]
      rw [hx]
      rfl
  rw [hexecute]
  unfold lsuSwitch
  cases op with
  | sb | sh | sw => exact hstore _ _
  | _ => exact hload _ _

end Isa

/-- The slaves start at whole words, so that an offset is aligned as its address is. -/
theorem SlaveInfo.checkAlign_offset {s : SlaveInfo} {addr : Word} {k : Nat} (hk : k ≤ 2)
    (hbase : s.base.toNat % 4 = 0) (hm : s.maps addr false = true) :
    checkAlign (s.offset addr) (2 ^ k) = checkAlign addr (2 ^ k) := by
  simp only [SlaveInfo.maps, Bool.and_eq_true, decide_eq_true_eq] at hm
  have hoffset : (s.offset addr).toNat = addr.toNat - s.base.toNat :=
    BitVec.toNat_sub_of_le hm.1.1
  have hle : s.base.toNat ≤ addr.toNat := hm.1.1
  rw [Bool.eq_iff_iff, checkAlign_pow _ k (by omega), checkAlign_pow _ k (by omega), hoffset]
  rcases (by omega : k = 0 ∨ k = 1 ∨ k = 2) with rfl | rfl | rfl
  · omega
  · omega
  · omega

/-- **A slave refuses exactly the misaligned accesses** among its own. -/
theorem SlaveInfo.check_eq {s : SlaveInfo} {addr : Word} {k : Nat} (hk : k ≤ 2)
    (hbase : s.base.toNat % 4 = 0) (hsize : s.size % 4 = 0)
    (hend : s.base.toNat + s.size < 2 ^ 32) (hm : s.maps addr false = true) :
    s.check (s.offset addr) (2 ^ k) = checkAlign addr (2 ^ k) := by
  cases ha : checkAlign addr (2 ^ k) with
  | true => exact SlaveInfo.check_of_aligned hk hbase hsize hend hm ha
  | false =>
    rw [SlaveInfo.check, SlaveInfo.checkAlign_offset hk hbase hm, ha]
    rfl

/-- The ISA model performs the aligned accesses, and the others where there is no slave. -/
theorem Isa.busTakes_eq (addr : Word) {k : Nat} (hk : k ≤ 2) :
    Isa.busTakes addr (2 ^ k) = (checkAlign addr (2 ^ k)
      || !memorySlave.maps addr false && !clintSlave.maps addr false) := by
  unfold Isa.busTakes
  cases hm : memorySlave.maps addr false with
  | true =>
    rw [if_pos rfl, SlaveInfo.check_eq hk (by decide) (by decide) (by decide) hm]
    exact (Bool.or_false _).symm
  | false =>
    rw [if_neg Bool.false_ne_true]
    cases hc : clintSlave.maps addr false with
    | true =>
      rw [if_pos rfl, SlaveInfo.check_eq hk (by decide) (by decide) (by decide) hc]
      exact (Bool.or_false _).symm
    | false => exact (Bool.or_true _).symm

/-! ## Register read of the LSU -/

/-- What dispatch takes away from an instruction of the LSU is not decode's. -/
theorem OpInfo.Sends.renamed_toIssue {info : OpInfo} (h : info.Sends dec) :
    dec.renamed info.toIssue = info.toIssue := by
  have hlsu (x : OpInfo) : dec.renamed (dec.renamed x).toLsu = (dec.renamed x).toLsu := rfl
  unfold OpInfo.toIssue
  split
  · have hinfo := hlsu info
    rw [h.renamed] at hinfo
    exact hinfo
  · exact h.renamed

theorem operandValue_noImm {argSrc argSrc' : ArgSrc} (h : argSrc ≠ .imm) (h' : argSrc' ≠ .imm)
    (need : Bool) (imm value : Word) :
    operandValue need argSrc imm value = operandValue need argSrc' imm value := by
  unfold operandValue
  rw [if_neg h, if_neg h']

/-- **The LSU register read finds the registers of the ISA model**, for an instruction without an
immediate operand. -/
theorem Passage.lsuPack_eq (p : Passage m) (hr : dec.RegsOk) (h₁ : dec.arg1Src ≠ .imm)
    (h₂ : dec.arg2Src ≠ .imm) :
    p.lsuPack (p.info dec).toIssue
      = readreg (dec.renamed (p.info dec).toIssue) (m.archRegfile.read dec.rs1)
        (m.archRegfile.read dec.rs2) := by
  obtain ⟨hread₁, hread₂⟩ := p.reads hr
  have hphy : (p.info dec).toIssue.rs1Phy = (p.info dec).rs1Phy
      ∧ (p.info dec).toIssue.rs2Phy = (p.info dec).rs2Phy := by
    unfold OpInfo.toIssue
    split <;> exact ⟨rfl, rfl⟩
  have hrenamed := (p.info_sends dec).renamed_toIssue
  generalize (p.info dec).toIssue = info at hphy hrenamed ⊢
  have harg₁ : info.arg1Src = dec.arg1Src := congrArg (·.arg1Src) hrenamed.symm
  have harg₂ : info.arg2Src = dec.arg2Src := congrArg (·.arg2Src) hrenamed.symm
  have hneed₁ : info.rs1NeedMap = dec.rs1NeedMap := congrArg (·.rs1NeedMap) hrenamed.symm
  have hneed₂ : info.rs2NeedMap = dec.rs2NeedMap := congrArg (·.rs2NeedMap) hrenamed.symm
  have hpack : p.lsuPack info = readreg info (p.phyRegfile (p.info dec).rs1Phy).data
      (p.phyRegfile (p.info dec).rs2Phy).data := by
    unfold lsuPack LsuReadreg.readPack readreg
    dsimp only
    rw [operandValue_noImm (harg₁ ▸ h₁) (harg₂ ▸ h₂) info.rs2NeedMap, hphy.1, hphy.2]
    rfl
  rw [hrenamed, hpack]
  refine readreg_congr fun _ _ => ?_
  rw [hneed₁, hneed₂]
  exact ⟨fun hn => (hread₁ hn).1, fun hn => (hread₂ hn).1⟩

/-- A load or a store as the decoder and the operand switch of the ISA model leave it. -/
structure DecodesLsu (w imm : Word) (regs : Isa.ArchRegfile) (s : Isa.State) (op : Isa.LsuOp) :
    Prop where
  subOp : s.subOp = .lsu op
  opUnit : s.opUnit = .lsu
  valid : s.valid = true
  hasException : s.hasException = false
  addr : s.src1Value + s.imm = regs.read (rs1Of w) + imm
  size : op.size = 2 ^ (funct3Of w % 4)
  noImm : s.arg1Src ≠ .imm ∧ s.arg2Src ≠ .imm

theorem decode_load (hw : opcodeOf w = 0x03) (hf : funct3Of w ≠ 3 ∧ funct3Of w < 6) (pc : Word)
    (regs : Isa.ArchRegfile) :
    ∃ op, op.isStore = false ∧ DecodesLsu w ((immI w).signExtend 32) regs
      (Isa.readOperands (Isa.decode (Isa.fetched pc w)) regs) op := by
  have hdecode : Isa.decode (Isa.fetched pc w)
      = Isa.decodeLoad w (Isa.decodeStart (Isa.fetched pc w)) := by
    unfold Isa.decode Isa.decodeSwitch
    rw [show (Isa.fetched pc w).value = w from rfl, hw]
    rfl
  rw [hdecode]
  unfold Isa.decodeLoad
  obtain hf | hf | hf | hf | hf : funct3Of w = 0 ∨ funct3Of w = 1 ∨ funct3Of w = 2
      ∨ funct3Of w = 4 ∨ funct3Of w = 5 := by omega
  all_goals
    rw [hf]
    refine ⟨_, ?_, rfl, rfl, rfl, rfl, rfl, ?_, ArgSrc.noConfusion, ArgSrc.noConfusion⟩
    · rfl
    · rw [hf]
      rfl

theorem decode_store (hw : opcodeOf w = 0x23) (hf : funct3Of w < 3) (pc : Word)
    (regs : Isa.ArchRegfile) :
    ∃ op, op.isStore = true ∧ DecodesLsu w ((immS w).signExtend 32) regs
      (Isa.readOperands (Isa.decode (Isa.fetched pc w)) regs) op := by
  have hdecode : Isa.decode (Isa.fetched pc w)
      = Isa.decodeStore w (Isa.decodeStart (Isa.fetched pc w)) := by
    unfold Isa.decode Isa.decodeSwitch
    rw [show (Isa.fetched pc w).value = w from rfl, hw]
    rfl
  rw [hdecode]
  unfold Isa.decodeStore
  obtain hf | hf | hf : funct3Of w = 0 ∨ funct3Of w = 1 ∨ funct3Of w = 2 := by omega
  all_goals
    rw [hf]
    refine ⟨_, ?_, rfl, rfl, rfl, rfl, rfl, ?_, ArgSrc.noConfusion, ArgSrc.noConfusion⟩
    · rfl
    · rw [hf]
      rfl

theorem SubOp.lu_of_load {o : SubOp} {op : Isa.LsuOp} (h : o.toIsa = .lsu op)
    (hop : op.isStore = false) : ∃ lop, o = .lu lop ∧ lop.size = op.size := by
  cases o
  case lu lop =>
    refine ⟨lop, rfl, ?_⟩
    cases lop <;> cases h <;> rfl
  case sau sop | sdu sop => cases sop <;> cases h <;> cases hop
  all_goals cases h

/-- The address part has the size of the store. -/
theorem SubOp.sdu_of_store {o : SubOp} {op : Isa.LsuOp} (h : o.toIsa = .lsu op)
    (hop : op.isStore = true) (hu : o.unit ≠ .sau) :
    o.unit = .sdu ∧ ∃ aop, LsuIssue.addressOp o = .sau aop ∧ aop.size = op.size := by
  cases o
  case lu lop => cases lop <;> cases h <;> cases hop
  case sau sop => exact absurd rfl hu
  case sdu sop =>
    refine ⟨rfl, ?_⟩
    cases sop <;> cases h
    · exact ⟨_, rfl, rfl⟩
    · exact ⟨_, rfl, rfl⟩
    · exact ⟨_, rfl, rfl⟩
  all_goals cases h

/-- **What the LSU register read makes of a load or a store.** -/
structure Passage.LsuRead (p : Passage m) (q : FetchOpInfo) (rev : ReadregExecutePack)
    (op : Isa.LsuOp) (addr : Word) : Prop where
  pack : p.lsuPack (p.info q.decoded).toIssue = rev
  enable : rev.enable = true
  hasException : rev.hasException = false
  robId : rev.robId = (p.info q.decoded).robId
  opUnit : rev.opUnit = q.decoded.opUnit
  unit : rev.subOp.unit = rev.opUnit
  subOp : rev.subOp.toIsa = .lsu op
  addr : rev.effectiveAddr = addr
  lastUop : rev.lastUop = true

theorem Passage.lsuRead (p : Passage m) (hq : q.Brings m.pc w) {imm : Word} {op : Isa.LsuOp}
    (h : DecodesLsu w imm m.archRegfile (m.operands w) op) :
    ∃ rev, p.LsuRead q rev op (m.archRegfile.read (rs1Of w) + imm) := by
  obtain ⟨-, -, hvalid, -⟩ :=
    Isa.readOperands_rest (Isa.decode (Isa.fetched m.pc w)) m.archRegfile
  have hv : q.decoded.valid = true := by
    rw [hq.valid, ← hvalid]
    exact h.valid
  obtain ⟨hsame, -⟩ := hq.same hv
  have harg : (m.operands w).arg1Src = q.decoded.arg1Src
      ∧ (m.operands w).arg2Src = q.decoded.arg2Src := by
    rw [hsame.arg1Src, hsame.arg2Src]
    unfold Isa.Model.operands Isa.readOperands
    split <;> exact ⟨rfl, rfl⟩
  have hregs : q.decoded.RegsOk := decode_regsOk q.toFetch2DecodePack
  have hpack := p.lsuPack_eq hregs (harg.1 ▸ h.noImm.1) (harg.2 ▸ h.noImm.2)
  have hops := hq.operands hv (p.info q.decoded).toIssue
  have hinfo := readreg_toOpInfo (q.decoded.renamed (p.info q.decoded).toIssue)
    (m.archRegfile.read q.decoded.rs1) (m.archRegfile.read q.decoded.rs2)
  generalize readreg (q.decoded.renamed (p.info q.decoded).toIssue)
    (m.archRegfile.read q.decoded.rs1) (m.archRegfile.read q.decoded.rs2) = rev at *
  refine ⟨rev, hpack, hops.enable, hops.hasException.1, ?_, ?_, hops.unit,
    hops.subOp.trans h.subOp, ?_, ?_⟩
  · rw [show rev.robId = (p.info q.decoded).toIssue.robId from congrArg (·.robId) hinfo]
    unfold OpInfo.toIssue
    split <;> rfl
  · exact congrArg (·.opUnit) hinfo
  · rw [← h.addr, ← hops.src1Value, ← hops.imm]
    rfl
  · exact congrArg (·.lastUop) hinfo

end DreamCore
