import DreamCore.Machine.LoneLoad

/-!
# A store, alone

The address part of a store reports a misaligned address. When the data part is
merged in the same cycle the report is lost, since both start from the entry as it
was. A store that has raised nothing goes to the retired store buffer or to the CLINT,
which takes whole registers only.
-/

namespace DreamCore

open Ring

variable {m : Isa.Model} {p : Passage m} {w : Word} {q : FetchOpInfo} {rev : ReadregExecutePack}

/-! ## Stores in both models -/

/-- The offsets of the registers. -/
def Clint.registers : List Nat :=
  [msipAddr, mtimecmpAddr, mtimecmpAddr + 4, mtimeAddr, mtimeAddr + 4]

theorem Clint.write32_isSome (c : Clint) (addr : Nat) (value : Word) :
    (c.write32 addr value).isSome = decide (addr ∈ registers) := by
  unfold write32
  by_cases h : addr ∈ registers
  · rw [decide_eq_true h]
    simp only [registers, List.mem_cons, List.not_mem_nil, or_false] at h
    rcases h with rfl | rfl | rfl | rfl | rfl <;> rfl
  · rw [decide_eq_false h]
    simp only [registers, List.mem_cons, List.not_mem_nil, or_false, not_or] at h
    obtain ⟨h₁, h₂, h₃, h₄, h₅⟩ := h
    rw [if_neg h₁, if_neg h₂, if_neg h₃, if_neg h₄, if_neg h₅]
    rfl

/-- A word that is a register of the CLINT. -/
def ClintRegister (addr : Word) (size : Nat) : Prop :=
  size = 4 ∧ clintSlave.maps addr false = true
    ∧ (clintSlave.offset addr).toNat ∈ Clint.registers

/-- **What commit makes of a store** that has raised nothing. -/
theorem storeEnding_retires {item : RobItem} {addr value : Word} {k : Nat} (hk : k ≤ 2) :
    storeEnding m item addr (2 ^ k) value = .retires
      ↔ isCacheable addr = true
        ∨ checkAlign addr (2 ^ k) = true ∧ ClintRegister addr (2 ^ k) := by
  unfold storeEnding
  cases hc : isCacheable addr with
  | true => exact iff_of_true rfl (.inl rfl)
  | false =>
    rw [if_neg Bool.false_ne_true]
    unfold noncacheableWrite
    cases hm : clintSlave.maps addr false with
    | false =>
      refine iff_of_false Ending.noConfusion ?_
      rintro (h | ⟨-, -, h, -⟩)
      · cases h
      · rw [hm] at h
        cases h
    | true =>
      rw [if_pos rfl, SlaveInfo.check_eq hk (by decide) (by decide) (by decide) hm]
      cases ha : checkAlign addr (2 ^ k) with
      | false =>
        refine iff_of_false Ending.noConfusion ?_
        rintro (h | ⟨h, -⟩) <;> cases h
      | true =>
        rw [if_pos rfl]
        by_cases h4 : 2 ^ k = 4
        · rw [if_pos h4]
          have hwrite := Clint.write32_isSome m.clint (clintSlave.offset addr).toNat value
          cases hs : m.clint.write32 (clintSlave.offset addr).toNat value with
          | none =>
            rw [hs] at hwrite
            refine iff_of_false Ending.noConfusion ?_
            rintro (h | ⟨-, -, -, h⟩)
            · cases h
            · rw [decide_eq_true h] at hwrite
              cases hwrite
          | some clint =>
            rw [hs] at hwrite
            exact iff_of_true rfl (.inr ⟨rfl, h4, hm, of_decide_eq_true hwrite.symm⟩)
        · rw [if_neg h4]
          refine iff_of_false Ending.noConfusion ?_
          rintro (h | ⟨-, h, -⟩)
          · cases h
          · exact h4 h

namespace Passage

/-- What the input part of commit makes of two results of one cycle: the second is merged into
what the first has not changed. -/
theorem reported_together (dec : DecodeRenamePack) {a b : ExecuteWbPack}
    (ha : a.enable = true ∧ a.robId = (p.info dec).robId)
    (hb : b.enable = true ∧ b.robId = (p.info dec).robId) :
    p.reported dec [[a, b]] = (p.item dec).applyResult b := by
  unfold reported
  dsimp only [List.foldl_cons, List.foldl_nil]
  unfold commitInput
  rw [if_pos ha.1, if_pos hb.1, ha.2, hb.2]
  dsimp only [Fifo.setItem, Fifo.customerGetItem]
  rw [Function.update_self, Function.update_self]

/-- And of two results of two cycles. -/
theorem reported_apart (dec : DecodeRenamePack) {a b : ExecuteWbPack}
    (ha : a.enable = true ∧ a.robId = (p.info dec).robId)
    (hb : b.enable = true ∧ b.robId = (p.info dec).robId) :
    p.reported dec [[a], [b]] = ((p.item dec).applyResult a).applyResult b := by
  unfold reported
  dsimp only [List.foldl_cons, List.foldl_nil]
  unfold commitInput
  rw [if_pos ha.1, if_pos hb.1, ha.2, hb.2]
  dsimp only [Fifo.setItem, Fifo.customerGetItem]
  rw [Function.update_self, Function.update_self, Function.update_self]

variable {op : Isa.LsuOp} {addr : Word}

/-- The two parts. -/
theorem address_eq (h : p.LsuRead q rev op addr) (last : Bool) :
    p.address (p.info q.decoded) last = { rev with
      lastUop := last
      opUnit := .sau
      subOp := LsuIssue.addressOp rev.subOp } := by
  have hop : rev.subOp = (p.info q.decoded).toIssue.subOp := by
    rw [← h.pack]
    unfold lsuPack LsuReadreg.readPack
    dsimp only
    split <;> rfl
  rw [hop, ← h.pack]
  unfold address lsuPack LsuReadreg.readPack
  dsimp only
  split <;> rfl

theorem data_eq (h : p.LsuRead q rev op addr) (last : Bool) :
    p.data (p.info q.decoded) last = { rev with lastUop := last } := by
  rw [← h.pack]
  unfold data lsuPack LsuReadreg.readPack
  dsimp only
  split <;> rfl

/-- What the address unit reports. -/
structure SauSent (p : Passage m) (q : FetchOpInfo) (addr : Word) (aligned last : Bool)
    (send : ExecuteWbPack) : Prop where
  sent : send.enable = true ∧ send.robId = (p.info q.decoded).robId
  lastUop : send.lastUop = last
  opUnit : send.opUnit = .sau
  hasException : send.hasException = !aligned
  exceptionId : aligned = false → send.exceptionId = .storeAmoAddressMisaligned
  exceptionValue : send.exceptionValue = addr

theorem sau_sent (h : p.LsuRead q rev op addr) {aop : SauOp}
    (haop : LsuIssue.addressOp rev.subOp = .sau aop) (last : Bool) :
    p.SauSent q addr (checkAlign addr aop.size) last
      (sauCompute (p.address (p.info q.decoded) last)) := by
  have hsend : sauCompute (p.address (p.info q.decoded) last)
      = { ExecuteWbPack.copy (p.address (p.info q.decoded) last) with
          branchPredictorInfoPack := {}
          exceptionValue := addr
          hasException := !checkAlign addr aop.size
          exceptionId := if checkAlign addr aop.size then .storeAmoAccessFault
            else .storeAmoAddressMisaligned } := by
    rw [address_eq h last, ← h.addr]
    unfold sauCompute sauSize
    dsimp only
    rw [haop, h.enable, h.hasException]
    rfl
  rw [hsend, address_eq h last]
  refine ⟨⟨h.enable, h.robId⟩, rfl, rfl, rfl, fun ha => ?_, rfl⟩
  dsimp only
  rw [ha]
  rfl

/-- What the data unit reports. -/
structure SduSent (p : Passage m) (q : FetchOpInfo) (last : Bool) (send : ExecuteWbPack) :
    Prop where
  sent : send.enable = true ∧ send.robId = (p.info q.decoded).robId
  lastUop : send.lastUop = last
  opUnit : send.opUnit = .sdu
  hasException : send.hasException = false

theorem sdu_sent (h : p.LsuRead q rev op addr) (hu : rev.opUnit = .sdu) (last : Bool) :
    p.SduSent q last (sduCompute (p.data (p.info q.decoded) last)) := by
  rw [data_eq h last]
  exact ⟨⟨h.enable, h.robId⟩, rfl, hu, h.hasException⟩

end Passage

/-- What commit does with a finished entry that is no branch. -/
theorem RobItem.ending_finished {csr : CsrFile} {item : RobItem} {fin : Ending}
    (hfinish : item.finish = true) (hbru : item.bruOp = false) :
    item.ending csr fin
      = if item.hasException then
          .traps ⟨item.exceptionId.toWord, item.pc &&& ~~~0x3, item.exceptionValue⟩
        else fin := by
  unfold ending
  rw [hfinish, hbru, RobItem.trap_eq]
  rfl

/-- An entry with two results raises what the first of them raised, if it raised anything. -/
theorem ending_applyTwice {csr : CsrFile} {item : RobItem} {a b : ExecuteWbPack} {fin : Ending}
    (hitem : item.hasException = false) (hlast : b.lastUop = true) (hbru : b.opUnit ≠ .bru) :
    ((item.applyResult a).applyResult b).ending csr fin
      = if a.hasException then
          .traps ⟨a.exceptionId.toWord, item.pc &&& ~~~0x3, a.exceptionValue⟩
        else if b.hasException then
          .traps ⟨b.exceptionId.toWord, item.pc &&& ~~~0x3, b.exceptionValue⟩
        else fin := by
  rw [RobItem.ending_finished]
  · unfold RobItem.applyResult
    rw [hitem]
    cases a.hasException <;> rfl
  · unfold RobItem.applyResult
    dsimp only
    rw [hlast, Bool.or_true]
  · unfold RobItem.applyResult
    exact beq_false_of_ne hbru

namespace Passage

variable {op : Isa.LsuOp} {addr : Word}

/-- **The two parts of a store in commit**: a misaligned address is reported, unless the data part
is merged in the same cycle. -/
theorem parts_ending (hq : q.Brings m.pc w) (h : p.LsuRead q rev op addr) {aop : SauOp}
    (haop : LsuIssue.addressOp rev.subOp = .sau aop) (hu : rev.opUnit = .sdu) (fin : Ending) :
    (p.reported q.decoded (p.parts (p.info q.decoded))).ending m.csr.regs fin
      = if p.arrival ≠ .together ∧ checkAlign addr aop.size = false then
          .traps ⟨RiscvException.storeAmoAddressMisaligned.toWord, m.pc &&& ~~~0x3, addr⟩
        else fin := by
  have hpc : (p.item q.decoded).pc = m.pc := (decode_pc q.toFetch2DecodePack).trans hq.pc
  have hitem : (p.item q.decoded).hasException = false := hq.hasException
  have hsau := p.sau_sent h haop
  have hsdu := p.sdu_sent h hu
  have hno {send : ExecuteWbPack} {last : Bool} (hs : p.SduSent q last send) :
      send.opUnit ≠ .bru := by
    rw [hs.opUnit]
    exact OpUnit.noConfusion
  -- what the address part raises, wherever it comes
  have hraised (last : Bool) :
      (if (sauCompute (p.address (p.info q.decoded) last)).hasException then
        Ending.traps ⟨(sauCompute (p.address (p.info q.decoded) last)).exceptionId.toWord,
          m.pc &&& ~~~0x3, (sauCompute (p.address (p.info q.decoded) last)).exceptionValue⟩
        else fin)
      = if checkAlign addr aop.size = false then
          .traps ⟨RiscvException.storeAmoAddressMisaligned.toWord, m.pc &&& ~~~0x3, addr⟩
        else fin := by
    rw [(hsau last).hasException, (hsau last).exceptionValue]
    cases ha : checkAlign addr aop.size with
    | false =>
      rw [(hsau last).exceptionId ha]
      rfl
    | true => rfl
  unfold parts
  cases harrival : p.arrival with
  | together =>
    dsimp only
    rw [reported_together _ (hsau false).sent (hsdu true).sent, if_neg fun h => h.1 rfl,
      ending_applyResult hitem (hsdu true).lastUop fun h => absurd h (hno (hsdu true)),
      (hsdu true).hasException]
    rfl
  | addressFirst =>
    dsimp only
    rw [reported_apart _ (hsau false).sent (hsdu true).sent,
      ending_applyTwice hitem (hsdu true).lastUop (hno (hsdu true)), (hsdu true).hasException,
      if_neg Bool.false_ne_true, hpc, hraised]
    simp
  | dataFirst =>
    have hbru : (sauCompute (p.address (p.info q.decoded) true)).opUnit ≠ .bru := by
      rw [(hsau true).opUnit]
      exact OpUnit.noConfusion
    dsimp only
    rw [reported_apart _ (hsdu false).sent (hsau true).sent,
      ending_applyTwice hitem (hsau true).lastUop hbru, (hsdu false).hasException,
      if_neg Bool.false_ne_true, hpc, hraised]
    simp

/-- **A store ends alike** where it is aligned and goes to the memory or to a register of the
CLINT. The misaligned ones that end alike are those whose exception is lost and whose address the
bus of the ISA model does not know. -/
theorem store_same_iff (hq : q.Brings m.pc w) (hw : opcodeOf w = 0x23) (hf : funct3Of w < 3)
    (m' : Isa.Model) (n : Nat) :
    (p.execute q.decoded n).Same (Isa.endingOf (Isa.executeUnit (m.operands w) m'))
      ↔ if checkAlign (m.storeAddr w) (accessSize w) = true then
          isCacheable (m.storeAddr w) = true ∨ ClintRegister (m.storeAddr w) (accessSize w)
        else p.arrival = .together ∧ isCacheable (m.storeAddr w) = true
          ∧ memorySlave.maps (m.storeAddr w) false = false := by
  obtain ⟨op, hop, hdec⟩ := decode_store hw hf m.pc m.archRegfile
  obtain ⟨rev, hread⟩ := p.lsuRead hq hdec
  have hsau : rev.subOp.unit ≠ .sau := by
    rw [hread.unit, hread.opUnit, show q.decoded.opUnit = (p.info q.decoded).opUnit from
      (congrArg (·.opUnit) (p.info_sends q.decoded)).symm]
    exact (p.info_sends q.decoded).unit_ne_sau
  obtain ⟨hunit, aop, haop, hasize⟩ := SubOp.sdu_of_store hread.subOp hop hsau
  have hu : rev.opUnit = .sdu := hread.unit.symm.trans hunit
  have hsize : aop.size = accessSize w := hasize.trans hdec.size
  obtain ⟨k, hk, hpow⟩ := accessSize_pow (w := w) (by omega)
  have hisa : Isa.endingOf (Isa.executeUnit (m.operands w) m')
      = if Isa.busTakes (m.storeAddr w) (accessSize w) then .retires else .aborts := by
    unfold Isa.executeUnit
    rw [hdec.opUnit]
    have hend := Isa.executeLsu_ends hdec.valid hdec.hasException hdec.subOp m'
    rw [hdec.addr, hdec.size] at hend
    exact hend
  have haddr : (p.address (p.info q.decoded) false).effectiveAddr = m.storeAddr w := by
    rw [address_eq hread false]
    exact hread.addr
  have hasau : sauSize (p.address (p.info q.decoded) false) = accessSize w := by
    rw [address_eq hread false, ← hsize]
    unfold sauSize
    dsimp only
    rw [haop]
  have hexecute : p.execute q.decoded n
      = if p.arrival ≠ .together ∧ checkAlign (m.storeAddr w) (accessSize w) = false then
          .traps ⟨RiscvException.storeAmoAddressMisaligned.toWord, m.pc &&& ~~~0x3, m.storeAddr w⟩
        else storeEnding m (p.reported q.decoded (p.parts (p.info q.decoded))) (m.storeAddr w)
          (accessSize w) (sduData (p.data (p.info q.decoded) false)) := by
    unfold execute
    dsimp only
    rw [← hread.opUnit, hu]
    dsimp only
    rw [haddr, hasau, parts_ending hq hread haop hu, hsize]
    rfl
  rw [hisa, Ending.same_performed, hexecute, hpow, Isa.busTakes_eq _ hk]
  generalize m.storeAddr w = addr
  cases ha : checkAlign addr (2 ^ k) with
  | true =>
    rw [if_neg fun h => Bool.noConfusion h.2, storeEnding_retires hk, ha]
    simp
  | false =>
    rw [if_neg Bool.false_ne_true, Bool.false_or, Bool.and_eq_true, Bool.not_eq_true',
      Bool.not_eq_true']
    by_cases harrival : p.arrival = .together
    · rw [if_neg fun h => h.1 harrival, storeEnding_retires hk, ha]
      constructor
      · rintro ⟨hc | ⟨h, -⟩, hm, -⟩
        · exact ⟨harrival, hc, hm⟩
        · cases h
      · rintro ⟨-, hc, hm⟩
        refine ⟨.inl hc, hm, Bool.eq_false_iff.mpr fun hclint => ?_⟩
        rw [clint_noncacheable hclint] at hc
        cases hc
    · rw [if_pos ⟨harrival, rfl⟩]
      exact iff_of_false (fun h => Ending.noConfusion h.1) fun h => harrival h.1

end Passage

end DreamCore
