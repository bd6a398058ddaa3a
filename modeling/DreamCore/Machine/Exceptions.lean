import DreamCore.Machine.LoneStore

/-!
# The exceptions of the two models

For which instruction words an instruction that is alone ends alike in both models.
The decoders and the units agree; what differs is how the two models tell what they
do not perform. The ISA model has no exception for a load or a store and fails a
`verify_only` instead, reports an illegal CSR access without the word, because its
decoder does not keep it, and has no load counters; the units of the LSU and the
branch unit get an illegal word as such there, where the cycle model hands it to
the ALU. In the cycle model the CLINT does not answer narrow loads, the noncacheable
bus refuses stores, and what the address part of a store raises is lost when the data
part comes to commit in the same cycle.
-/

namespace DreamCore

open Ring

variable {m : Isa.Model} {p : Passage m} {w : Word} {q : FetchOpInfo}

/-- **The words that both models end alike**, in the state of `m`. -/
structure Isa.Model.RaisesAlike (m : Isa.Model) (arrival : Arrival) (w : Word) : Prop where
  /-- `funct3` is that of a branch. -/
  branch : opcodeOf w = 0x63 → funct3Of w ≠ 2 ∧ funct3Of w ≠ 3
  /-- `funct3` is that of a load, the address is aligned, and it is not a byte or a halfword of the
  CLINT that is asked for. -/
  load : opcodeOf w = 0x03 → (funct3Of w ≠ 3 ∧ funct3Of w < 6)
    ∧ checkAlign (m.loadAddr w) (accessSize w) = true
    ∧ (clintSlave.maps (m.loadAddr w) false = true → accessSize w = 4)
  /-- `funct3` is that of a store, and an aligned one goes to the memory or to a register of the
  CLINT. Of a misaligned one the pipeline has to lose the exception, and the ISA model has to find
  no slave at the address. -/
  store : opcodeOf w = 0x23 → funct3Of w < 3
    ∧ if checkAlign (m.storeAddr w) (accessSize w) = true then
        isCacheable (m.storeAddr w) = true ∨ ClintRegister (m.storeAddr w) (accessSize w)
      else arrival = .together ∧ isCacheable (m.storeAddr w) = true
        ∧ memorySlave.maps (m.storeAddr w) false = false
  /-- The ISA model permits the access. -/
  csr : isZicsr w = true → isaCsrTable.allows w = true

/-- There is nothing to say about the other words. -/
theorem Plain.raisesAlike (h : Plain w) (arrival : Arrival) : m.RaisesAlike arrival w where
  branch hw := absurd hw h.1
  load hw := absurd hw h.2.1
  store hw := absurd hw h.2.2.1
  csr hw := by
    rw [h.2.2.2] at hw
    cases hw

/-- The opcode of a CSR instruction is none of those of branches, loads and stores. -/
theorem raisesAlike_csr {arrival : Arrival} (hw : isZicsr w = true) :
    m.RaisesAlike arrival w ↔ isaCsrTable.allows w = true := by
  have hopcode := (isZicsr_iff.mp hw).1
  refine ⟨fun h => h.csr hw, fun h => ⟨?_, ?_, ?_, fun _ => h⟩⟩
  all_goals
    rw [hopcode]
    intro hno
    exact absurd hno (by decide)

theorem isZicsr_of_opcode (hw : opcodeOf w ≠ 0x73) : isZicsr w = false := by
  rw [Bool.eq_false_iff]
  exact fun h => hw (isZicsr_iff.mp h).1

/-! ## Illegal loads and stores -/

/-- **A load or a store with a reserved `funct3` aborts the ISA model.** -/
theorem Isa.executeUnit_reserved (hw : opcodeOf w = 0x03 ∧ ¬(funct3Of w ≠ 3 ∧ funct3Of w < 6)
      ∨ opcodeOf w = 0x23 ∧ ¬funct3Of w < 3) (m m' : Isa.Model) :
    Isa.endingOf (Isa.executeUnit (m.operands w) m') = .aborts := by
  have hdecode : (Isa.decode (Isa.fetched m.pc w)).valid = false
      ∧ (Isa.decode (Isa.fetched m.pc w)).opUnit = .lsu := by
    unfold Isa.decode Isa.decodeSwitch
    rw [show (Isa.fetched m.pc w).value = w from rfl]
    rcases hw with ⟨hw, hf⟩ | ⟨hw, hf⟩ <;> rw [hw]
    · obtain ⟨hv, hu⟩ := decodeLoad_valid (w := w) (s := Isa.decodeStart (Isa.fetched m.pc w)) rfl
      exact ⟨hv.trans (decide_eq_false hf), hu⟩
    · obtain ⟨hv, hu⟩ := decodeStore_valid (w := w) (s := Isa.decodeStart (Isa.fetched m.pc w)) rfl
      exact ⟨hv.trans (decide_eq_false hf), hu⟩
  unfold Isa.Model.operands
  rw [readOperands_invalid hdecode.1]
  unfold Isa.executeUnit Isa.executeLsu
  rw [hdecode.1, hdecode.2]
  rfl

/-- An instruction that aborts ends like no other. -/
theorem Ending.not_same_aborts (e : Ending) : ¬e.Same .aborts := fun h => h.2.1 h.1

/-! ## Word by word -/

/-- **What the execution stages and the ISA model make of a word** that fetch hands on. -/
theorem Passage.execute_iff (p : Passage m) (hq : q.Brings m.pc w)
    (hw : reservedBranch w = false) (m' : Isa.Model) :
    (∃ n, ∀ n' ≥ n, (p.execute q.decoded n').Same
        (Isa.endingOf (Isa.executeUnit (m.operands w) m')))
      ↔ m.RaisesAlike p.arrival w := by
  by_cases hload : opcodeOf w = 0x03
  · have hno : isZicsr w = false := isZicsr_of_opcode (by rw [hload]; decide)
    have hiff : m.RaisesAlike p.arrival w ↔ (funct3Of w ≠ 3 ∧ funct3Of w < 6)
        ∧ checkAlign (m.loadAddr w) (accessSize w) = true
        ∧ (clintSlave.maps (m.loadAddr w) false = true → accessSize w = 4) := by
      refine ⟨fun h => h.load hload, fun h => ⟨?_, fun _ => h, ?_, ?_⟩⟩
      all_goals simp [hload, hno]
    rw [hiff]
    by_cases hf : funct3Of w ≠ 3 ∧ funct3Of w < 6
    · rw [p.load_same_iff hq hload hf m']
      exact (and_iff_right hf).symm
    · refine iff_of_false ?_ fun h => hf h.1
      rintro ⟨n, hn⟩
      have hend := hn n (Nat.le_refl n)
      rw [Isa.executeUnit_reserved (.inl ⟨hload, hf⟩)] at hend
      exact Ending.not_same_aborts _ hend
  by_cases hstore : opcodeOf w = 0x23
  · have hno : isZicsr w = false := isZicsr_of_opcode (by rw [hstore]; decide)
    have hiff : m.RaisesAlike p.arrival w ↔ funct3Of w < 3
        ∧ if checkAlign (m.storeAddr w) (accessSize w) = true then
            isCacheable (m.storeAddr w) = true ∨ ClintRegister (m.storeAddr w) (accessSize w)
          else p.arrival = .together ∧ isCacheable (m.storeAddr w) = true
            ∧ memorySlave.maps (m.storeAddr w) false = false := by
      refine ⟨fun h => h.store hstore, fun h => ⟨?_, ?_, fun _ => h, ?_⟩⟩
      all_goals simp [hstore, hno]
    rw [hiff]
    by_cases hf : funct3Of w < 3
    · simp only [p.store_same_iff hq hstore hf m']
      exact ⟨fun ⟨n, hn⟩ => ⟨hf, hn n (Nat.le_refl n)⟩, fun h => ⟨0, fun _ _ => h.2⟩⟩
    · refine iff_of_false ?_ fun h => hf h.1
      rintro ⟨n, hn⟩
      have hend := hn n (Nat.le_refl n)
      rw [Isa.executeUnit_reserved (.inr ⟨hstore, hf⟩)] at hend
      exact Ending.not_same_aborts _ hend
  by_cases hzicsr : isZicsr w = true
  · rw [raisesAlike_csr hzicsr]
    simp only [p.csr_same_iff hq hzicsr m']
    exact ⟨fun ⟨n, hn⟩ => hn n (Nat.le_refl n), fun h => ⟨0, fun _ _ => h⟩⟩
  have hno : isZicsr w = false := Bool.eq_false_iff.mpr hzicsr
  by_cases hbranch : opcodeOf w = 0x63
  · have hf : funct3Of w ≠ 2 ∧ funct3Of w ≠ 3 := by
      simpa [reservedBranch, hbranch] using hw
    refine iff_of_true ⟨0, fun n _ => ?_⟩ ⟨fun _ => hf, ?_, ?_, ?_⟩
    · have hdecode : (Isa.decode (Isa.fetched m.pc w)).valid = true
          ∧ (Isa.decode (Isa.fetched m.pc w)).opUnit = .bru := by
        unfold Isa.decode Isa.decodeSwitch
        rw [show (Isa.fetched m.pc w).value = w from rfl, hbranch]
        obtain ⟨hv, hu⟩ := Isa.decodeBranch_valid (w := w)
          (s := Isa.decodeStart (Isa.fetched m.pc w)) rfl
        exact ⟨hv.trans (decide_eq_true hf), hu⟩
      have hv : q.decoded.valid = true := hq.valid.trans hdecode.1
      exact p.execute_computes hq hv (.inr (.inl (hq.unit hv hdecode.2 rfl))) m' n
    all_goals simp [hbranch, hno]
  · have hplain : Plain w := ⟨hbranch, hload, hstore, hno⟩
    exact iff_of_true ⟨0, fun n _ => p.execute_plain hq hplain m' n⟩ (hplain.raisesAlike _)

/-- **The exceptions of the two models, exactly.** An instruction alone at a program counter that
can be fetched ends alike in both models if and only if its word is one of those, whatever the
registers, the CSRs, the memory, the predictors, the renaming and the latency of the memory. -/
theorem exceptions_iff (h : m.Fetchable) (p : Passage m) :
    p.EndsAlike ↔ m.RaisesAlike p.arrival m.word := by
  have hword : memoryGroup m.mem (memorySlave.offset m.pc) ⟨0, fetchWidth_pos⟩ = m.word := rfl
  unfold Passage.EndsAlike Passage.ending
  rw [h.cycle, h.ending]
  dsimp only
  rw [hword]
  cases hw : reservedBranch m.word with
  | true =>
    rw [Passage.fetch_none h.aligned hw]
    refine iff_of_false ?_ fun hr => ?_
    · rintro ⟨n, hn⟩
      exact (hn n (Nat.le_refl n)).2.1 rfl
    · simp only [reservedBranch, Bool.and_eq_true, beq_iff_eq, Bool.or_eq_true] at hw
      obtain ⟨hne₂, hne₃⟩ := hr.branch hw.1
      exact hw.2.elim hne₂ hne₃
  | false =>
    obtain ⟨q, hfetch, hrecorded, hpc, hvalue, hx⟩ := p.fetch_some h.aligned hw
    rw [hfetch]
    exact p.execute_iff ⟨hrecorded, hpc, hvalue, hx⟩ hw _

/-! ## Single words -/

/-- The word at the start of the memory, with registers and CSRs as after reset. -/
def wordModel (w : Word) : Isa.Model where
  pc := 0x80000000
  archRegfile := (scratchModel 0).archRegfile
  csr := ⟨CsrFile.reset, {}⟩
  mem := Mem.write (fun _ => 0) 0 4 w
  clint := {}

/-- Every physical register holds zero. -/
def zeroRegfile : Regfile := fun _ => ⟨0, true, ⟨0, false⟩, false⟩

theorem zeroRegfile_holds (w : Word) (a : Nat) (_ : IsReg a) :
    (zeroRegfile (id a)).data = (wordModel w).archRegfile.read a
      ∧ (zeroRegfile (id a)).dataValid = true := ⟨rfl, rfl⟩

/-- Its way through a pipeline after reset. -/
def wordPassage (w : Word) : Passage (wordModel w) where
  before := Core.reset
  mapped := Core.reset
  map := id
  oldPhyRegId := 0
  rdPhy := 32
  phyRegfile := zeroRegfile
  holds := zeroRegfile_holds w
  checkpoint := none
  arrival := .together
  latency := 10

theorem wordModel_fetchable (w : Word) : (wordModel w).Fetchable where
  aligned := show checkAlign 0x80000000 4 = true by decide
  mapped := show memorySlave.maps 0x80000000 true = true by decide

/-- **A load with `funct3` 3** traps in the pipeline and stops the ISA model. -/
theorem reservedLoad_aborts : (wordModel 0x00003003).Fetchable
    ∧ (wordModel 0x00003003).ending = .aborts
    ∧ (wordPassage 0x00003003).ending 0 = .traps ⟨2, 0x80000000, 0⟩
    ∧ ¬(wordPassage 0x00003003).EndsAlike := by
  have haborts : (wordModel 0x00003003).ending = .aborts := by decide +kernel
  refine ⟨wordModel_fetchable _, haborts, by decide +kernel, ?_⟩
  rintro ⟨n, hn⟩
  have hend := hn n (Nat.le_refl n)
  rw [haborts] at hend
  exact Ending.not_same_aborts _ hend

/-- `ecall` traps in both. -/
theorem exceptions_ecall :
    (wordModel 0x00000073).ending = .traps ⟨11, 0x80000000, 0⟩
      ∧ (wordPassage 0x00000073).EndsAlike := by
  refine ⟨by decide +kernel, (exceptions_iff (wordModel_fetchable _) _).mpr ?_⟩
  rw [show (wordModel 0x00000073).word = 0x00000073 by decide +kernel]
  exact Plain.raisesAlike ⟨by decide, by decide, by decide, by decide⟩ _

end DreamCore
