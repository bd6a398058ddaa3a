import DreamCore.Pipeline.Fetch1

/-!
# Fetch and decode tell the same jumps apart

Fetch looks at the opcode, and for `mret` at the whole word; decode looks at every
field. Where decode finds a legal operation of the branch unit, fetch has found a
jump, and the other way round, but for the two values of `funct3` that no branch
has: fetch takes such a word for a branch and fails a `verify_only`.
-/

namespace DreamCore

/-- What decode makes of a fetched word is a legal operation of the branch unit. -/
def Fetch2DecodePack.legalBranch (q : Fetch2DecodePack) : Bool :=
  (decode q).valid && (decode q).opUnit == .bru

/-- A branch opcode with a `funct3` that no branch has. -/
def reservedBranch (opcode : Word) : Bool :=
  opcodeOf opcode == 0x63 && (funct3Of opcode == 2 || funct3Of opcode == 3)

/-! ## Word by word -/

/-- The fields of a word make it up. -/
theorem word_fields (w : Word) : w.toNat = opcodeOf w + rdOf w * 2 ^ 7 + funct3Of w * 2 ^ 12
    + rs1Of w * 2 ^ 15 + rs2Of w * 2 ^ 20 + funct7Of w * 2 ^ 25 := by
  have hlt := w.isLt
  simp only [opcodeOf, rdOf, funct3Of, rs1Of, rs2Of, funct7Of, BitVec.extractLsb'_toNat,
    Nat.shiftRight_eq_div_pow]
  omega

/-- Only one word has the fields of `mret`. -/
theorem mret_word {w : Word} : w = 0x30200073 ↔ opcodeOf w = 0x73 ∧ funct3Of w = 0 ∧ rdOf w = 0
    ∧ rs1Of w = 0 ∧ funct7Of w = 0x18 ∧ rs2Of w = 2 := by
  constructor
  · rintro rfl
    decide
  · intro ⟨h₁, h₂, h₃, h₄, h₅, h₆⟩
    have h := word_fields w
    rw [h₁, h₂, h₃, h₄, h₅, h₆] at h
    exact BitVec.eq_of_toNat_eq h

theorem isBranch_other {q : DecodeRenamePack} (hq : q.opUnit ≠ .bru) :
    (q.valid && q.opUnit == .bru) = false := by
  rw [beq_false_of_ne hq, Bool.and_false]

theorem decodeBranch_branch (w : Word) {p : DecodeRenamePack} (hv : p.valid = true) :
    ((decodeBranch w p).valid && (decodeBranch w p).opUnit == .bru)
      = !(funct3Of w == 2 || funct3Of w == 3) := by
  have hlt : funct3Of w < 8 := (w.extractLsb' 12 3).isLt
  unfold decodeBranch
  dsimp only
  split
  case h_7 h₁ h₂ h₃ h₄ h₅ h₆ =>
    have hf : funct3Of w = 2 ∨ funct3Of w = 3 := by
      rw [imp_false] at h₁ h₂ h₃ h₄ h₅ h₆
      omega
    rcases hf with hf | hf <;> rw [hf] <;> rfl
  all_goals
    rename_i hf
    rw [hv, hf]
    rfl

/-- Loads, stores and arithmetic decode to some other unit, if at all. -/
theorem decodeOther_branch (w : Word) {p q : DecodeRenamePack}
    (hq : q = decodeLoad w p ∨ q = decodeStore w p ∨ q = decodeOpImm w p ∨ q = decodeOpReg w p) :
    (q.valid && q.opUnit == .bru) = false := by
  refine isBranch_other ?_
  rcases hq with rfl | rfl | rfl | rfl
  · unfold decodeLoad
    split <;> exact OpUnit.noConfusion
  · unfold decodeStore
    split <;> exact OpUnit.noConfusion
  · unfold decodeOpImm
    split <;> exact OpUnit.noConfusion
  · unfold decodeOpReg
    split <;> exact OpUnit.noConfusion

theorem decodeFence_branch (w : Word) {p : DecodeRenamePack} (hu : p.opUnit = .alu) :
    ((decodeFence w p).valid && (decodeFence w p).opUnit == .bru) = false := by
  refine isBranch_other ?_
  have hinv : p.invalid.opUnit ≠ .bru := by
    rw [show p.invalid.opUnit = .alu from hu]
    exact OpUnit.noConfusion
  unfold decodeFence
  split <;> (try split) <;> first | exact hinv | exact OpUnit.noConfusion

theorem fetchJump_eq {w : Word} (h : opcodeOf w ≠ 0x73) :
    fetchJump w = (opcodeOf w == 0x6f || opcodeOf w == 0x67 || opcodeOf w == 0x63) := by
  have hw : (w == 0x30200073) = false := beq_false_of_ne fun hw => h (mret_word.mp hw).1
  rw [fetchJump, hw, Bool.or_false]

/-- The system opcode: `mret` is the one branch among its words. -/
theorem decodeSystem_branch (w : Word) {p : DecodeRenamePack} (hop : opcodeOf w = 0x73)
    (hv : p.valid = true) :
    ((decodeSystem w p).valid && (decodeSystem w p).opUnit == .bru) = (w == 0x30200073) := by
  have hne {f : Nat} (hf : funct3Of w = f) (h : f ≠ 0) : (w == 0x30200073) = false :=
    beq_false_of_ne fun hw => h (hf.symm.trans (mret_word.mp hw).2.1)
  have hinv : (p.invalid.valid && p.invalid.opUnit == .bru) = false := rfl
  unfold decodeSystem
  split
  case h_1 hf =>
    split
    case isTrue hr =>
      split
      case h_3 h₇ h₂ =>
        rw [mret_word.mpr ⟨hop, hf, hr.1, hr.2, h₇, h₂⟩, hv]
        rfl
      case h_1 h₇ h₂ =>
        rw [hv]
        refine (beq_false_of_ne fun hw => ?_).symm
        have h := (mret_word.mp hw).2.2.2.2.2
        omega
      case h_2 h₇ h₂ =>
        rw [hv]
        refine (beq_false_of_ne fun hw => ?_).symm
        have h := (mret_word.mp hw).2.2.2.2.2
        omega
      case h_4 h₁ h₂ h₃ =>
        rw [hinv]
        refine (beq_false_of_ne fun hw => ?_).symm
        exact h₃ (mret_word.mp hw).2.2.2.2.1 (mret_word.mp hw).2.2.2.2.2
    case isFalse hr =>
      rw [hinv]
      refine (beq_false_of_ne fun hw => hr ?_).symm
      exact ⟨(mret_word.mp hw).2.2.1, (mret_word.mp hw).2.2.2.1⟩
  case h_8 h₁ _ _ _ _ _ _ =>
    rw [hinv]
    refine (beq_false_of_ne fun hw => ?_).symm
    exact h₁ (mret_word.mp hw).2.1
  all_goals
    rename_i hf
    rw [hne hf (by decide)]
    simp [decodeCsrReg, decodeCsrImm]

/-- The switch of decode finds a legal branch where fetch finds a jump. -/
theorem decodeSwitch_branch (w : Word) {p : DecodeRenamePack} (hv : p.valid = true)
    (hu : p.opUnit = .alu) :
    ((decodeSwitch w p).valid && (decodeSwitch w p).opUnit == .bru)
      = (fetchJump w && !reservedBranch w) := by
  -- an opcode that neither decodes to a branch nor looks like one
  have hplain {n : Nat} (hop : opcodeOf w = n)
      (hn : (n != 0x73 && n != 0x6f && n != 0x67 && n != 0x63) = true) :
      false = (fetchJump w && !reservedBranch w) := by
    simp only [Bool.and_eq_true, bne_iff_ne, ne_eq] at hn
    rw [fetchJump_eq (hop ▸ hn.1.1.1), hop]
    simp [hn]
  unfold decodeSwitch
  split
  case h_1 hop => exact (isBranch_other OpUnit.noConfusion).trans (hplain hop rfl)
  case h_2 hop => exact (isBranch_other OpUnit.noConfusion).trans (hplain hop rfl)
  case h_3 hop => rw [fetchJump_eq (by omega), reservedBranch, hop, hv]; rfl
  case h_4 hop => rw [fetchJump_eq (by omega), reservedBranch, hop, hv]; rfl
  case h_5 hop =>
    rw [decodeBranch_branch w hv, fetchJump_eq (by omega), reservedBranch, hop]
    rfl
  case h_6 hop => exact (decodeOther_branch w (.inl rfl)).trans (hplain hop rfl)
  case h_7 hop => exact (decodeOther_branch w (.inr (.inl rfl))).trans (hplain hop rfl)
  case h_8 hop => exact (decodeOther_branch w (.inr (.inr (.inl rfl)))).trans (hplain hop rfl)
  case h_9 hop => exact (decodeOther_branch w (.inr (.inr (.inr rfl)))).trans (hplain hop rfl)
  case h_10 hop => exact (decodeFence_branch w hu).trans (hplain hop rfl)
  case h_11 hop =>
    rw [decodeSystem_branch w hop hv]
    simp [fetchJump, reservedBranch, hop]
  case h_12 h₁ h₂ h₃ h₄ h₅ h₆ h₇ h₈ h₉ h₁₀ h₁₁ =>
    exact hplain rfl (by simp only [Bool.and_eq_true, bne_iff_ne]; exact ⟨⟨⟨h₁₁, h₃⟩, h₄⟩, h₅⟩)

theorem Fetch2DecodePack.legalBranch_switch (q : Fetch2DecodePack) :
    q.legalBranch = ((decodeSwitch q.value (decodeStart q)).valid
      && (decodeSwitch q.value (decodeStart q)).opUnit == .bru) := by
  unfold Fetch2DecodePack.legalBranch decode
  cases hv : (decodeSwitch q.value (decodeStart q)).valid
  all_goals simp [hv, DecodeRenamePack.setNeedMap]

/-- Whether an instruction without a fault is a legal branch is in the word alone. -/
theorem Fetch2DecodePack.legalBranch_eq {q : Fetch2DecodePack} (hx : q.hasException = false) :
    q.legalBranch = (fetchJump q.value && !reservedBranch q.value) := by
  rw [q.legalBranch_switch]
  refine decodeSwitch_branch q.value ?_ rfl
  rw [decodeStart, hx]
  rfl

/-- **A fetched word decodes to a legal branch exactly when fetch took it for a jump**, unless
it is a reserved branch. A word at a misaligned `pc` is fetched as zero. -/
theorem fetchInfo_legalBranch (instId : Nat) (curPc word : Word) (pack : BranchPredictorInfoPack) :
    (fetchInfo instId curPc (fetchOpcode curPc word) pack).legalBranch
      = (fetchJump (fetchOpcode curPc word) && !reservedBranch (fetchOpcode curPc word)) := by
  generalize hq : (fetchInfo instId curPc (fetchOpcode curPc word) pack).toFetch2DecodePack = q
  have hvalue : q.value = fetchOpcode curPc word := by rw [← hq]; rfl
  have hx : q.hasException = !checkAlign curPc 4 := by rw [← hq]; rfl
  cases ha : checkAlign curPc 4 with
  | false =>
    have hzero : fetchOpcode curPc word = 0 := by rw [fetchOpcode, ha]; rfl
    rw [q.legalBranch_switch, hvalue, hzero]
    rfl
  | true =>
    rw [← hvalue]
    exact Fetch2DecodePack.legalBranch_eq (by rw [hx, ha]; rfl)

/-! ## The switch -/

/-- **The switch of fetch, exactly.** It fails on a reserved branch; any other jump it either
predicts or waits for, and nothing else. -/
theorem predictSwitch_eq_none (cur new : BranchPredictorSet) (i : Nat) (curPc opcode : Word) :
    predictSwitch cur new i curPc opcode = none ↔ reservedBranch opcode = true := by
  unfold predictSwitch reservedBranch
  split
  case h_3 hop =>
    unfold predictBranch
    rw [hop]
    split
    · rename_i hf
      simpa using hf
    · rename_i hf
      simpa using hf
  case h_4 h₁ h₂ h₃ =>
    have hop : (opcodeOf opcode == 0x63) = false := beq_false_of_ne h₃
    simp [hop]
  all_goals
    rename_i hop
    simp [hop]

theorem predictJalr_jump (cur new : BranchPredictorSet) (i : Nat) (curPc opcode : Word) :
    (predictJalr cur new i curPc opcode).pack.predicted = true
      ∧ (predictJalr cur new i curPc opcode).wait = false := by
  unfold predictJalr
  dsimp only
  split <;> split <;> (try split) <;> exact ⟨rfl, rfl⟩

theorem predictSwitch_jump {cur new : BranchPredictorSet} {i : Nat} {curPc opcode : Word}
    {p : Predicted} (h : predictSwitch cur new i curPc opcode = some p) :
    fetchJump opcode = (p.pack.predicted || p.wait) ∧ (p.pack.predicted && p.wait) = false := by
  unfold predictSwitch at h
  split at h
  case h_1 hop =>
    cases h
    exact ⟨by rw [fetchJump, hop]; rfl, rfl⟩
  case h_2 hop =>
    cases h
    obtain ⟨hp, hw⟩ := predictJalr_jump cur new i curPc opcode
    rw [hp, hw]
    exact ⟨by rw [fetchJump, hop]; rfl, rfl⟩
  case h_3 hop =>
    unfold predictBranch at h
    split at h
    · cases h
    · cases h
      exact ⟨by rw [fetchJump, hop]; rfl, rfl⟩
  case h_4 =>
    cases h
    exact ⟨by simp, by simp⟩

/-! ## What the answers depend on -/

/-- The tables of the two first-level predictors are the same. -/
structure BranchPredictorSet.SameTables (p q : BranchPredictorSet) : Prop where
  pht : q.biModal.pht = p.biModal.pht
  valid : q.l0Btb.valid = p.l0Btb.valid
  tag : q.l0Btb.tag = p.l0Btb.tag
  targetAddr : q.l0Btb.targetAddr = p.l0Btb.targetAddr

/-- The first-level answers for one port are the same. -/
structure BranchPredictorSet.SamePort (i : Nat) (p q : BranchPredictorSet) : Prop where
  jump : q.biModal.predictJump i = p.biModal.predictJump i
  nextPc : q.biModal.predictNextPc i = p.biModal.predictNextPc i
  btb : q.l0Btb.predictNextPc i = p.l0Btb.predictNextPc i

open BranchPredictorSet

/-- Asking the predictors does not change their tables. -/
theorem predict_tables (p : BranchPredictorSet) (i : Nat) (pc inst : Word) :
    p.SameTables (p.predict i pc inst) := ⟨rfl, rfl, rfl, rfl⟩

theorem BranchPredictorSet.SameTables.trans {p q r : BranchPredictorSet} (h : p.SameTables q) (h' : q.SameTables r) :
    p.SameTables r :=
  ⟨h'.pht.trans h.pht, h'.valid.trans h.valid, h'.tag.trans h.tag,
    h'.targetAddr.trans h.targetAddr⟩

/-- The same tables answer the same question alike. -/
theorem predict_port {p q : BranchPredictorSet} (h : p.SameTables q) (i : Nat) (pc inst : Word) :
    SamePort i (p.predict i pc inst) (q.predict i pc inst) := by
  constructor <;>
    simp [BranchPredictorSet.predict, BiModal.predict, L0Btb.predict, h.pht, h.valid, h.tag,
      h.targetAddr]

/-- What a prediction says about where fetch goes on. -/
def Predicted.answer (p : Predicted) : Bool × Bool × Word × Bool :=
  (p.pack.predicted, p.pack.jump, p.pack.nextPc, p.wait)

theorem predictSwitch_answer {p q : BranchPredictorSet} {i : Nat} (h : SamePort i p q)
    (cur : BranchPredictorSet) (curPc opcode : Word) :
    (predictSwitch cur q i curPc opcode).map Predicted.answer
      = (predictSwitch cur p i curPc opcode).map Predicted.answer := by
  unfold predictSwitch
  split
  case h_1 => rfl
  case h_2 =>
    unfold predictJalr Ras.popAddr
    dsimp only
    rw [h.btb]
    split <;> split <;> (try split) <;> (try split) <;> (try split) <;> rfl
  case h_3 =>
    unfold predictBranch
    rw [h.jump, h.nextPc]
    split <;> rfl
  case h_4 => rfl

/-- The switch pushes and pops return addresses; the tables stay. -/
theorem predictSwitch_tables {cur new : BranchPredictorSet} {i : Nat} {curPc opcode : Word}
    {p : Predicted} (h : predictSwitch cur new i curPc opcode = some p) :
    new.SameTables p.predictors := by
  unfold predictSwitch at h
  split at h
  case h_1 =>
    cases h
    dsimp only
    split <;> exact ⟨rfl, rfl, rfl, rfl⟩
  case h_2 =>
    cases h
    unfold predictJalr
    dsimp only
    split <;> split <;> (try split) <;> exact ⟨rfl, rfl, rfl, rfl⟩
  case h_3 =>
    unfold predictBranch at h
    split at h
    · cases h
    · cases h
      exact ⟨rfl, rfl, rfl, rfl⟩
  case h_4 =>
    cases h
    exact ⟨rfl, rfl, rfl, rfl⟩

/-- The switch leaves the registered answers alone. -/
theorem predictSwitch_biMode {cur new : BranchPredictorSet} {i : Nat} {curPc opcode : Word}
    {p : Predicted} (h : predictSwitch cur new i curPc opcode = some p) :
    p.predictors.biMode = new.biMode := by
  unfold predictSwitch at h
  split at h
  case h_1 =>
    cases h
    dsimp only
    split <;> rfl
  case h_2 =>
    cases h
    unfold predictJalr
    dsimp only
    split <;> split <;> (try split) <;> rfl
  case h_3 =>
    unfold predictBranch at h
    split at h
    · cases h
    · cases h
      rfl
  case h_4 =>
    cases h
    rfl

/-! ## The group -/

/-- Whether the loop goes on behind word `i`, judged by the word and the predictors alone. -/
def goesOn (cur : BranchPredictorSet) (idle : Bool) (oldPc : Word) (i : Nat) (word : Word) : Bool :=
  match fetchOne cur idle oldPc i word { fetch1 := ⟨oldPc, false, 0⟩, predictors := cur } with
  | some r => r.2
  | none => false

/-- The loop gets to a word that is `bad`: no word before it ends the group. -/
def reaches (bad : Nat → Word → Bool) (cur : BranchPredictorSet) (idle : Bool) (oldPc : Word) :
    Nat → List Word → Bool
  | _, [] => false
  | i, word :: words =>
      bad i word || (goesOn cur idle oldPc i word && reaches bad cur idle oldPc (i + 1) words)

/-- Word `i` of the group at `oldPc` is a reserved branch. -/
def reservedAt (oldPc : Word) (i : Nat) (word : Word) : Bool :=
  reservedBranch (fetchOpcode (oldPc + BitVec.ofNat 32 (i * 4)) word)

/-- Fetch treats a word as a jump: it predicts where it goes, or it takes nothing behind it
and waits. -/
def FetchState.TreatsAsJump (st : FetchState) (q : FetchOpInfo) : Prop :=
  q.branchPredictorInfoPack.predicted = true
    ∨ (st.fetch1.jumpWait = true ∧ st.sendPack.getLast? = some q)

/-- **Fetch treats as jumps exactly the words that decode to legal branches.** -/
def FetchState.Agrees (st : FetchState) : Prop :=
  ∀ q ∈ st.sendPack, st.TreatsAsJump q ↔ q.legalBranch = true

/-- The loop so far: nothing to wait for, so every branch is predicted. -/
structure FetchState.Going (st : FetchState) : Prop where
  jumpWait : st.fetch1.jumpWait = false
  predicted : ∀ q ∈ st.sendPack, q.branchPredictorInfoPack.predicted = q.legalBranch

theorem FetchState.Going.agrees {st : FetchState} (h : st.Going) : st.Agrees := by
  intro q hq
  rw [FetchState.TreatsAsJump, h.predicted q hq, h.jumpWait]
  simp

/-- **The inversion of `fetchWord`.** -/
theorem fetchWord_some {cur : BranchPredictorSet} {i : Nat} {curPc opcode : Word}
    {st st' : FetchState} {go : Bool} (h : fetchWord cur i curPc opcode st = some (st', go)) :
    ∃ p, predictSwitch cur (st.predictors.predict i curPc opcode) i curPc opcode = some p
      ∧ st'.sendPack = st.sendPack ++ [fetchInfo st.fetch1.nextInstId curPc opcode p.pack]
      ∧ st'.fetch1.jumpWait = (p.wait || st.fetch1.jumpWait)
      ∧ st'.predictors = p.predictors
      ∧ (go = true → p.wait = false) := by
  unfold fetchWord at h
  obtain ⟨p, hp, h⟩ := Option.map_eq_some_iff.mp h
  cases h
  refine ⟨p, hp, rfl, rfl, rfl, ?_⟩
  intro hgo
  obtain ⟨hjump, hnot⟩ := predictSwitch_jump hp
  cases hw : p.wait with
  | false => rfl
  | true =>
    rw [hw, Bool.and_true] at hnot
    simp [hjump, hw, hnot] at hgo

theorem fetchWord_go {cur p q : BranchPredictorSet} (h : p.SameTables q) {i : Nat}
    {curPc opcode : Word} {f g : Fetch1} {sp sq : List FetchOpInfo} :
    (fetchWord cur i curPc opcode ⟨g, sq, q⟩).map Prod.snd
      = (fetchWord cur i curPc opcode ⟨f, sp, p⟩).map Prod.snd := by
  have hport := predict_port h i curPc opcode
  have hanswer := predictSwitch_answer hport cur curPc opcode
  unfold fetchWord
  generalize predictSwitch cur (p.predict i curPc opcode) i curPc opcode = a at *
  generalize predictSwitch cur (q.predict i curPc opcode) i curPc opcode = b at *
  cases a with
  | none =>
    cases b with
    | none => rfl
    | some b => cases hanswer
  | some a =>
    cases b with
    | none => cases hanswer
    | some b =>
      have hab : b.answer = a.answer := Option.some.inj hanswer
      obtain ⟨h₁, h₂⟩ := Prod.mk.inj hab
      obtain ⟨h₂, h₃⟩ := Prod.mk.inj h₂
      obtain ⟨h₃, h₄⟩ := Prod.mk.inj h₃
      simp only [Option.map_some, h₁, h₂, h₃]

theorem fetchOne_go {cur : BranchPredictorSet} {idle : Bool} {oldPc : Word} {i : Nat}
    {word : Word} {st : FetchState} (h : cur.SameTables st.predictors) {r : FetchState × Bool}
    (hr : fetchOne cur idle oldPc i word st = some r) : goesOn cur idle oldPc i word = r.2 := by
  unfold goesOn fetchOne at *
  dsimp only at *
  split at hr
  · rename_i hheld
    cases hr
    rw [if_pos hheld]
  · rename_i hheld
    rw [if_neg hheld]
    have hgo : (fetchWord cur i (oldPc + BitVec.ofNat 32 (i * 4))
          (fetchOpcode (oldPc + BitVec.ofNat 32 (i * 4)) word) st).map Prod.snd
        = (fetchWord cur i (oldPc + BitVec.ofNat 32 (i * 4))
          (fetchOpcode (oldPc + BitVec.ofNat 32 (i * 4)) word)
          ⟨⟨oldPc, false, 0⟩, [], cur⟩).map Prod.snd := fetchWord_go h
    rw [hr] at hgo
    obtain ⟨r', hr', hsnd⟩ := Option.map_eq_some_iff.mp hgo.symm
    rw [hr']
    exact hsnd

/-- What one word adds to the pack, if it adds anything. -/
theorem fetchOne_some {cur : BranchPredictorSet} {idle : Bool} {oldPc : Word} {i : Nat}
    {word : Word} {st st' : FetchState} {go : Bool}
    (h : fetchOne cur idle oldPc i word st = some (st', go)) :
    (st' = st ∧ go = false)
      ∨ ∃ p, predictSwitch cur (st.predictors.predict i (oldPc + BitVec.ofNat 32 (i * 4))
            (fetchOpcode (oldPc + BitVec.ofNat 32 (i * 4)) word)) i
            (oldPc + BitVec.ofNat 32 (i * 4))
            (fetchOpcode (oldPc + BitVec.ofNat 32 (i * 4)) word) = some p
        ∧ st'.sendPack = st.sendPack ++ [fetchInfo st.fetch1.nextInstId
            (oldPc + BitVec.ofNat 32 (i * 4))
            (fetchOpcode (oldPc + BitVec.ofNat 32 (i * 4)) word) p.pack]
        ∧ st'.fetch1.jumpWait = (p.wait || st.fetch1.jumpWait)
        ∧ st'.predictors = p.predictors
        ∧ (go = true → p.wait = false) := by
  unfold fetchOne at h
  dsimp only at h
  split at h
  · cases h
    exact .inl ⟨rfl, rfl⟩
  · exact .inr (fetchWord_some h)

theorem fetchOne_tables {cur : BranchPredictorSet} {idle : Bool} {oldPc : Word} {i : Nat}
    {word : Word} {st st' : FetchState} {go : Bool} (h : cur.SameTables st.predictors)
    (hone : fetchOne cur idle oldPc i word st = some (st', go)) :
    cur.SameTables st'.predictors := by
  rcases fetchOne_some hone with ⟨rfl, _⟩ | ⟨p, hp, _, _, hpred, _⟩
  · exact h
  · rw [hpred]
    exact (h.trans (predict_tables ..)).trans (predictSwitch_tables hp)

/-- **The rule of the loop.** What holds while it goes on is `Going`, what it is to establish is
`Done`. A word that is not bad keeps the one and establishes the other; behind a bad one the
loop cannot come out right. Then it comes out right exactly if it reaches no bad word. -/
theorem fetchLoop_rule {Going Done : FetchState → Prop} {bad : Nat → Word → Bool}
    {cur : BranchPredictorSet} {idle : Bool} {oldPc : Word}
    (hdone : ∀ st, Going st → Done st)
    (hstep : ∀ i word st, Going st → bad i word = false →
      ∃ st' go, fetchOne cur idle oldPc i word st = some (st', go) ∧ Done st'
        ∧ (go = true → Going st'))
    (hbad : ∀ i word words st st', Going st → bad i word = true →
      fetchLoop cur idle oldPc i (word :: words) st = some st' → ¬Done st')
    (words : List Word) (i : Nat) {st : FetchState} (hg : Going st)
    (h : cur.SameTables st.predictors) :
    (∃ st', fetchLoop cur idle oldPc i words st = some st' ∧ Done st')
      ↔ reaches bad cur idle oldPc i words = false := by
  induction words generalizing i st with
  | nil => exact ⟨fun _ => rfl, fun _ => ⟨st, rfl, hdone st hg⟩⟩
  | cons word words ih =>
    cases hb : bad i word with
    | true =>
      rw [reaches, hb, Bool.true_or]
      exact ⟨fun ⟨st', hloop, hd⟩ => absurd hd (hbad i word words st st' hg hb hloop),
        fun h => by cases h⟩
    | false =>
      obtain ⟨st', go, hone, hd, hgoing⟩ := hstep i word st hg hb
      rw [fetchLoop, reaches, fetchOne_go h hone, hone, Option.bind_some, hb, Bool.false_or]
      cases go with
      | false => exact ⟨fun _ => rfl, fun _ => ⟨st', rfl, hd⟩⟩
      | true => exact ih (i + 1) (hgoing rfl) (fetchOne_tables h hone)

/-- A word that is held back is a `fence.i`, so no branch. -/
theorem fenceI_not_branch {opcode : Word} (h : fetchFenceI opcode = true) :
    fetchJump opcode = false ∧ reservedBranch opcode = false := by
  simp only [fetchFenceI, Bool.and_eq_true, beq_iff_eq] at h
  constructor
  · rw [fetchJump_eq (by omega), h.1]
    rfl
  · rw [reservedBranch, h.1]
    rfl

/-- Only a reserved branch stops the simulator. -/
theorem fetchOne_isSome (cur : BranchPredictorSet) (idle : Bool) (oldPc : Word) (i : Nat)
    (word : Word) (st : FetchState) :
    (fetchOne cur idle oldPc i word st).isSome = !reservedAt oldPc i word := by
  unfold fetchOne reservedAt
  dsimp only
  split
  · rename_i hheld
    rw [(fenceI_not_branch (Bool.and_eq_true_iff.mp hheld).1).2]
    rfl
  · rw [fetchWord, Option.isSome_map]
    cases hres : reservedBranch (fetchOpcode (oldPc + BitVec.ofNat 32 (i * 4)) word) with
    | true =>
      rw [(predictSwitch_eq_none ..).mpr hres]
      rfl
    | false =>
      rw [Bool.not_false, Option.isSome_iff_ne_none]
      intro hnone
      rw [predictSwitch_eq_none, hres] at hnone
      cases hnone

/-- **One word of the group.** If the loop goes on every branch so far is predicted, and if it
stops fetch and decode agree. -/
theorem fetchOne_step {cur : BranchPredictorSet} {idle : Bool} {oldPc : Word} {i : Nat}
    {word : Word} {st : FetchState} (hg : st.Going) (hres : reservedAt oldPc i word = false) :
    ∃ st' go, fetchOne cur idle oldPc i word st = some (st', go) ∧ st'.Agrees
      ∧ (go = true → st'.Going) := by
  obtain ⟨⟨st', go⟩, hone⟩ : ∃ r, fetchOne cur idle oldPc i word st = some r :=
    Option.isSome_iff_exists.mp (by rw [fetchOne_isSome, hres]; rfl)
  refine ⟨st', go, hone, ?_⟩
  rcases fetchOne_some hone with ⟨rfl, rfl⟩ | ⟨p, hp, hsend, hwait, _, hgo⟩
  · exact ⟨hg.agrees, fun h => by cases h⟩
  · obtain ⟨hjump, hnot⟩ := predictSwitch_jump hp
    have hlegal := fetchInfo_legalBranch st.fetch1.nextInstId
      (oldPc + BitVec.ofNat 32 (i * 4)) word p.pack
    unfold reservedAt at hres
    rw [hres, hjump, Bool.not_false, Bool.and_true] at hlegal
    have hpack : (fetchInfo st.fetch1.nextInstId (oldPc + BitVec.ofNat 32 (i * 4))
      (fetchOpcode (oldPc + BitVec.ofNat 32 (i * 4)) word) p.pack).branchPredictorInfoPack
        = p.pack := rfl
    generalize fetchInfo st.fetch1.nextInstId (oldPc + BitVec.ofNat 32 (i * 4))
      (fetchOpcode (oldPc + BitVec.ofNat 32 (i * 4)) word) p.pack = new at *
    have hwait' : st'.fetch1.jumpWait = p.wait := by rw [hwait, hg.jumpWait, Bool.or_false]
    constructor
    · intro q hq
      unfold FetchState.TreatsAsJump
      rw [hsend, List.mem_append, List.mem_singleton] at hq
      rw [hwait', hsend, List.getLast?_concat, Option.some_inj]
      rcases hq with hq | rfl
      · rw [hg.predicted q hq]
        refine ⟨fun hq => hq.elim (fun h => h) fun ⟨hw, hlast⟩ => ?_, Or.inl⟩
        rw [← hlast, hlegal, hw, Bool.or_true]
      · rw [hlegal, hpack, Bool.or_eq_true]
        exact or_congr_right (and_iff_left rfl)
    · intro hgo'
      have hw := hgo hgo'
      refine ⟨hwait'.trans hw, ?_⟩
      intro q hq
      rw [hsend, List.mem_append, List.mem_singleton] at hq
      rcases hq with hq | rfl
      · exact hg.predicted q hq
      · rw [hlegal, hw, Bool.or_false, hpack]

/-- **Fetch's look at a group, exactly.** For any group of words, any `pc` and any predictors,
fetch gets through without a failing `verify` and treats as jumps exactly the words that decode
to legal branches, if and only if it gets to no reserved branch. -/
theorem predecode_iff (predictors : BranchPredictorSet) (idle : Bool) (pc : Word) (instId : Nat)
    (words : Fin fetchWidth → Word) :
    (∃ st, fetchLoop predictors idle pc 0 (List.ofFn words)
        { fetch1 := ⟨pc, false, instId⟩, predictors := predictors } = some st ∧ st.Agrees)
      ↔ reaches (reservedAt pc) predictors idle pc 0 (List.ofFn words) = false := by
  refine @fetchLoop_rule FetchState.Going FetchState.Agrees _ _ _ _
    (fun st => FetchState.Going.agrees) (fun i word st => fetchOne_step) ?_ _ 0 _
    ⟨rfl, by simp⟩ ⟨rfl, rfl, rfl, rfl⟩
  intro i word words st st' _ hres hloop
  have hone := fetchOne_isSome predictors idle pc i word st
  rw [hres, Bool.not_true, Option.isSome_eq_false_iff, Option.isNone_iff_eq_none] at hone
  rw [fetchLoop, hone] at hloop
  cases hloop

/-- **A branch opcode with `funct3 = 2` in front of a group aborts the simulator.** -/
theorem reservedBranch_aborts :
    ¬∃ st, fetchLoop {} true initPc 0
        (List.ofFn fun i : Fin fetchWidth => if i.val = 0 then 0x2063 else 0)
        { fetch1 := ⟨initPc, false, 0⟩, predictors := {} } = some st ∧ st.Agrees := by
  intro ⟨st, h, _⟩
  have hnone : (fetchLoop {} true initPc 0
      (List.ofFn fun i : Fin fetchWidth => if i.val = 0 then 0x2063 else 0)
      { fetch1 := ⟨initPc, false, 0⟩, predictors := {} }).isNone = true := by
    decide
  rw [h] at hnone
  cases hnone

end DreamCore
