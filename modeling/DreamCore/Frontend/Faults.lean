import DreamCore.Component.Bus
import DreamCore.Frontend.Predecode

/-!
# Fetch faults

What fetch does with a `pc` it cannot read. It tells a misaligned `pc` by its own
look at it, but only once the bus has answered, and the memory slave never answers
for a misaligned offset. It never tells an unmapped `pc`: the bus answers with zeros
and nothing marks them, neither for the whole group nor for the words of a group
that runs past the end of the memory.
-/

namespace DreamCore

/-- **A fetched instruction carries the fault of its own `pc`**: misaligned if it is, an access
fault if it is aligned and no slave that can be fetched from maps it. -/
structure FetchOpInfo.FaultsRight (q : FetchOpInfo) : Prop where
  misaligned : (q.hasException = true ∧ q.exceptionId = .instructionAddressMisaligned)
    ↔ q.pc.toNat % 4 ≠ 0
  unmapped : q.pc.toNat % 4 = 0 →
    ((q.hasException = true ∧ q.exceptionId = .instructionAccessFault)
      ↔ memorySlave.maps q.pc true = false)

/-- Neither stalled, nor flushed, nor waiting for a jump. -/
structure Fetch1.Free (f : Fetch1) (inp : Fetch1Input) : Prop where
  jumpWait : f.jumpWait = false
  stall : inp.stall = false
  pcRedirect : inp.pcRedirect = false
  bru : inp.bru.flush = false
  sau : inp.sau.flush = false
  commit : inp.commit.flush = false

/-- **The request for `pc` is answered by an instruction at `pc`**, and every instruction that
comes with it carries the fault of its own `pc`. -/
def Fetch1.Delivers (f : Fetch1) (predictors : BranchPredictorSet) (inp : Fetch1Input) : Prop :=
  ∃ r q rest, f.run predictors inp = some r ∧ r.port = some (q :: rest) ∧ q.pc = f.pc
    ∧ ∀ q' ∈ q :: rest, q'.FaultsRight

/-- Word `i` of the group is a `fence.i` that has to wait. -/
def heldAt (idle : Bool) (oldPc : Word) (i : Nat) (word : Word) : Bool :=
  fetchFenceI (fetchOpcode (oldPc + BitVec.ofNat 32 (i * 4)) word) && (i != 0 || !idle)

/-- Word `i` of the group goes wrong: it is a reserved branch, or it is aligned, not held back
and no slave maps it. -/
def faultyAt (idle : Bool) (oldPc : Word) (i : Nat) (word : Word) : Bool :=
  reservedAt oldPc i word
    || (!heldAt idle oldPc i word && decide (oldPc.toNat % 4 = 0)
      && !memorySlave.maps (oldPc + BitVec.ofNat 32 (i * 4)) true)

/-- **Where fetch delivers.** A misaligned `pc` must lie outside the memory. An aligned one must
lie inside, with no `fence.i` there that has to wait, and the group must not get to a reserved
branch or past the end of the memory. -/
def Deliverable (mem : Mem) (predictors : BranchPredictorSet) (idle : Bool) (pc : Word) : Prop :=
  if pc.toNat % 4 = 0 then
    memorySlave.maps pc true = true
      ∧ heldAt idle pc 0 (memoryGroup mem (memorySlave.offset pc) ⟨0, by decide⟩) = false
      ∧ reaches (faultyAt idle pc) predictors idle pc 0
          (List.ofFn (memoryGroup mem (memorySlave.offset pc))) = false
  else memorySlave.maps pc true = false

/-! ## One word -/

/-- What fetch writes down about faults: the alignment, and nothing else. -/
theorem fetchInfo_faultsRight {instId : Nat} {curPc opcode : Word}
    {pack : BranchPredictorInfoPack} :
    (fetchInfo instId curPc opcode pack).FaultsRight
      ↔ (curPc.toNat % 4 = 0 → memorySlave.maps curPc true = true) := by
  have hx : (fetchInfo instId curPc opcode pack).hasException = !checkAlign curPc 4 := rfl
  have hid : (fetchInfo instId curPc opcode pack).exceptionId
      = if !checkAlign curPc 4 then .instructionAddressMisaligned
        else .instructionAccessFault := rfl
  have hpc : (fetchInfo instId curPc opcode pack).pc = curPc := rfl
  cases ha : checkAlign curPc 4 with
  | true =>
    have hmod := (checkAlign_iff curPc).mp ha
    rw [ha, Bool.not_true] at hx
    constructor
    · intro h _
      have hmaps := h.unmapped (by rw [hpc]; exact hmod)
      rw [hx, hpc] at hmaps
      cases hm : memorySlave.maps curPc true with
      | true => rfl
      | false => exact absurd (hmaps.mpr hm).1 Bool.false_ne_true
    · intro h
      refine ⟨?_, ?_⟩
      · rw [hx, hpc, hmod]
        simp
      · intro _
        rw [hx, hpc, h hmod]
        simp
  | false =>
    have hmod : ¬curPc.toNat % 4 = 0 := by
      rw [← checkAlign_iff, ha]
      exact Bool.false_ne_true
    rw [ha, Bool.not_false] at hx hid
    refine ⟨fun _ h => absurd h hmod, fun _ => ⟨?_, ?_⟩⟩
    · rw [hx, hid, hpc]
      simp [hmod]
    · rw [hpc]
      exact fun h => absurd h hmod

/-- Every word of a group is aligned as its first one is. -/
theorem groupPc_aligned (oldPc : Word) (i : Nat) :
    (oldPc + BitVec.ofNat 32 (i * 4)).toNat % 4 = oldPc.toNat % 4 := by
  rw [BitVec.toNat_add, BitVec.toNat_ofNat]
  omega

/-! ## The group -/

variable {predictors : BranchPredictorSet} {idle : Bool} {oldPc : Word}

/-- What has been taken stays. -/
theorem fetchLoop_prefix {words : List Word} {i : Nat} {st st' : FetchState}
    (h : fetchLoop predictors idle oldPc i words st = some st') : st.sendPack <+: st'.sendPack := by
  induction words generalizing i st with
  | nil =>
    cases h
    exact List.prefix_rfl
  | cons word words ih =>
    rw [fetchLoop] at h
    obtain ⟨⟨st₁, go⟩, hone, h⟩ := Option.bind_eq_some_iff.mp h
    have hfirst : st.sendPack <+: st₁.sendPack := by
      rcases fetchOne_some hone with ⟨rfl, _⟩ | ⟨p, _, hsend, _⟩
      · exact List.prefix_rfl
      · rw [hsend]
        exact List.prefix_append ..
    cases go with
    | false =>
      cases h
      exact hfirst
    | true => exact hfirst.trans (ih h)

/-- A held word adds nothing and ends the group, any other adds itself. -/
theorem fetchOne_sendPack {i : Nat} {word : Word} {st st' : FetchState} {go : Bool}
    (h : fetchOne predictors idle oldPc i word st = some (st', go)) :
    if heldAt idle oldPc i word then st' = st ∧ go = false
    else ∃ pack, st'.sendPack = st.sendPack ++ [fetchInfo st.fetch1.nextInstId
      (oldPc + BitVec.ofNat 32 (i * 4))
      (fetchOpcode (oldPc + BitVec.ofNat 32 (i * 4)) word) pack] := by
  unfold fetchOne at h
  unfold heldAt
  dsimp only at h
  split at h
  · rename_i hheld
    rw [if_pos hheld]
    cases h
    exact ⟨rfl, rfl⟩
  · rename_i hheld
    rw [if_neg hheld]
    obtain ⟨p, _, hsend, _⟩ := fetchWord_some h
    exact ⟨p.pack, hsend⟩

/-- Every word taken so far carries the fault of its own `pc`. -/
def FetchState.Right (st : FetchState) : Prop := ∀ q ∈ st.sendPack, q.FaultsRight

theorem FetchState.right_append {st st' : FetchState} {q : FetchOpInfo}
    (h : st'.sendPack = st.sendPack ++ [q]) : st'.Right ↔ st.Right ∧ q.FaultsRight := by
  unfold FetchState.Right
  rw [h]
  simp only [List.mem_append, List.mem_singleton]
  exact ⟨fun h => ⟨fun q hq => h q (.inl hq), h _ (.inr rfl)⟩,
    fun h q' hq => hq.elim (h.1 q') fun hq => hq ▸ h.2⟩

/-- **A group comes out right exactly if it reaches no faulty word.** -/
theorem fetchLoop_right (words : List Word) {st : FetchState}
    (hst : st.Right) (h : predictors.SameTables st.predictors) :
    (∃ st', fetchLoop predictors idle oldPc 0 words st = some st' ∧ st'.Right)
      ↔ reaches (faultyAt idle oldPc) predictors idle oldPc 0 words = false := by
  refine fetchLoop_rule (fun _ h => h) ?_ ?_ words 0 hst h
  · intro i word st hg hf
    simp only [faultyAt, Bool.or_eq_false_iff] at hf
    obtain ⟨⟨st', go⟩, hone⟩ : ∃ r, fetchOne predictors idle oldPc i word st = some r :=
      Option.isSome_iff_exists.mp (by rw [fetchOne_isSome, hf.1]; rfl)
    have hright : st'.Right := by
      have hsend := fetchOne_sendPack hone
      split at hsend
      · rw [hsend.1]
        exact hg
      · rename_i hheld
        obtain ⟨pack, hsend⟩ := hsend
        refine (FetchState.right_append hsend).mpr ⟨hg, fetchInfo_faultsRight.mpr fun ha => ?_⟩
        rw [groupPc_aligned] at ha
        simpa [hheld, ha] using hf.2
    exact ⟨st', go, hone, hright, fun _ => hright⟩
  · intro i word words st st' _ hf hloop hright
    rw [fetchLoop] at hloop
    obtain ⟨⟨st₁, go⟩, hone, hloop⟩ := Option.bind_eq_some_iff.mp hloop
    have hres := fetchOne_isSome predictors idle oldPc i word st
    rw [hone, Option.isSome_some] at hres
    have hsend := fetchOne_sendPack hone
    simp only [faultyAt, Bool.or_eq_true, Bool.and_eq_true, Bool.not_eq_true',
      decide_eq_true_eq] at hf
    rcases hf with hf | ⟨⟨hheld, ha⟩, hmaps⟩
    · rw [hf] at hres
      cases hres
    · rw [if_neg (ne_true_of_eq_false hheld)] at hsend
      obtain ⟨pack, hsend⟩ := hsend
      -- the faulty word stays in the pack whatever follows
      have hsub : st₁.sendPack <+: st'.sendPack := by
        cases go with
        | false =>
          cases hloop
          exact List.prefix_rfl
        | true => exact fetchLoop_prefix hloop
      have hright₁ : st₁.Right := fun q hq => hright q (hsub.subset hq)
      have hq := ((FetchState.right_append hsend).mp hright₁).2
      rw [fetchInfo_faultsRight.mp hq (by rw [groupPc_aligned, ha])] at hmaps
      cases hmaps

/-- At a misaligned `pc` every word is fetched as zero, and nothing is faulty or held. -/
theorem misaligned_plain (ha : oldPc.toNat % 4 ≠ 0) (i : Nat) (word : Word) :
    heldAt idle oldPc i word = false ∧ faultyAt idle oldPc i word = false := by
  have hzero : fetchOpcode (oldPc + BitVec.ofNat 32 (i * 4)) word = 0 := by
    unfold fetchOpcode
    rw [if_neg]
    rw [checkAlign_iff, groupPc_aligned]
    exact ha
  have hheld : heldAt idle oldPc i word = false := by
    rw [heldAt, hzero]
    rfl
  have hres : reservedAt oldPc i word = false := by
    rw [reservedAt, hzero]
    rfl
  refine ⟨hheld, ?_⟩
  rw [faultyAt, hres, hheld, decide_eq_false ha]
  rfl

theorem reaches_none {bad : Nat → Word → Bool} (h : ∀ i word, bad i word = false)
    (words : List Word) (i : Nat) : reaches bad predictors idle oldPc i words = false := by
  induction words generalizing i with
  | nil => rfl
  | cons word words ih => rw [reaches, h, ih, Bool.and_false, Bool.or_false]

theorem fetchLoop_head {word : Word} {words : List Word} {f : Fetch1} {st' : FetchState}
    (h : fetchLoop predictors idle oldPc 0 (word :: words) { fetch1 := f, predictors := predictors }
      = some st') :
    (heldAt idle oldPc 0 word = true ∧ st'.sendPack = [])
      ∨ (heldAt idle oldPc 0 word = false ∧ ∃ q rest, st'.sendPack = q :: rest ∧ q.pc = oldPc) := by
  rw [fetchLoop] at h
  obtain ⟨⟨st₁, go⟩, hone, h⟩ := Option.bind_eq_some_iff.mp h
  have hsend := fetchOne_sendPack hone
  cases hheld : heldAt idle oldPc 0 word with
  | true =>
    rw [if_pos hheld] at hsend
    obtain ⟨rfl, rfl⟩ := hsend
    cases h
    exact .inl ⟨rfl, rfl⟩
  | false =>
    rw [if_neg (ne_true_of_eq_false hheld)] at hsend
    obtain ⟨pack, hsend⟩ := hsend
    have hsub : st₁.sendPack <+: st'.sendPack := by
      cases go with
      | false =>
        cases h
        exact List.prefix_rfl
      | true => exact fetchLoop_prefix h
    obtain ⟨rest, hrest⟩ := hsub
    rw [hsend] at hrest
    refine .inr ⟨rfl, _, rest, hrest.symm, ?_⟩
    exact BitVec.add_zero oldPc

/-! ## The cycle -/

/-- A free cycle hands over what the loop makes of the answer, if there is one. -/
theorem Fetch1.run_free {f : Fetch1} {inp : Fetch1Input} (h : f.Free inp) :
    (f.run predictors inp).map Fetch1Result.port
      = match inp.instructionValue with
        | some words =>
            (fetchLoop predictors inp.idle f.pc 0 (List.ofFn words)
              { fetch1 := f, predictors := predictors }).map fun st => some st.sendPack
        | none => some (some []) := by
  have hflush : inp.commit.flush = false ∧ inp.bru.flush = false ∧ inp.sau.flush = false :=
    ⟨h.commit, h.bru, h.sau⟩
  have hjump : f.jumpWait = false := h.jumpWait
  unfold Fetch1.run Fetch1.advance
  simp only [h.commit, h.bru, h.sau, h.pcRedirect, h.stall, hjump, Bool.false_eq_true, if_false,
    Option.map_map]
  cases inp.instructionValue <;> rfl

/-- **Delivery in terms of the answer.** -/
theorem delivers_iff_loop {f : Fetch1} {inp : Fetch1Input} (hfree : f.Free inp) :
    f.Delivers predictors inp ↔ ∃ words, inp.instructionValue = some words
      ∧ heldAt inp.idle f.pc 0 (words ⟨0, by decide⟩) = false
      ∧ reaches (faultyAt inp.idle f.pc) predictors inp.idle f.pc 0 (List.ofFn words) = false := by
  have hport : (f.run predictors inp).map Fetch1Result.port = _ := Fetch1.run_free hfree
  have hright (words : List Word) :
      (∃ st, fetchLoop predictors inp.idle f.pc 0 words
        { fetch1 := f, predictors := predictors } = some st ∧ st.Right) ↔ _ :=
    fetchLoop_right words (by simp [FetchState.Right]) ⟨rfl, rfl, rfl, rfl⟩
  have hcons (words : Fin fetchWidth → Word) : List.ofFn words = words ⟨0, by decide⟩
      :: List.ofFn fun i : Fin 3 => words i.succ := List.ofFn_succ ..
  constructor
  · intro ⟨r, q, rest, hr, hp, _, hfaults⟩
    rw [hr, Option.map_some, hp] at hport
    cases hv : inp.instructionValue with
    | none =>
      rw [hv] at hport
      cases hport
    | some words =>
      rw [hv] at hport
      obtain ⟨st, hst, hsend⟩ := Option.map_eq_some_iff.mp hport.symm
      have hsend : st.sendPack = q :: rest := Option.some.inj hsend
      refine ⟨words, rfl, ?_, ?_⟩
      · rcases fetchLoop_head (hcons words ▸ hst) with ⟨_, hnil⟩ | ⟨hheld, _⟩
        · rw [hnil] at hsend
          cases hsend
        · exact hheld
      · refine (hright _).mp ⟨st, hst, fun q' hq' => hfaults q' ?_⟩
        rw [← hsend]
        exact hq'
  · intro ⟨words, hv, hheld, hreach⟩
    obtain ⟨st, hst, hst'⟩ := (hright _).mpr hreach
    rw [hv] at hport
    dsimp only at hport
    rw [hst, Option.map_some] at hport
    obtain ⟨r, hr, hp⟩ := Option.map_eq_some_iff.mp hport
    rcases fetchLoop_head (hcons words ▸ hst) with ⟨hheld', _⟩ | ⟨_, q, rest, hsend, hq⟩
    · rw [hheld] at hheld'
      cases hheld'
    · rw [hsend] at hp
      refine ⟨r, q, rest, hr, hp, hq, fun q' hq' => hst' q' ?_⟩
      rw [hsend]
      exact hq'

/-- **Fault delivery, exactly.** Once the bus has handled the request for its `pc`, a fetch that
is free to run delivers if and only if the `pc` is deliverable. -/
theorem delivers_iff (mem : Mem) (predictors : BranchPredictorSet) {f : Fetch1}
    {inp : Fetch1Input} (hfree : f.Free inp)
    (hvalue : inp.instructionValue = busReadInstruction mem f.pc) :
    f.Delivers predictors inp ↔ Deliverable mem predictors inp.idle f.pc := by
  rw [delivers_iff_loop hfree, hvalue]
  unfold Deliverable busReadInstruction
  by_cases ha : f.pc.toNat % 4 = 0
  · rw [if_pos ha]
    cases hm : memorySlave.maps f.pc true with
    | true =>
      rw [if_pos rfl, memorySlave_check hm, if_pos ((checkAlign_iff _).mpr ha)]
      constructor
      · rintro ⟨_, ⟨⟩, hheld, hreach⟩
        exact ⟨rfl, hheld, hreach⟩
      · rintro ⟨-, hheld, hreach⟩
        exact ⟨_, rfl, hheld, hreach⟩
    | false =>
      -- the zeros the bus answers with are not marked
      rw [if_neg Bool.false_ne_true]
      refine iff_of_false ?_ fun h => Bool.false_ne_true h.1
      rintro ⟨_, ⟨⟩, hheld, hreach⟩
      have hcons : List.ofFn (fun _ : Fin fetchWidth => (0 : Word))
          = 0 :: List.ofFn fun _ : Fin 3 => (0 : Word) := List.ofFn_succ ..
      rw [hcons, reaches, Bool.or_eq_false_iff, faultyAt, hheld, decide_eq_true ha,
        show f.pc + BitVec.ofNat 32 (0 * 4) = f.pc from BitVec.add_zero f.pc, hm] at hreach
      simp at hreach
  · rw [if_neg ha]
    cases hm : memorySlave.maps f.pc true with
    | true =>
      have hrefused : checkAlign f.pc 4 = false := by
        rw [Bool.eq_false_iff, ne_eq, checkAlign_iff]
        exact ha
      rw [if_pos rfl, memorySlave_check hm, hrefused, if_neg Bool.false_ne_true]
      refine iff_of_false ?_ (fun h => by cases h)
      rintro ⟨_, hnone, _⟩
      cases hnone
    | false =>
      rw [if_neg Bool.false_ne_true]
      exact iff_of_true ⟨_, rfl, (misaligned_plain ha 0 _).1,
        reaches_none (fun i word => (misaligned_plain ha i word).2) _ 0⟩ rfl

/-- A fetch that waits for nothing but the bus. -/
def freeInput (idle : Bool) (value : Option (Fin fetchWidth → Word)) : Fetch1Input :=
  { idle := idle, instructionValue := value }

theorem freeInput_free (pc : Word) (instId : Nat) (idle : Bool)
    (value : Option (Fin fetchWidth → Word)) :
    (Fetch1.mk pc false instId).Free (freeInput idle value) :=
  ⟨rfl, rfl, rfl, rfl, rfl, rfl⟩

/-- The first word of the memory is delivered after reset. -/
theorem delivers_reset :
    Fetch1.reset.Free (freeInput true (busReadInstruction (fun _ => 0) initPc))
      ∧ Fetch1.reset.Delivers {} (freeInput true (busReadInstruction (fun _ => 0) initPc)) :=
  ⟨freeInput_free .., (delivers_iff (fun _ => 0) {} (freeInput_free ..) rfl).mpr (by
    unfold Deliverable
    decide)⟩

/-- **A jump to a misaligned address inside the memory is never answered**, and one to where no
slave is comes back as an instruction without a fault. -/
theorem faults_lost :
    ¬(Fetch1.mk 0x80000002 false 0).Delivers {}
        (freeInput true (busReadInstruction (fun _ => 0) 0x80000002))
      ∧ ¬(Fetch1.mk 0x40000000 false 0).Delivers {}
        (freeInput true (busReadInstruction (fun _ => 0) 0x40000000)) := by
  rw [delivers_iff_loop (freeInput_free ..), delivers_iff_loop (freeInput_free ..)]
  constructor
  · intro ⟨words, hvalue, _⟩
    have hnone : (busReadInstruction (fun _ => 0) 0x80000002).isNone = true := by decide
    rw [show busReadInstruction (fun _ => 0) 0x80000002 = some words from hvalue] at hnone
    cases hnone
  · intro ⟨words, hvalue, _, hreach⟩
    have hzero : busReadInstruction (fun _ => 0) 0x40000000 = some fun _ => 0 := rfl
    rw [show busReadInstruction (fun _ => 0) 0x40000000 = some words from hvalue] at hzero
    cases hzero
    revert hreach
    decide

/-! ## Refused once, refused for ever -/

/-- A cycle in which nothing redirects fetch. -/
structure Fetch1Input.Quiet (inp : Fetch1Input) : Prop where
  pcRedirect : inp.pcRedirect = false
  bru : inp.bru.flush = false
  sau : inp.sau.flush = false
  commit : inp.commit.flush = false

/-- A refused request leaves fetch as it was, and asks for the same again. -/
theorem refused_step {f : Fetch1} {inp : Fetch1Input} (hq : inp.Quiet) (hj : f.jumpWait = false)
    (hvalue : inp.instructionValue = none) :
    f.run predictors inp = some {
      fetch1 := f
      predictors := predictors
      port := if inp.stall then none else some [] } := by
  unfold Fetch1.run Fetch1.advance
  simp only [hq.commit, hq.bru, hq.sau, hq.pcRedirect, hj, hvalue, Bool.false_eq_true, if_false]
  cases inp.stall <;> rfl

/-- The cycles of a run that only fetch and the memory take part in: what fetch holds at its end
and what it has handed to fetch2. The memory may change from cycle to cycle. -/
def Fetch1.play : List (Mem × Fetch1Input) → Fetch1 → BranchPredictorSet →
    Option (Fetch1 × List FetchOpInfo)
  | [], f, _ => some (f, [])
  | (mem, inp) :: run, f, predictors => do
      let r ← f.run predictors { inp with instructionValue := busReadInstruction mem f.pc }
      let (f', sent) ← Fetch1.play run r.fetch1 (r.predictors.sync r.requests)
      return (f', r.port.getD [] ++ sent)

/-- **Behind a jump to a misaligned address inside the memory fetch stands still**: however many
cycles go by, as long as nothing redirects it, it hands over nothing. -/
theorem misaligned_stuck {f : Fetch1} (hj : f.jumpWait = false) (ha : f.pc.toNat % 4 ≠ 0)
    (hm : memorySlave.maps f.pc true = true) (run : List (Mem × Fetch1Input))
    (hrun : ∀ c ∈ run, c.2.Quiet) (predictors : BranchPredictorSet) :
    f.play run predictors = some (f, []) := by
  have hrefused (mem : Mem) : busReadInstruction mem f.pc = none := by
    have halign : checkAlign f.pc 4 = false := by
      rw [Bool.eq_false_iff, ne_eq, checkAlign_iff]
      exact ha
    rw [busReadInstruction, if_pos hm, memorySlave_check hm, halign]
    rfl
  induction run generalizing predictors with
  | nil => rfl
  | cons c run ih =>
    obtain ⟨mem, inp⟩ := c
    have hq : inp.Quiet := hrun (mem, inp) (List.mem_cons_self ..)
    have hstep := @refused_step predictors f
      { inp with instructionValue := busReadInstruction mem f.pc }
      ⟨hq.pcRedirect, hq.bru, hq.sau, hq.commit⟩ hj (hrefused mem)
    rw [Fetch1.play, hstep, Option.bind_eq_bind, Option.bind_some,
      ih fun c hc => hrun c (List.mem_cons_of_mem _ hc)]
    cases inp.stall <;> rfl

end DreamCore
