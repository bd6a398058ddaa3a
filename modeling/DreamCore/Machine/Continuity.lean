import DreamCore.Machine.Machine

/-!
# From a prediction to its verdict

What fetch recorded about a branch travels with it: through decode and rename,
to the branch unit, and with the outcome into the ROB entry commit looks at. There
the outcome is held against the record. A conditional branch has two ways to go, so
that when record and outcome agree on the way, they agree on the target; the case in
which they do not is the one commit fails a `verify_only` in.
-/

namespace DreamCore

open Ring

/-- The outcome of a conditional branch agrees with its record on the target, when it does on
the direction. -/
def Agrees (pack : BranchPredictorInfoPack) (bruJump : Bool) (bruNextPc : Word) : Prop :=
  pack.conditionJump = true → bruJump = pack.jump → bruNextPc = pack.nextPc

/-- An entry commit can look at. -/
def RobItem.Agrees (item : RobItem) : Prop :=
  DreamCore.Agrees item.branchPredictorInfoPack item.bruJump item.bruNextPc

/-- A result on a port of commit. -/
def ExecuteWbPack.Agrees (rev : ExecuteWbPack) : Prop :=
  DreamCore.Agrees rev.branchPredictorInfoPack rev.bruJump rev.bruNextPc

/-- The instruction was renamed from a pack fetch has written. -/
def OpInfo.Fetched (info : OpInfo) : Prop :=
  ∃ q : FetchOpInfo, q.Recorded ∧ info.Sends q.decoded

/-! ## The branch -/

theorem decode_pack (q : Fetch2DecodePack) :
    (decode q).branchPredictorInfoPack = q.branchPredictorInfoPack := by
  have hd := (decodeSwitch_decodes q.value (p := decodeStart q) rfl rfl).pack
  unfold decode
  dsimp only
  split <;> exact hd

/-- What decode makes of a legal conditional branch: an operation with two ways to go. -/
theorem decode_conditional {q : FetchOpInfo} (hq : q.Recorded)
    (hc : q.branchPredictorInfoPack.conditionJump = true) :
    q.decoded.pc = q.pc ∧ q.decoded.imm = (immB q.value).signExtend 32 ∧
      ∃ op, q.decoded.subOp = .bru op ∧ op ≠ .jalr ∧ op ≠ .mret := by
  obtain ⟨hx, hlegal⟩ := hq.legal (hq.predicted hc)
  have hop := hq.condition hc
  have hswitch : decodeSwitch q.value (decodeStart q.toFetch2DecodePack)
      = decodeBranch q.value (decodeStart q.toFetch2DecodePack) := by
    simp only [decodeSwitch, hop]
  rw [Fetch2DecodePack.legalBranch_switch, hswitch, Bool.and_eq_true] at hlegal
  have hbranch : ∃ op, (decodeBranch q.value (decodeStart q.toFetch2DecodePack)).subOp = .bru op
      ∧ op ≠ .jalr ∧ op ≠ .mret := by
    have hvalid := hlegal.1
    unfold decodeBranch at hvalid ⊢
    dsimp only at hvalid ⊢
    split at hvalid
    case h_7 => cases hvalid
    all_goals exact ⟨_, rfl, BruOp.noConfusion, BruOp.noConfusion⟩
  have hfields : (decodeBranch q.value (decodeStart q.toFetch2DecodePack)).pc = q.pc
      ∧ (decodeBranch q.value (decodeStart q.toFetch2DecodePack)).imm
        = (immB q.value).signExtend 32 := by
    unfold decodeBranch
    dsimp only
    split <;> exact ⟨rfl, rfl⟩
  unfold FetchOpInfo.decoded decode
  rw [hswitch]
  dsimp only
  rw [if_pos hlegal.1]
  exact ⟨hfields.1, hfields.2, hbranch⟩

/-- A conditional branch goes to its target or to the next instruction. -/
theorem bruCompute_nextPc {csr : CsrFile} {rev : ReadregExecutePack} {op : BruOp}
    (hsub : rev.subOp = .bru op) (hjalr : op ≠ .jalr) (hmret : op ≠ .mret) :
    (bruCompute csr rev).bruNextPc
      = if (bruCompute csr rev).bruJump then rev.pc + rev.imm else rev.pc + 4 := by
  have hsend : ∀ send : ExecuteWbPack, send.bruNextPc = rev.pc + rev.imm →
      (if send.bruJump then send else { send with bruNextPc := rev.pc + 4 }).bruNextPc
        = if (if send.bruJump then send else { send with bruNextPc := rev.pc + 4 }).bruJump
          then rev.pc + rev.imm else rev.pc + 4 := by
    intro send hnext
    cases hj : send.bruJump with
    | true => simp [hj, hnext]
    | false => simp
  unfold bruCompute
  rw [hsub]
  refine hsend _ ?_
  cases rev.enable with
  | false => rfl
  | true =>
    cases op with
    | jalr => exact absurd rfl hjalr
    | mret => exact absurd rfl hmret
    | _ => rfl

theorem bruCompute_pack (csr : CsrFile) (rev : ReadregExecutePack) :
    (bruCompute csr rev).branchPredictorInfoPack = rev.branchPredictorInfoPack := by
  unfold bruCompute
  dsimp only
  split <;> split <;> (try unfold bruOutcome) <;> (try split) <;> rfl

/-- **The branch unit agrees with fetch** on where a conditional branch goes. -/
theorem bruCompute_agrees {csr : CsrFile} {info : OpInfo} {rev : ReadregExecutePack}
    (hinfo : info.Fetched) (hrev : rev.toOpInfo = info.toIssue) : (bruCompute csr rev).Agrees := by
  obtain ⟨q, hq, hsend⟩ := hinfo
  intro hc hj
  rw [bruCompute_pack] at hc hj ⊢
  have hissue : info.toIssue = info := by
    unfold OpInfo.toIssue
    split
    · rename_i hlsu
      rw [show rev.branchPredictorInfoPack = {} by rw [hrev, OpInfo.toIssue, if_pos hlsu]; rfl] at hc
      cases hc
    · rfl
  rw [hissue] at hrev
  have hrev : rev.toDecodeRenamePack = _ := (congrArg OpInfo.toDecodeRenamePack hrev).trans hsend
  have hpack : q.decoded.branchPredictorInfoPack = q.branchPredictorInfoPack := decode_pack _
  have hcq : q.branchPredictorInfoPack.conditionJump = true := by
    rw [← hpack, ← hc, hrev]
  obtain ⟨hpc, himm, op, hsub, hjalr, hmret⟩ := decode_conditional hq hcq
  have hnext := hq.nextPc hcq
  have hop : rev.subOp = .bru op := by rw [hrev]; exact hsub
  rw [bruCompute_nextPc hop hjalr hmret, hj]
  rw [hrev]
  dsimp only
  rw [hpack, hpc, himm, hnext]
  rfl

/-- Any other unit reports no outcome of a conditional branch. -/
theorem OpInfo.Fetched.other {info : OpInfo} (hinfo : info.Fetched) (hu : info.opUnit ≠ .bru) :
    info.toIssue.branchPredictorInfoPack.conditionJump = false := by
  obtain ⟨q, hq, hsend⟩ := hinfo
  unfold OpInfo.toIssue
  split
  · rfl
  · have hpack : info.branchPredictorInfoPack.conditionJump
        = q.branchPredictorInfoPack.conditionJump := by
      rw [show info.branchPredictorInfoPack = _ from
        congrArg DecodeRenamePack.branchPredictorInfoPack hsend]
      exact congrArg (·.conditionJump) (decode_pack _)
    rw [hpack, Bool.eq_false_iff]
    intro hc
    have hlegal := (hq.legal (hq.predicted hc)).2
    simp only [Fetch2DecodePack.legalBranch, Bool.and_eq_true, beq_iff_eq] at hlegal
    refine hu ?_
    rw [show info.opUnit = _ from congrArg DecodeRenamePack.opUnit hsend]
    exact hlegal.2

/-! ## The invariant -/

/-- **The records of fetch reach commit unharmed.** -/
structure MachineInv (m : Machine) : Prop where
  fifos : ∀ q ∈ m.fetch2Decode ++ m.decodeRename, q.Recorded
  flight : ∀ f ∈ m.world.flight, f.info.Fetched
  entries : ∀ f ∈ m.world.flight, (m.world.core.rob.buffer f.info.robId.id).Agrees
  bruPort : ∀ rev, m.bruPort = some rev → rev.Agrees

theorem machineInv_init : MachineInv Machine.init where
  fifos := by simp [Machine.init]
  flight := by simp [Machine.init, World.init]
  entries := by simp [Machine.init, World.init]
  bruPort := by simp [Machine.init]

variable {m : Machine} {inp : Machine.Input} {r : CycleResult} {f : FrontResult}

/-- What rename takes has been fetched. -/
theorem Machine.Legal.renamed (hl : m.Legal inp)
    (hr : m.world.core.cycle inp.cycle = some r) :
    List.Forall₂ (fun t q => t.1.Sends q.decoded) r.rename.turns
      (m.decodeRename.take r.rename.turns.length) := by
  obtain ⟨s, _, hren⟩ := (Core.cycle_eq_some hr).execute
  have hsends := renameRun_sends (fun p hp => (hl.cycle.shaped p hp).enable) hren
  rw [hl.fifo, ← List.map_take, List.forall₂_map_right_iff] at hsends
  exact hsends

/-- A result on a port of commit agrees with the record of its instruction. -/
theorem MachineInv.results (hi : MachineInv m) (hl : m.Legal inp) {rev : ExecuteWbPack}
    (hrev : rev ∈ inp.cycle.commit.executeCommitPort) (hen : rev.enable = true) : rev.Agrees := by
  by_cases hu : rev.opUnit = .bru
  · exact hi.bruPort rev (hl.results rev hrev hen hu)
  · obtain ⟨f, hf, hres⟩ := hl.cycle.results rev hrev hen
    have hother := (hi.flight f hf).other (mt hres.bru.mpr hu)
    intro hc
    rw [hres.pack, hother] at hc
    cases hc

theorem machineInv_cycle (hm : MachineReachable m) (hi : MachineInv m) (hl : m.Legal inp)
    (hr : m.world.core.cycle inp.cycle = some r)
    (hf : m.fetch.front.cycle (m.frontInput inp r) = some f) : MachineInv (m.act inp r f) := by
  obtain ⟨g₀, hg₀⟩ := hm.world.holds
  have hw : Reachable (m.world.act r) := .cycle inp.cycle r hm.world hl.cycle trivial hr
  obtain ⟨g, hg⟩ := hw.holds
  have hsurvives := cycle_survives hg₀ hl.cycle hr hg
  have hfront := frontInv_reachable (.cycle _ f hm.fetch (cycle_targeted hm.world hr) hf)
  refine ⟨fun q hq => ?_, fun f' hf' => ?_, fun f' hf' => ?_, fun rev hrev => ?_⟩
  · have hold : ∀ q, q ∈ m.fetch2Decode ∨ q ∈ m.decodeRename → q.Recorded := fun q hq =>
      hi.fifos q (List.mem_append.mpr hq)
    unfold Machine.act at hq
    dsimp only at hq
    split at hq
    · cases hq
    · simp only [List.mem_append] at hq
      rcases hq with (hq | hq) | (hq | hq)
      · exact hold q (.inl (List.mem_of_mem_drop hq))
      · exact hfront.recorded q (List.mem_append_left _ (List.mem_append_right _ hq))
      · exact hold q (.inr (List.mem_of_mem_drop hq))
      · exact hold q (.inl (List.mem_of_mem_take hq))
  · cases hsurvives f' hf' with
    | kept hold _ _ => exact hi.flight f' hold
    | renamed t ht hinfo _ =>
      obtain ⟨q, hq, hsend⟩ := mem_left_of_forall₂ (hl.renamed hr) ht
      exact ⟨q, hi.fifos q (List.mem_append_right _ (List.mem_of_mem_take hq)), hinfo ▸ hsend⟩
  · show (r.next.rob.buffer f'.info.robId.id).Agrees
    cases hsurvives f' hf' with
    | kept hold _ hcell =>
      rw [hcell]
      rcases m.world.core.merged_cases inp.cycle.commit.executeCommitPort f'.info.robId.id with
        hsame | ⟨rev, hrev, hen, _, happly⟩
      · rw [hsame]
        exact hi.entries f' hold
      · rw [happly]
        exact hi.results hl hrev hen
    | renamed t ht hinfo hfresh =>
      intro hc
      rw [hfresh.pack] at hc
      cases hc
  · unfold Machine.act Machine.bruPortAfter at hrev
    dsimp only at hrev
    split at hrev
    · rename_i rev' _ hbru
      split at hrev
      · cases hrev
      · cases hrev
        obtain ⟨f', hf', hop⟩ := hl.operands rev' hbru
        exact bruCompute_agrees (hi.flight f' hf') hop
    · cases hrev

theorem machineInv_reachable (h : MachineReachable m) : MachineInv m := by
  induction h with
  | init => exact machineInv_init
  | cycle inp r f hm hl hr hf ih => exact machineInv_cycle hm ih hl hr hf

/-! ## Continuity -/

/-- **The stream of fetched instructions is continuous.** -/
structure Machine.Continuous (m : Machine) : Prop where
  /-- What has left for decode is a chain from the first `pc` on: every instruction is where the
  one before it was predicted to go, or at the target of the redirect in between. -/
  chain : ∃ pc, Follows m.fetch.turns initPc m.fetch.sent pc
  /-- What was fetched has left in order, or is on its way, or was squashed; nothing twice. -/
  ids : HandedOut ((m.fetch.sent ++ m.fetch.front.pending).map FetchOpInfo.instId)
    m.fetch.squashed m.fetch.front.fetch1.nextInstId
  /-- A conditional branch is recorded to go to its own target or to the next instruction. -/
  conditional : ∀ q ∈ m.fetch.sent, q.branchPredictorInfoPack.conditionJump = true →
    q.branchPredictorInfoPack.predicted = true ∧ q.branchPredictorInfoPack.nextPc
      = if q.branchPredictorInfoPack.jump then branchTarget q.pc q.value else q.pc + 4
  /-- No ROB entry sends commit to its `verify_only(false)`. -/
  verified : ∀ f ∈ m.world.flight, ∀ item, m.world.core.rob.buffer f.info.robId.id = item →
    ¬ (item.bruJump = item.branchPredictorInfoPack.jump
      ∧ item.bruNextPc ≠ item.branchPredictorInfoPack.nextPc
      ∧ item.branchPredictorInfoPack.conditionJump = true)

/-- **It is continuous in every machine a run reaches**, for every pattern of stalls, redirects,
waits and group breaks. -/
theorem continuous_reachable {m : Machine} (h : MachineReachable m) : m.Continuous := by
  have hfront := frontInv_reachable h.fetch
  obtain ⟨last, hfollows, _⟩ := hfront.stream
  obtain ⟨pc, hsent, _⟩ := Follows.append.mp hfollows
  refine ⟨⟨pc, hsent⟩, hfront.ids, fun q hq hc => ?_, fun f hf item hitem => ?_⟩
  · have hrec := hfront.recorded q (List.mem_append_left _ hq)
    exact ⟨hrec.predicted hc, hrec.nextPc hc⟩
  · intro ⟨hjump, hnext, hcond⟩
    subst hitem
    exact hnext ((machineInv_reachable h).entries f hf hcond hjump)

/-- A branch is fetched, and leaves for decode in the next cycle. -/
def fetchedBranch : Option Machine :=
  (Machine.init.next { instructionValue := some fun _ => 0x00000463 }).bind fun m => m.next {}

theorem continuous_fetchedBranch :
    ∃ m, fetchedBranch = some m ∧ m.fetch.sent.map FetchOpInfo.instId = [0, 1, 2, 3]
      ∧ m.Continuous := by
  obtain ⟨m₁, h₁⟩ : ∃ m, Machine.init.next { instructionValue := some fun _ => 0x00000463 }
      = some m := Option.isSome_iff_exists.mp (by decide +kernel)
  have hfifo : (Machine.init.next { instructionValue := some fun _ => 0x00000463 }).map
      (fun m => m.decodeRename.length) = some 0 := by decide +kernel
  obtain ⟨m₂, h₂⟩ : ∃ m, fetchedBranch = some m :=
    Option.isSome_iff_exists.mp (by decide +kernel)
  have hsent : fetchedBranch.map (fun m => m.fetch.sent.map FetchOpInfo.instId)
      = some [0, 1, 2, 3] := by decide +kernel
  rw [h₂, Option.map_some, Option.some.injEq] at hsent
  refine ⟨m₂, h₂, hsent, continuous_reachable ?_⟩
  rw [h₁, Option.map_some, Option.some.injEq, List.length_eq_zero_iff] at hfifo
  rw [fetchedBranch, h₁, Option.bind_some] at h₂
  exact (MachineReachable.init.next (Machine.legal_idle _ rfl) h₁).next
    (Machine.legal_idle _ hfifo) h₂

end DreamCore
