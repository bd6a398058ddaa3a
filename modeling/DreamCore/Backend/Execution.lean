import DreamCore.Backend.RegfileStep
import DreamCore.Backend.WideCommit
import DreamCore.Pipeline.Lu
import DreamCore.Pipeline.LsuReadreg

/-!
# From the issue queues to the ports of the units

The pipe joined with register read and the units. What has been issued is in
`units` until its result stands in a port, where commit and write-back read it a
cycle later. How long that takes, and what comes again because of a replay, is
left open; a flush removes what it squashes from register read and from every
unit but the CSR unit, which does not look at the flush of the branch unit.

What `Pipe` asks of the results of a run is a consequence here: a port belongs to
an instruction in flight that has issued and is not finished.
-/

namespace DreamCore

open Ring

/-! ## What the units are given, and what they make of it -/

/-- Nothing of the instruction is left in its issue queue once this pack is sure to be executed. -/
def ReadregExecutePack.final (op : ReadregExecutePack) : Bool :=
  op.lastUop || !op.opUnit.isStorePart

/-- **What register read sends to the units** for the instruction `info`: the instruction, or one of
the two parts of a store. An integer instruction with an operand that is nowhere to be found is
sent disabled. -/
inductive OpInfo.Executes (info : OpInfo) : ReadregExecutePack → Prop where
  | whole (rs1Value rs2Value : Word) (found : Bool) : info.opUnit ≠ .sdu →
      Executes info (readreg { info.toIssue with
        enable := info.enable && found } rs1Value rs2Value)
  | address (rs1Value rs2Value : Word) (last : Bool) : info.opUnit = .sdu →
      Executes info (readreg { info.toIssue with
        lastUop := last
        opUnit := .sau
        subOp := LsuIssue.addressOp info.subOp } rs1Value rs2Value)
  | data (rs1Value rs2Value : Word) (last : Bool) : info.opUnit = .sdu →
      Executes info (readreg { info.toIssue with lastUop := last } rs1Value rs2Value)

/-- **What a unit sends on for the pack it has received.** -/
inductive ReadregExecutePack.Produces (op : ReadregExecutePack) : ExecuteWbPack → Prop where
  | alu : op.opUnit = .alu → Produces op (aluCompute op)
  | bru (csr : CsrFile) : op.opUnit = .bru → Produces op (bruCompute csr op)
  | csr (bank : CsrBank) : op.opUnit = .csr → Produces op (csrCompute bank op)
  | div : op.opUnit = .div → Produces op (divCompute op)
  | mul : op.opUnit = .mul → Produces op (mulCompute op)
  /-- The load was in the first level in `s₁`, and is in the second in `s₂`. -/
  | lu (s₁ s₂ : LuState) (inp₁ inp₂ : LuInput) (value : Option Word) : op.opUnit = .lu →
      s₂.l2RevPack = (luTake s₁ inp₁ op).l2RevPack → Produces op (luSend s₂ inp₂ value)
  | sau : op.opUnit = .sau → Produces op (sauCompute op)
  | sdu : op.opUnit = .sdu → Produces op (sduCompute op)

/-- The fields of a pack that tell which instruction it belongs to, and where its result goes. -/
structure OpInfo.Names (info op : OpInfo) : Prop where
  enable : op.enable = true → info.enable = true
  valid : op.valid = info.valid
  needRename : op.needRename = info.needRename
  rdPhy : op.rdPhy = info.rdPhy
  robId : op.robId = info.robId
  pack : op.branchPredictorInfoPack = info.toIssue.branchPredictorInfoPack
  opUnit : op.opUnit = info.opUnit ∨ (op.opUnit = .sau ∧ info.opUnit = .sdu)

theorem readreg_toOpInfo (info : OpInfo) (rs1Value rs2Value : Word) :
    (readreg info rs1Value rs2Value).toOpInfo = info := by
  unfold readreg
  split <;> rfl

theorem OpInfo.names_toIssue (info : OpInfo) : info.Names info.toIssue := by
  unfold toIssue
  split <;> exact ⟨fun h => h, rfl, rfl, rfl, rfl, by simp [toIssue, *], .inl rfl⟩

section Packs

variable {info : OpInfo} {op : ReadregExecutePack} {rev : ExecuteWbPack}

theorem OpInfo.Executes.names (h : info.Executes op) : info.Names op.toOpInfo := by
  have hissue := info.names_toIssue
  cases h with
  | whole rs1Value rs2Value found _ =>
    rw [readreg_toOpInfo]
    refine { hissue with enable := fun h => ?_ }
    exact (Bool.and_eq_true _ _ ▸ h).1
  | address rs1Value rs2Value last hu =>
    rw [readreg_toOpInfo]
    exact { hissue with opUnit := .inr ⟨rfl, hu⟩ }
  | data rs1Value rs2Value last _ =>
    rw [readreg_toOpInfo]
    exact { hissue with }

/-- The address part of a store is the only pack that does not keep the unit. -/
theorem OpInfo.Executes.unit_iff (h : info.Executes op) {u : OpUnit} (hu : u ≠ .sau)
    (hs : u ≠ .sdu) : op.opUnit = u ↔ info.opUnit = u := by
  rcases h.names.opUnit with he | ⟨he, hi⟩
  · rw [he]
  · rw [he, hi]
    exact ⟨fun h => absurd h.symm hu, fun h => absurd h.symm hs⟩

/-- What a unit copies of the pack it has received. -/
structure ReadregExecutePack.Copied (op : ReadregExecutePack) (rev : ExecuteWbPack) : Prop where
  enable : rev.enable = op.enable
  valid : rev.valid = op.valid
  lastUop : rev.lastUop = op.lastUop
  needRename : rev.needRename = op.needRename
  rdPhy : rev.rdPhy = op.rdPhy
  robId : rev.robId = op.robId
  pack : rev.branchPredictorInfoPack = op.branchPredictorInfoPack
    ∨ (rev.branchPredictorInfoPack = {} ∧ op.opUnit.isStorePart = true)
  opUnit : rev.opUnit = op.opUnit

/-- The ALU copies what it does not compute. -/
theorem aluCompute_copied (op : ReadregExecutePack) : op.Copied (aluCompute op) := by
  have hcopy : op.Copied (.copy op) := ⟨rfl, rfl, rfl, rfl, rfl, rfl, .inl rfl, rfl⟩
  have hout : ∀ o, op.Copied (aluOutcome op o (.copy op)) := by
    intro o
    cases o <;> exact ⟨rfl, rfl, rfl, rfl, rfl, rfl, .inl rfl, rfl⟩
  unfold aluCompute
  dsimp only
  split
  · split
    · exact hout _
    · exact hcopy
    · exact ⟨rfl, rfl, rfl, rfl, rfl, rfl, .inl rfl, rfl⟩
  · exact hcopy

theorem bruCompute_copied (csr : CsrFile) (op : ReadregExecutePack) :
    op.Copied (bruCompute csr op) := by
  have hout : ∀ o send, op.Copied send → op.Copied (bruOutcome csr op o send) := by
    intro o send h
    cases o <;> exact { h with }
  have hnext : ∀ send : ExecuteWbPack, op.Copied send →
      op.Copied (if send.bruJump then send else { send with bruNextPc := op.pc + 4 }) := by
    intro send h
    split
    · exact h
    · exact { h with }
  refine hnext _ ?_
  have hcopy : op.Copied { ExecuteWbPack.copy op with bruNextPc := op.pc + op.imm } :=
    ⟨rfl, rfl, rfl, rfl, rfl, rfl, .inl rfl, rfl⟩
  split
  · exact hout _ _ hcopy
  · exact hcopy

theorem csrCompute_copied (bank : CsrBank) (op : ReadregExecutePack) :
    op.Copied (csrCompute bank op) := by
  have hcopy : op.Copied (.copy op) := ⟨rfl, rfl, rfl, rfl, rfl, rfl, .inl rfl, rfl⟩
  unfold csrCompute
  dsimp only
  split
  · unfold csrExecute
    dsimp only
    split
    · exact { hcopy with }
    · split
      · split
        · exact { hcopy with }
        · exact { hcopy with }
      · exact { hcopy with }
  · exact hcopy

theorem divCompute_copied (op : ReadregExecutePack) : op.Copied (divCompute op) := by
  have hcopy : op.Copied (.copy op) := ⟨rfl, rfl, rfl, rfl, rfl, rfl, .inl rfl, rfl⟩
  unfold divCompute
  dsimp only
  split
  · rename_i o _ _
    cases o <;> exact { hcopy with }
  · exact hcopy

theorem mulCompute_copied (op : ReadregExecutePack) : op.Copied (mulCompute op) := by
  have hcopy : op.Copied (.copy op) := ⟨rfl, rfl, rfl, rfl, rfl, rfl, .inl rfl, rfl⟩
  unfold mulCompute
  dsimp only
  split
  · rename_i o _ _
    cases o <;> exact { hcopy with }
  · exact hcopy

/-- **What the load unit sends** is the load its first level has taken. -/
theorem luSend_copied {s₁ s₂ : LuState} {inp₁ inp₂ : LuInput} {value : Option Word}
    (hlevel : s₂.l2RevPack = (luTake s₁ inp₁ op).l2RevPack)
    (hen : (luSend s₂ inp₂ value).enable = true) : op.Copied (luSend s₂ inp₂ value) := by
  have htake : op.Copied { ExecuteWbPack.copy (luTake s₁ inp₁ op).l2RevPack with
      storeBufferId := 0 } := by
    unfold luTake
    dsimp only
    split <;> exact ⟨rfl, rfl, rfl, rfl, rfl, rfl, .inl rfl, rfl⟩
  unfold luSend at hen ⊢
  dsimp only at hen ⊢
  rw [hlevel] at hen ⊢
  split at hen
  · rename_i halive
    rw [if_pos halive]
    split at hen
    · rename_i hex
      rw [if_pos hex]
      exact htake
    · rename_i hex
      rw [if_neg hex]
      cases value with
      | some v => exact { htake with }
      | none => cases hen
  · cases hen

theorem sauCompute_copied {op : ReadregExecutePack} (hu : op.opUnit = .sau) :
    op.Copied (sauCompute op) := by
  have hpart : op.opUnit.isStorePart = true := by
    rw [hu]
    rfl
  unfold sauCompute
  dsimp only
  split <;> exact ⟨rfl, rfl, rfl, rfl, rfl, rfl, .inr ⟨rfl, hpart⟩, rfl⟩

/-- **Every unit copies** what it does not compute. -/
theorem ReadregExecutePack.Produces.copied (h : op.Produces rev) (hen : rev.enable = true) :
    op.Copied rev := by
  cases h with
  | alu _ => exact aluCompute_copied op
  | bru csr _ => exact bruCompute_copied csr op
  | csr bank _ => exact csrCompute_copied bank op
  | div _ => exact divCompute_copied op
  | mul _ => exact mulCompute_copied op
  | lu s₁ s₂ inp₁ inp₂ value _ hlevel => exact luSend_copied hlevel hen
  | sau hu => exact sauCompute_copied hu
  | sdu hu =>
    refine ⟨rfl, rfl, rfl, rfl, rfl, rfl, .inr ⟨rfl, ?_⟩, rfl⟩
    rw [hu]
    rfl

/-- The units a pack belongs to. -/
theorem OpInfo.Executes.operands (h : info.Executes op) : OperandsOf info op := by
  have hn := h.names
  refine ⟨hn.robId, hn.pack, h.unit_iff (by decide) (by decide), ?_⟩
  rcases hn.opUnit with he | ⟨he, hi⟩
  · rw [he]
  · rw [he, hi]
    rfl

theorem OpInfo.Executes.result (h : info.Executes op) (hp : op.Produces rev)
    (hen : rev.enable = true) : ResultOf info rev := by
  have hn := h.names
  have hc := hp.copied hen
  refine ⟨hc.robId.trans hn.robId, ?_, ?_⟩
  · rcases hc.pack with he | ⟨he, hpart⟩
    · exact he.trans hn.pack
    · -- dispatch has already left out the pack of a store
      have hlsu : info.opUnit.isLsu = true := by
        rw [← h.operands.lsu]
        revert hpart
        cases op.opUnit <;> decide
      rw [he, toIssue, if_pos hlsu]
      rfl
  · rw [hc.opUnit]
    exact h.unit_iff (by decide) (by decide)

end Packs

/-! ## Who stays in flight -/

section Survivors

variable {w : World} {inp : CycleInput} {r : CycleResult} {g₀ : Ghost}

/-- **The window after a cycle that commit does not flush.** -/
theorem act_flight (hw : w.Holds g₀) (hl : inp.Legal w) (h : w.core.cycle inp = some r)
    (hfl : r.commit.feedback.flush = false) : (w.act r).flight = w.survivors r
      ++ flights (w.released ++ releasedIds r.commit.retired).length r.rename.turns := by
  cases cycle_outcome hw hl h with
  | dropped hd _ _ =>
    rw [hd] at hfl
    cases hfl
  | stepped k s _ _ hret _ hflight _ _ =>
    rw [hflight, World.survivors, hfl, hret]
    rfl

/-- What is not finished and not squashed stays. -/
theorem mem_survivors (hw : w.Holds g₀) (h : w.core.cycle inp = some r)
    (hfl : r.commit.feedback.flush = false) {f : Flight} (hf : f ∈ w.flight)
    (hfin : ¬ (w.core.rob.buffer f.info.robId.id).finish = true)
    (hsq : r.bru.squashes f.info.robId = false) : f ∈ w.survivors r := by
  rw [World.survivors, hfl]
  refine List.mem_filter.mpr ⟨?_, by rw [hsq]; rfl⟩
  rw [← List.take_append_drop r.commit.retired.length w.flight] at hf
  rcases List.mem_append.mp hf with hf | hf
  · exact absurd (retired_plain hw h hf).1 hfin
  · exact hf

end Survivors

/-! ## Runs -/

/-- The pipe, the units behind it, and the history of the registers. -/
structure Execution where
  pipe : Pipe
  /-- What register read and the units hold. -/
  units : List ReadregExecutePack
  /-- The write-back ports: the eight of `wb`, then those that only commit reads. -/
  ports : List ExecuteWbPack
  /-- The instruction a register was last given to has written it, or reset has given it out. -/
  wrote : Nat → Bool

/-- What the rest of the machine brings into a cycle. -/
structure ExecutionInput where
  pipe : PipeInput := {}
  /-- What enters register read and is sure to be sent on. -/
  arrives : List ReadregExecutePack := []
  /-- What the units make a result of, and what they keep. -/
  finishes : List ReadregExecutePack := []
  stays : List ReadregExecutePack := []
  ports : List ExecuteWbPack := []

/-- No flush of an execution unit squashes the instruction. -/
def CycleResult.spares (r : CycleResult) (id : Ptr) : Bool :=
  !r.bru.squashes id && !r.sau.squashesEqual id

/-- After a cycle the instruction that holds register `p` has written it. -/
def World.wroteBack (w : World) (inp : CycleInput) (r : CycleResult) (wrote : Nat → Bool)
    (p : Nat) : Bool :=
  if r.rename.turns.any fun t => t.1.allocates && t.1.rdPhy == p then false
  else wrote p || (inp.written w.core r).any fun rev => rev.rdPhy == p
    && w.flight.any fun f => f.info.allocates && f.info.rdPhy == p && f.info.robId == rev.robId

namespace Execution

/-- After reset. -/
def init : Execution := ⟨Pipe.init, [], [], fun p => decide (p < archRegNum - 1)⟩

/-- **What a cycle that comes to `r` can do** between the issue queues and the ports. -/
structure Flows (q : Execution) (inp : ExecutionInput) (r : CycleResult) : Prop where
  /-- An entry sends nothing once it has left its queue. -/
  arrives : ∀ op ∈ inp.arrives, (∃ f ∈ q.pipe.world.flight, f.info.Executes op)
    ∧ op.robId ∉ q.pipe.issued ∧ r.spares op.robId = true
  /-- It leaves with what it sends last; a load stays until it has its value. -/
  leaves : ∀ op ∈ inp.arrives, op.enable = true → op.final = true → op.opUnit ≠ .lu →
    op.robId ∈ q.pipe.leaving inp.pipe
  kept : (inp.finishes ++ inp.stays).Subperm q.units
  stays : ∀ op ∈ inp.stays, r.spares op.robId = true
  /-- Every unit but that of the CSRs drops what is squashed. -/
  finishes : ∀ op ∈ inp.finishes, op.opUnit ≠ .csr → r.spares op.robId = true
  loads : ∀ op ∈ inp.finishes, op.opUnit = .lu →
    op.robId ∈ q.pipe.issued ++ q.pipe.leaving inp.pipe
  /-- Nothing of an instruction is behind its last part. -/
  order : ∀ op ∈ inp.finishes, op.lastUop = true → ∀ op' ∈ inp.stays ++ inp.arrives,
    op'.robId ≠ op.robId
  /-- A flush of commit empties register read and the units. -/
  dropped : r.commit.feedback.flush = true →
    inp.arrives = [] ∧ inp.finishes = [] ∧ inp.stays = []
  results : List.Forall₂ ReadregExecutePack.Produces inp.finishes
    (inp.ports.filter fun rev => rev.enable)
  /-- The two units of the stores have no port to the register file. -/
  outer : ∀ rev ∈ inp.ports.drop 8, rev.enable = true → rev.opUnit.isStorePart = true

/-- One cycle: the core, dispatch, and what the units do. A pack that is not enabled does nothing in
the branch unit. -/
structure Cycle (q : Execution) (inp : ExecutionInput) (r : CycleResult) (d : Dispatch) : Prop where
  decoded : ∀ p ∈ inp.pipe.cycle.commit.decodeRenameFifo,
    ∃ rev : Fetch2DecodePack, rev.FetchOk ∧ p = decode rev
  ports : inp.pipe.cycle.commit.executeCommitPort = q.ports
  bru : ∀ rev, inp.pipe.cycle.bru = some rev →
    rev ∈ q.units ∧ rev.opUnit = .bru ∧ rev.enable = true
  sau : ∀ rev, inp.pipe.cycle.sau = some rev → rev ∈ q.units ∧ rev.opUnit = .sau
  sdu : ∀ rev, inp.pipe.cycle.sdu = some rev → rev ∈ q.units ∧ rev.opUnit = .sdu
  lu : ∀ rev, inp.pipe.cycle.lu = some rev → rev ∈ q.units ∧ rev.opUnit = .lu
  core : q.pipe.world.core.cycle inp.pipe.cycle = some r
  dispatch : q.pipe.dispatch.run (q.pipe.dispatchInput r) = some d
  stall : inp.pipe.cycle.dispatchStall = q.pipe.dispatch.stall (q.pipe.dispatchInput r)
  flows : q.Flows inp r

/-- After a cycle that has come to `r` in the core and to `d` in dispatch. -/
def act (q : Execution) (inp : ExecutionInput) (r : CycleResult) (d : Dispatch) : Execution where
  pipe := q.pipe.act inp.pipe r d
  units := inp.stays ++ inp.arrives
  ports := inp.ports
  wrote := q.pipe.world.wroteBack inp.pipe.cycle r q.wrote

/-- **The states that runs from reset reach.** -/
inductive Reachable : Execution → Prop where
  | init : Reachable Execution.init
  | cycle {q : Execution} (inp : ExecutionInput) (r : CycleResult) (d : Dispatch) :
      Reachable q → q.Cycle inp r d → Reachable (q.act inp r d)

/-! ## The instructions behind the ports -/

/-- The instruction an enabled result belongs to. -/
def Belongs (w : World) (rev : ExecuteWbPack) : Prop :=
  ∃ f ∈ w.flight, ∃ op, f.info.Executes op ∧ op.Produces rev

/-- **What register read, the units and the ports hold** belongs to instructions in flight that are
not finished. -/
structure Held (q : Execution) : Prop where
  units : ∀ op ∈ q.units, ∃ f ∈ q.pipe.world.flight, f.info.Executes op
  ports : ∀ rev ∈ q.ports, rev.enable = true → Belongs q.pipe.world rev
  unitsIssued : ∀ op ∈ q.units, op.enable = true → op.final = true → op.opUnit ≠ .lu →
    op.robId ∈ q.pipe.issued
  portsIssued : ∀ rev ∈ q.ports, rev.enable = true → rev.lastUop = true →
    rev.robId ∈ q.pipe.issued
  /-- Behind a result that completes its entry there is nothing of the instruction. -/
  last : ∀ rev ∈ q.ports, rev.enable = true → rev.lastUop = true →
    ∀ op ∈ q.units, op.robId ≠ rev.robId
  finished : ∀ f ∈ q.pipe.world.flight,
    (q.pipe.world.core.rob.buffer f.info.robId.id).finish = true →
      (∀ op ∈ q.units, op.robId ≠ f.info.robId)
        ∧ ∀ rev ∈ q.ports, rev.enable = true → rev.robId ≠ f.info.robId
  outer : ∀ rev ∈ q.ports.drop 8, rev.enable = true → rev.opUnit.isStorePart = true

variable {q : Execution} {inp : ExecutionInput} {r : CycleResult} {d : Dispatch} {g₀ g : Ghost}

theorem held_init : Execution.init.Held := by
  constructor <;> simp [Execution.init, Pipe.init, World.init]

/-- **The pipe of a run asks for nothing more.** -/
theorem Held.pipe (hq : q.Held) (hc : q.Cycle inp r d) : q.pipe.Cycle inp.pipe r d where
  legal := by
    have hunit : ∀ rev ∈ q.units, ∀ u, rev.opUnit = u →
        ∃ f ∈ q.pipe.world.flight, OperandsOf f.info rev ∧ rev.opUnit = u := by
      intro rev hrev u hu
      obtain ⟨f, hf, hex⟩ := hq.units rev hrev
      exact ⟨f, hf, hex.operands, hu⟩
    refine ⟨⟨hc.decoded, fun rev hrev hen => ?_, fun rev hrev => ?_, fun rev hrev => ?_,
      fun rev hrev => ?_, fun rev hrev => ?_⟩, fun rev hrev => ?_, fun rev hrev hen hlast => ?_⟩
    · rw [hc.ports] at hrev
      obtain ⟨f, hf, op, hex, hprod⟩ := hq.ports rev hrev hen
      exact ⟨f, hf, hex.result hprod hen⟩
    · obtain ⟨hmem, hu, -⟩ := hc.bru rev hrev
      exact hunit rev hmem _ hu
    · obtain ⟨hmem, hu⟩ := hc.sau rev hrev
      exact hunit rev hmem _ hu
    · obtain ⟨hmem, hu⟩ := hc.sdu rev hrev
      exact hunit rev hmem _ hu
    · obtain ⟨hmem, hu⟩ := hc.lu rev hrev
      exact hunit rev hmem _ hu
    · obtain ⟨hmem, hu, hen⟩ := hc.bru rev hrev
      refine hq.unitsIssued rev hmem hen ?_ ?_
      · rw [ReadregExecutePack.final, hu]
        exact Bool.or_true _
      · rw [hu]
        decide
    · rw [hc.ports] at hrev
      exact hq.portsIssued rev hrev hen hlast
  core := hc.core
  dispatch := hc.dispatch
  stall := hc.stall

/-- What has been sent to a unit is not the CSR part of anything else: the instruction is one of the
unit, and dispatch has sent it out alone. -/
theorem Held.csr_spares (hq : q.Held) (hc : q.Cycle inp r d) (hw : q.pipe.world.Holds g₀)
    {sent : List OpInfo} {entered : Bool → List OpInfo} (hp : q.pipe.Places sent entered)
    (hs : q.pipe.Serial sent) (hb : Pipe.BehindLsu sent)
    (hdec : ∀ f ∈ q.pipe.world.flight, ∃ rev : Fetch2DecodePack, rev.FetchOk
      ∧ f.info.Sends (decode rev)) {op : ReadregExecutePack} (hop : op ∈ q.units)
    (hen : op.enable = true) (hu : op.opUnit = .csr) : r.spares op.robId = true := by
  have hpipe := hq.pipe hc
  obtain ⟨hsau, hbru⟩ := (Core.cycle_eq_some hc.core).feedbacks hw
  cases hfl : r.bru.flush with
  | false => simp [CycleResult.spares, FlushFeedback.squashes, FlushFeedback.squashesEqual, hfl, hsau]
  | true =>
    -- what has issued has been sent out
    have hsent : ∀ f ∈ q.pipe.world.flight, f.info.robId ∈ q.pipe.issued → f.info ∈ sent := by
      intro f hf hissued
      have hinfo : f.info ∈ sent ++ q.pipe.upstream := by
        rw [← hp.flight]
        exact List.mem_map_of_mem hf
      rcases List.mem_append.mp hinfo with h | h
      · exact h
      · exact absurd hissued (hp.upstream _ h)
    have hfb : (inp.pipe.cycle.bruFb q.pipe.world.core).flush = true := by
      rw [hbru] at hfl
      split at hfl
      · cases hfl
      · exact hfl
    obtain ⟨b, hbmem, rev, hrev, hopnd, hbu, -⟩ := hpipe.legal.cycle.flushing hfb
    have hbsent := hsent b hbmem (hopnd.robId ▸ hpipe.legal.branch rev hrev)
    obtain ⟨f, hf, hex⟩ := hq.units op hop
    have hfu : f.info.opUnit = .csr := (hex.unit_iff (by decide) (by decide)).mp hu
    have hissued : op.robId ∈ q.pipe.issued := by
      refine hq.unitsIssued op hop hen ?_ (by rw [hu]; decide)
      rw [ReadregExecutePack.final, hu]
      exact Bool.or_true _
    have hfsent := hsent f hf (hex.names.robId ▸ hissued)
    have hwaits : f.info.waits = true := by
      obtain ⟨dec, -, hsend⟩ := hdec f hf
      rw [DecodeRenamePack.waits, hsend.unit_valid (by rw [hfu]; decide), hfu]
      rfl
    obtain ⟨l, l', hl⟩ := List.append_of_mem hfsent
    obtain ⟨rfl, -⟩ := hs l _ l' hl hwaits
    have hbunit : b.info.opUnit = .bru := hopnd.bru.mp hbu
    rw [hl] at hbsent
    rcases List.mem_append.mp hbsent with h | h
    · have := hb l _ [] hl hwaits _ h
      rw [hbunit] at this
      cases this
    · rw [List.mem_singleton.mp h, hfu] at hbunit
      cases hbunit

/-- **Where the instructions of a cycle go**: without a flush of commit, an instruction in flight
stays unless its entry is finished or a flush squashes it. -/
theorem stays_inFlight (hw : q.pipe.world.Holds g₀) (hc : q.pipe.Cycle inp.pipe r d)
    (hfl : r.commit.feedback.flush = false) {f : Flight} (hf : f ∈ q.pipe.world.flight)
    (hfin : (q.pipe.world.core.rob.buffer f.info.robId.id).finish ≠ true)
    (hspares : r.spares f.info.robId = true) :
    f ∈ q.pipe.world.survivors r ∧ f ∈ (q.pipe.world.act r).flight := by
  rw [CycleResult.spares, Bool.and_eq_true, Bool.not_eq_true'] at hspares
  have hsurv := mem_survivors hw hc.core hfl hf (fun h => hfin h) hspares.1
  refine ⟨hsurv, ?_⟩
  rw [act_flight hw hc.legal.cycle hc.core hfl]
  exact List.mem_append_left _ hsurv

/-- The pack behind a result. -/
theorem Flows.source (h : q.Flows inp r) {rev : ExecuteWbPack} (hrev : rev ∈ inp.ports)
    (hen : rev.enable = true) : ∃ op ∈ inp.finishes, op ∈ q.units ∧ op.Produces rev := by
  obtain ⟨op, hop, hprod⟩ :=
    mem_left_of_forall₂ h.results.flip (List.mem_filter.mpr ⟨hrev, hen⟩)
  exact ⟨op, hop, h.kept.subset (List.mem_append_left _ hop), hprod⟩

/-- **A cycle that commit flushes** leaves nothing. -/
theorem Held.dropped (hc : q.Cycle inp r d) (hfl : r.commit.feedback.flush = true) :
    (q.act inp r d).Held := by
  obtain ⟨harrives, hfinishes, hstays⟩ := hc.flows.dropped hfl
  have hunits : (q.act inp r d).units = [] := by
    rw [act, harrives, hstays]
    rfl
  have hports : ∀ rev ∈ inp.ports, rev.enable ≠ true := by
    intro rev hrev hen
    obtain ⟨op, hop, -⟩ := hc.flows.source hrev hen
    rw [hfinishes] at hop
    cases hop
  have hflight : (q.act inp r d).pipe.world.flight = [] := by
    simp [act, Pipe.act, World.act, World.flightAfter, hfl]
  refine ⟨?_, fun rev hrev hen => absurd hen (hports rev hrev), ?_,
    fun rev hrev hen => absurd hen (hports rev hrev),
    fun rev hrev hen => absurd hen (hports rev hrev), ?_, hc.flows.outer⟩
  · rw [hunits]
    simp
  · rw [hunits]
    simp
  · rw [hflight]
    simp

/-- **A cycle keeps what is held with its instructions.** -/
theorem Held.stepped (hq : q.Held) (hc : q.Cycle inp r d) (hw : q.pipe.world.Holds g₀)
    (hw' : (q.pipe.act inp.pipe r d).world.Holds g) {sent : List OpInfo}
    {entered : Bool → List OpInfo} (hp : q.pipe.Places sent entered)
    (hcsr : ∀ op ∈ q.units, op.enable = true → op.opUnit = .csr → r.spares op.robId = true)
    (hfl : r.commit.feedback.flush = false) : (q.act inp r d).Held := by
  have hpipe := hq.pipe hc
  -- an instruction with a pack in register read or in a unit is not finished
  have hunit : ∀ op ∈ q.units, r.spares op.robId = true → ∃ f ∈ q.pipe.world.survivors r,
      f ∈ (q.pipe.world.act r).flight ∧ f.info.Executes op := by
    intro op hop hspares
    obtain ⟨f, hf, hex⟩ := hq.units op hop
    obtain ⟨hsurv, hnext⟩ := stays_inFlight hw hpipe hfl hf
      (fun hfin => (hq.finished f hf hfin).1 op hop hex.names.robId) (hex.names.robId ▸ hspares)
    exact ⟨f, hsurv, hnext, hex⟩
  have harrives : ∀ op ∈ inp.arrives, ∃ f ∈ q.pipe.world.survivors r,
      f ∈ (q.pipe.world.act r).flight ∧ f.info.Executes op := by
    intro op hop
    obtain ⟨⟨f, hf, hex⟩, hissued, hspares⟩ := hc.flows.arrives op hop
    obtain ⟨hsurv, hnext⟩ := stays_inFlight hw hpipe hfl hf
      (fun hfin => hissued (hex.names.robId ▸ hp.finished f hf hfin)) (hex.names.robId ▸ hspares)
    exact ⟨f, hsurv, hnext, hex⟩
  have hstays : ∀ op ∈ inp.stays, op ∈ q.units := fun op hop =>
    hc.flows.kept.subset (List.mem_append_right _ hop)
  have hports : ∀ rev ∈ inp.ports, rev.enable = true → ∃ op ∈ inp.finishes, op ∈ q.units
      ∧ op.Produces rev ∧ op.Copied rev ∧ ∃ f ∈ q.pipe.world.survivors r,
        f ∈ (q.pipe.world.act r).flight ∧ f.info.Executes op := by
    intro rev hrev hen
    obtain ⟨op, hop, hmem, hprod⟩ := hc.flows.source hrev hen
    have hcop := hprod.copied hen
    refine ⟨op, hop, hmem, hprod, hcop, hunit op hmem ?_⟩
    by_cases hu : op.opUnit = .csr
    · exact hcsr op hmem (hcop.enable ▸ hen) hu
    · exact hc.flows.finishes op hop hu
  have hissued : ∀ f ∈ q.pipe.world.survivors r,
      f.info.robId ∈ q.pipe.issued ∨ f.info.robId ∈ q.pipe.leaving inp.pipe →
        f.info.robId ∈ (q.pipe.act inp.pipe r d).issued := fun f hf h =>
    Pipe.mem_issued_act.mpr ⟨h, f, hf, rfl⟩
  refine ⟨fun op hop => ?_, fun rev hrev hen => ?_, fun op hop hen hfinal hlu => ?_,
    fun rev hrev hen hlast => ?_, fun rev hrev hen hlast op' hop' => ?_, fun f hf hfin => ?_,
    hc.flows.outer⟩
  · rcases List.mem_append.mp hop with hop | hop
    · obtain ⟨f, -, hf, hex⟩ := hunit op (hstays op hop) (hc.flows.stays op hop)
      exact ⟨f, hf, hex⟩
    · obtain ⟨f, -, hf, hex⟩ := harrives op hop
      exact ⟨f, hf, hex⟩
  · obtain ⟨op, -, -, hprod, -, f, -, hf, hex⟩ := hports rev hrev hen
    exact ⟨f, hf, op, hex, hprod⟩
  · rcases List.mem_append.mp hop with hop | hop
    · obtain ⟨f, hsurv, -, hex⟩ := hunit op (hstays op hop) (hc.flows.stays op hop)
      have hid := hq.unitsIssued op (hstays op hop) hen hfinal hlu
      rw [hex.names.robId] at hid ⊢
      exact hissued f hsurv (.inl hid)
    · obtain ⟨f, hsurv, -, hex⟩ := harrives op hop
      have hid := hc.flows.leaves op hop hen hfinal hlu
      rw [hex.names.robId] at hid ⊢
      exact hissued f hsurv (.inr hid)
  · obtain ⟨op, hop, hmem, hprod, hcop, f, hsurv, -, hex⟩ := hports rev hrev hen
    have hid : op.robId ∈ q.pipe.issued ∨ op.robId ∈ q.pipe.leaving inp.pipe := by
      by_cases hlu : op.opUnit = .lu
      · exact List.mem_append.mp (hc.flows.loads op hop hlu)
      · refine .inl (hq.unitsIssued op hmem (hcop.enable ▸ hen) ?_ hlu)
        rw [ReadregExecutePack.final, ← hcop.lastUop, hlast]
        rfl
    rw [hcop.robId, hex.names.robId]
    rw [hex.names.robId] at hid
    exact hissued f hsurv hid
  · obtain ⟨op, hop, -, -, hcop, -⟩ := hports rev hrev hen
    rw [hcop.robId]
    exact hc.flows.order op hop (hcop.lastUop ▸ hlast) op' hop'
  · -- what has completed the entry, now or before, has left nothing behind
    have hno : f ∈ q.pipe.world.flight ∧ f.info.robId ∈ q.pipe.issued
        ∧ ∀ op ∈ q.units, op.robId ≠ f.info.robId := by
      cases cycle_survives hw hpipe.legal.cycle hc.core hw' f hf with
      | renamed t ht hinfo hfresh =>
        have := hfresh.finish
        rw [show r.next = (q.act inp r d).pipe.world.core from rfl, hfin] at this
        cases this
      | kept hmem _ hcell =>
        rw [show (q.act inp r d).pipe.world.core = r.next from rfl, hcell, hc.ports] at hfin
        rcases q.pipe.world.core.merged_cases q.ports f.info.robId.id with
          hm | ⟨rev, hrev, hen, hslot, hm⟩
        · rw [hm] at hfin
          exact ⟨hmem, hp.finished f hmem hfin, (hq.finished f hmem hfin).1⟩
        · rw [hm, RobItem.applyResult, Bool.or_eq_true] at hfin
          rcases hfin with hfin | hlast
          · exact ⟨hmem, hp.finished f hmem hfin, (hq.finished f hmem hfin).1⟩
          · obtain ⟨f', hf', op, hex, hprod⟩ := hq.ports rev hrev hen
            have hrob := (hex.result hprod hen).robId
            have hff : f' = f := List.inj_on_of_nodup_map hw.slots_nodup hf' hmem (by
              rw [← hrob]
              exact hslot)
            rw [hff] at hrob
            rw [← hrob]
            exact ⟨hmem, hq.portsIssued rev hrev hen hlast, hq.last rev hrev hen hlast⟩
    obtain ⟨-, hid, hnone⟩ := hno
    refine ⟨fun op hop => ?_, fun rev hrev hen => ?_⟩
    · rcases List.mem_append.mp hop with hop | hop
      · exact hnone op (hstays op hop)
      · intro he
        exact (hc.flows.arrives op hop).2.1 (he ▸ hid)
    · obtain ⟨op, -, hmem, -, hcop, -⟩ := hports rev hrev hen
      rw [hcop.robId]
      exact hnone op hmem

/-- **Runs of the whole are runs of the pipe**, and what they hold belongs to its instructions. -/
theorem Reachable.held (h : Reachable q) : q.pipe.Reachable ∧ q.Held := by
  induction h with
  | init => exact ⟨.init, held_init⟩
  | @cycle q inp r d _ hc ih =>
    obtain ⟨hrun, hq⟩ := ih
    have hnext : (q.act inp r d).pipe.Reachable := .cycle inp.pipe r d hrun (hq.pipe hc) trivial
    refine ⟨hnext, ?_⟩
    cases hfl : r.commit.feedback.flush with
    | true => exact Held.dropped hc hfl
    | false =>
      obtain ⟨g₀, hw⟩ := hrun.world.holds
      obtain ⟨g, hw'⟩ := hnext.world.holds
      obtain ⟨sent, entered, hp, hs, hb⟩ := hrun.cuts
      exact hq.stepped hc hw hw' hp
        (fun op hop hen hu => hq.csr_spares hc hw hp hs hb hrun.world.decoded hop hen hu) hfl

/-! ## Scripted runs -/

/-- One cycle that commit does not flush, if it does not abort and the stall of dispatch is the one
the input says. -/
def step (q : Execution) (inp : ExecutionInput) : Option Execution := do
  let r ← q.pipe.world.core.cycle inp.pipe.cycle
  let d ← q.pipe.dispatch.run (q.pipe.dispatchInput r)
  guard (inp.pipe.cycle.dispatchStall = q.pipe.dispatch.stall (q.pipe.dispatchInput r)
    ∧ r.commit.feedback.flush = false)
  return q.act inp r d

/-- The instructions of the ALU that leave their queue when all do. -/
def issuing (q : Execution) : List Flight :=
  q.pipe.world.flight.filter fun f => f.info.opUnit == .alu
    && decide (f.info.robId ∉ q.pipe.issued)
    && decide (f.info.robId ∈ q.pipe.leaving (Pipe.issues q.pipe))

/-- What the ALUs have to compute, as far as there are ports. -/
def computing (q : Execution) : List ReadregExecutePack :=
  (q.units.filter fun op => op.enable && op.opUnit == .alu).take 8

/-- A cycle in which the decoder offers `packs` to rename, all that is in an issue queue leaves it
for the ALUs, with zero for a register, and the ALUs compute what they have. -/
def computes (packs : List Fetch2DecodePack) (q : Execution) : ExecutionInput where
  pipe := { Pipe.issues q.pipe with
    cycle := { commit := { decodeRenameFifo := packs.map decode, executeCommitPort := q.ports } } }
  arrives := q.issuing.map fun f => readreg { f.info.toIssue with enable := f.info.enable && true } 0 0
  finishes := q.computing
  ports := q.computing.map aluCompute

/-- Without a branch and without a store nothing is squashed. -/
theorem quiet_spares {w : World} {inp : CycleInput} (h : w.core.cycle inp = some r)
    (hb : inp.bru = none) (hs : inp.sau = none) (id : Ptr) : r.spares id = true := by
  have hfb := (Core.cycle_eq_some h).feedback
  rw [CycleInput.bruFb, CycleInput.sauFb, hb, hs] at hfb
  have hbru : r.bru.flush = false := by
    rw [show r.bru = _ from congrArg Prod.fst hfb]
    cases r.commit.feedback.flush <;> rfl
  have hsau : r.sau.flush = false := by
    rw [show r.sau = _ from congrArg Prod.snd hfb]
    cases r.commit.feedback.flush <;> rfl
  simp [CycleResult.spares, FlushFeedback.squashes, FlushFeedback.squashesEqual, hbru, hsau]

theorem computes_flows {packs : List Fetch2DecodePack} (hq : q.Held)
    (hcore : q.pipe.world.core.cycle (computes packs q).pipe.cycle = some r)
    (hfl : r.commit.feedback.flush = false) : q.Flows (computes packs q) r := by
  have hspares := quiet_spares (w := q.pipe.world) hcore rfl rfl
  have harrives : ∀ op ∈ (computes packs q).arrives, ∃ f ∈ q.pipe.world.flight,
      f.info.Executes op ∧ op.robId = f.info.robId ∧ f.info.robId ∉ q.pipe.issued
        ∧ f.info.robId ∈ q.pipe.leaving (computes packs q).pipe := by
    intro op hop
    obtain ⟨f, hf, rfl⟩ := List.mem_map.mp hop
    obtain ⟨hmem, hcond⟩ := List.mem_filter.mp hf
    rw [Bool.and_eq_true, Bool.and_eq_true, beq_iff_eq, decide_eq_true_eq,
      decide_eq_true_eq] at hcond
    obtain ⟨⟨hu, hissued⟩, hleaves⟩ := hcond
    have hex : f.info.Executes (readreg { f.info.toIssue with
        enable := f.info.enable && true } 0 0) := .whole 0 0 true (by rw [hu]; decide)
    exact ⟨f, hmem, hex, hex.names.robId, hissued, hleaves⟩
  have hcomputing : ∀ op ∈ q.computing, op ∈ q.units ∧ op.enable = true ∧ op.opUnit = .alu := by
    intro op hop
    obtain ⟨hmem, hcond⟩ := List.mem_filter.mp (List.mem_of_mem_take hop)
    rw [Bool.and_eq_true, beq_iff_eq] at hcond
    exact ⟨hmem, hcond.1, hcond.2⟩
  have henable : ∀ op ∈ q.computing, (aluCompute op).enable = true := fun op hop =>
    (aluCompute_copied op).enable.trans (hcomputing op hop).2.1
  refine ⟨fun op hop => ?_, fun op hop _ _ _ => ?_, ?_, (fun op hop => by cases hop),
    fun op _ _ => hspares op.robId, fun op hop hu => ?_, fun op hop _ op' hop' => ?_,
    fun hc => ?_, ?_, fun rev hrev => ?_⟩
  · obtain ⟨f, hf, hex, hid, hissued, -⟩ := harrives op hop
    exact ⟨⟨f, hf, hex⟩, hid ▸ hissued, hspares _⟩
  · obtain ⟨f, -, -, hid, -, hleaves⟩ := harrives op hop
    exact hid ▸ hleaves
  · rw [show (computes packs q).finishes ++ (computes packs q).stays = q.computing from
      List.append_nil _]
    exact ((List.take_sublist _ _).trans List.filter_sublist).subperm
  · rw [(hcomputing op hop).2.2] at hu
    cases hu
  · obtain ⟨hmem, hen, hu⟩ := hcomputing op hop
    have hissued : op.robId ∈ q.pipe.issued := by
      refine hq.unitsIssued op hmem hen ?_ (by rw [hu]; decide)
      rw [ReadregExecutePack.final, hu]
      exact Bool.or_true _
    rw [show (computes packs q).stays ++ (computes packs q).arrives = (computes packs q).arrives
      from List.nil_append _] at hop'
    obtain ⟨f, -, -, hid, hno, -⟩ := harrives op' hop'
    intro he
    exact hno (hid ▸ he ▸ hissued)
  · rw [hfl] at hc
    cases hc
  · rw [show (computes packs q).ports.filter (fun rev => rev.enable)
      = q.computing.map aluCompute from List.filter_eq_self.mpr fun rev hrev => by
        obtain ⟨op, hop, rfl⟩ := List.mem_map.mp hrev
        exact henable op hop]
    rw [List.forall₂_map_right_iff]
    exact List.forall₂_same.mpr fun op hop => .alu (hcomputing op hop).2.2
  · have hlen : (computes packs q).ports.drop 8 = [] := by
      refine List.drop_eq_nil_iff.mpr ?_
      rw [show (computes packs q).ports = q.computing.map aluCompute from rfl, List.length_map]
      exact List.length_take_le _ _
    rw [hlen] at hrev
    cases hrev

/-- The state after a script. -/
def play : List (List Fetch2DecodePack) → Execution → Option Execution
  | [], q => some q
  | packs :: script, q => (q.step (computes packs q)).bind (play script)

/-- **A script is a run.** -/
theorem Reachable.play (script : List (List Fetch2DecodePack))
    (hpacks : ∀ packs ∈ script, ∀ p ∈ packs, p.FetchOk) {q q' : Execution} (hq : Reachable q)
    (h : play script q = some q') : Reachable q' := by
  induction script generalizing q with
  | nil =>
    cases h
    exact hq
  | cons packs script ih =>
    obtain ⟨q₁, h₁, h⟩ := Option.bind_eq_some_iff.mp h
    simp only [step, Option.bind_eq_bind, Option.bind_eq_some_iff] at h₁
    obtain ⟨r, hr, d, hd, _, hg, h₁⟩ := h₁
    obtain ⟨hstall, hfl⟩ : (computes packs q).pipe.cycle.dispatchStall
        = q.pipe.dispatch.stall (q.pipe.dispatchInput r) ∧ r.commit.feedback.flush = false := by
      simpa [guard] using hg
    cases h₁
    refine ih (fun p hp => hpacks p (List.mem_cons_of_mem _ hp)) (.cycle _ r d hq ?_) h
    refine ⟨fun p hp => ?_, rfl, by simp [computes], by simp [computes], by simp [computes],
      by simp [computes], hr, hd, hstall, computes_flows hq.held.2 hr hfl⟩
    obtain ⟨rev, hrev, rfl⟩ := List.mem_map.mp hp
    exact ⟨rev, hpacks packs (List.mem_cons_self ..) rev hrev, rfl⟩

end Execution

end DreamCore
