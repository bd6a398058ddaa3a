import DreamCore.Backend.Execution
import DreamCore.Backend.Merging
import DreamCore.Backend.Steering
import DreamCore.Machine.History

/-!
# The processor

`Machine` leaves open what the units are given and when, `Execution` what fetch
delivers. Here the two are one run: rename takes what decode has made of the words
fetch has handed on, the branch unit works on what register read has sent it, and its
flush is the one fetch goes by.

Next to it goes the log of the run: the instructions that have retired, each with the
entry commit found for it, and the traps that were taken between them.
-/

namespace DreamCore

open Ring

/-- What a run leaves behind it. -/
inductive LogEntry where
  | retired (info : OpInfo) (item : RobItem)
  /-- What a trap has saved for its handler, and where the handler is. -/
  | trap (mepc handler : Word)

/-- Fetch, decode, and the rest of the core, with the history of the run. -/
structure Processor where
  execution : Execution
  fetch : FrontWorld
  /-- `fetch2_decode_fifo` and `decode_rename_fifo`, as in `Machine`. -/
  fetch2Decode : List FetchOpInfo
  decodeRename : List FetchOpInfo
  /-- What has happened, oldest first. -/
  log : List LogEntry

/-- **A pack that a unit works on is the instruction as it was renamed**, unless it is one of the
two parts of a store. -/
theorem OpInfo.Executes.toIssue {info : OpInfo} {op : ReadregExecutePack} (h : info.Executes op)
    (hu : op.opUnit.isStorePart = false) (hen : op.enable = true) :
    op.toOpInfo = info.toIssue := by
  cases h with
  | whole rs1Value rs2Value found _ =>
    rw [readreg_toOpInfo] at hen ⊢
    have hfound : (info.enable && found) = true := hen
    rw [hfound, ← (Bool.and_eq_true_iff.mp hfound).1, ← OpInfo.toIssue_enable]
  | address rs1Value rs2Value last _ =>
    rw [readreg_toOpInfo] at hu
    cases hu
  | data rs1Value rs2Value last hsdu =>
    rw [readreg_toOpInfo] at hu
    have hpart : info.toIssue.opUnit.isStorePart = false := hu
    rw [OpInfo.toIssue_opUnit, hsdu] at hpart
    cases hpart

/-- **What the branch unit can make of the instruction**, with the operands register read has sent
it and the CSRs as they are then. -/
def OpInfo.Resolves (info : OpInfo) (jump : Bool) (nextPc : Word) : Prop :=
  ∃ csr op, info.Executes op ∧ op.enable = true ∧ jump = (bruCompute csr op).bruJump
    ∧ nextPc = (bruCompute csr op).bruNextPc

/-- A result of the branch unit in a port. -/
structure BranchResult (f : Flight) (rev : ExecuteWbPack) : Prop where
  unit : f.info.opUnit = .bru
  robId : rev.robId = f.info.robId
  lastUop : rev.lastUop = true
  resolves : f.info.Resolves rev.bruJump rev.bruNextPc

/-- **Every result of the branch unit in a port** is one of a branch in flight. -/
theorem Execution.Reachable.branchResult {q : Execution} (h : q.Reachable) {rev : ExecuteWbPack}
    (hrev : rev ∈ q.ports) (hen : rev.enable = true) (hu : rev.opUnit = .bru) :
    ∃ f ∈ q.pipe.world.flight, BranchResult f rev := by
  obtain ⟨hrun, hq⟩ := h.held
  obtain ⟨f, hf, op, hex, hprod⟩ := hq.ports rev hrev hen
  have hcop := hprod.copied hen
  have hres := hex.result hprod hen
  have hopu : op.opUnit = .bru := hcop.opUnit.symm.trans hu
  have hope : op.enable = true := hcop.enable.symm.trans hen
  have hissue := hex.toIssue (by rw [hopu]; rfl) hope
  obtain ⟨dec, -, hsend⟩ := hrun.world.decoded f hf
  refine ⟨f, hf, hres.bru.mp hu, hres.robId, ?_, ?_⟩
  · have hlast : op.lastUop = f.info.toIssue.lastUop := congrArg (·.lastUop) hissue
    rw [hcop.lastUop, hlast, ← hsend.lastUop]
    unfold OpInfo.toIssue
    split <;> rfl
  · cases hprod with
    | bru csr _ => exact ⟨csr, op, hex, hope, rfl, rfl⟩
    | alu h | csr _ h | div h | mul h | lu _ _ _ _ _ h _ | sau h | sdu h =>
      rw [hopu] at h
      cases h

namespace Processor

/-- The processor after reset. -/
def init : Processor := ⟨.init, .init, [], [], []⟩

/-- What a cycle brings from outside, and what the units do in it. -/
structure Input where
  execution : ExecutionInput := {}
  instructionValue : Option (Fin fetchWidth → Word) := none
  requests : List SyncRequest := []

/-- The core and its instructions in flight. -/
abbrev world (p : Processor) : World := p.execution.pipe.world

/-- What the core is given. -/
abbrev Input.cycle (inp : Input) : CycleInput := inp.execution.pipe.cycle

/-- `bru_commit_port`: the port of the branch unit among those of all. -/
def bruPort (p : Processor) : Option ExecuteWbPack :=
  p.execution.ports.find? fun rev => rev.enable && rev.opUnit == .bru

/-- The processor without its units. -/
def machine (p : Processor) : Machine :=
  ⟨p.fetch, p.fetch2Decode, p.decodeRename, p.world, p.bruPort⟩

/-- What the processor without its units is given. -/
def Input.machine (inp : Input) : Machine.Input := ⟨inp.cycle, inp.instructionValue, inp.requests⟩

/-- What happens in a cycle that comes to `r`. -/
def events (p : Processor) (r : CycleResult) : List LogEntry :=
  ((p.world.flight.take r.commit.retired.length).map fun f =>
      .retired f.info (p.world.core.entry f))
    ++ if r.commit.feedback.hasException then
        [.trap (r.commit.new.csrFile.readSys csrMepc) r.commit.feedback.exceptionPc]
      else []

/-- After a cycle that has come to `r` in the core, to `d` in dispatch and to `f` in fetch. -/
def act (p : Processor) (inp : Input) (r : CycleResult) (d : Dispatch) (f : FrontResult) :
    Processor :=
  let m := p.machine.act inp.machine r f
  { execution := p.execution.act inp.execution r d
    fetch := m.fetch
    fetch2Decode := m.fetch2Decode
    decodeRename := m.decodeRename
    log := p.log ++ p.events r }

/-- One cycle of everything. -/
structure Cycle (p : Processor) (inp : Input) (r : CycleResult) (d : Dispatch) (f : FrontResult) :
    Prop where
  execution : p.execution.Cycle inp.execution r d
  fifo : inp.cycle.commit.decodeRenameFifo = p.decodeRename.map FetchOpInfo.decoded
  fetch : p.fetch.front.cycle (p.machine.frontInput inp.machine r) = some f
  /-- The branch unit leaves in its port what it has computed. -/
  branch : (inp.execution.ports.filter fun rev => rev.enable && rev.opUnit == .bru)
    = (p.machine.bruPortAfter inp.cycle r).toList

/-- **The processors that runs from reset reach.** -/
inductive Reachable : Processor → Prop where
  | init : Reachable Processor.init
  | cycle {p : Processor} (inp : Input) (r : CycleResult) (d : Dispatch) (f : FrontResult) :
      Reachable p → p.Cycle inp r d f → Reachable (p.act inp r d f)

variable {p : Processor} {inp : Input} {r : CycleResult} {d : Dispatch} {f : FrontResult}

/-! ## The two halves -/

theorem Reachable.execution (h : Reachable p) : Execution.Reachable p.execution := by
  induction h with
  | init => exact .init
  | cycle inp r d f _ hc ih => exact .cycle _ r d ih hc.execution

/-- What the branch unit leaves is what the next cycle finds. -/
theorem Cycle.bruPort (hc : p.Cycle inp r d f) :
    (p.act inp r d f).bruPort = p.machine.bruPortAfter inp.cycle r := by
  show inp.execution.ports.find? _ = _
  rw [← List.head?_filter, hc.branch, Option.head?_toList]

theorem Cycle.machine_act (hc : p.Cycle inp r d f) :
    (p.act inp r d f).machine = p.machine.act inp.machine r f := by
  show Machine.mk _ _ _ _ (p.act inp r d f).bruPort = Machine.mk _ _ _ _ _
  rw [hc.bruPort]
  rfl

/-- The result of the branch unit is the only one of its kind. -/
theorem Reachable.single (h : Reachable p) :
    (p.execution.ports.filter fun rev => rev.enable && rev.opUnit == .bru) = p.bruPort.toList := by
  cases h with
  | init => rfl
  | cycle inp r d f _ hc => rw [hc.bruPort, ← hc.branch]; rfl

/-- **What the units do is what the processor without them may be asked to do.** -/
theorem Cycle.legal (hp : Reachable p) (hc : p.Cycle inp r d f) : p.machine.Legal inp.machine := by
  have hq := hp.execution.held.2
  refine ⟨(hq.pipe hc.execution).legal.cycle, hc.fifo, fun rev hrev => ?_,
    fun rev hrev hen hu => ?_⟩
  · obtain ⟨hmem, hu, hen⟩ := hc.execution.bru rev hrev
    obtain ⟨fl, hfl, hex⟩ := hq.units rev hmem
    refine ⟨fl, hfl, ?_⟩
    exact hex.toIssue (by rw [hu]; rfl) hen
  · have hmem : rev ∈ p.execution.ports := hc.execution.ports ▸ hrev
    have hone : rev ∈ p.bruPort.toList := by
      rw [← hp.single]
      exact List.mem_filter.mpr ⟨hmem, by rw [hen, hu]; rfl⟩
    exact Option.mem_toList.mp hone

/-- **The processor without its units sees a run of its own.** -/
theorem Reachable.machine (h : Reachable p) : MachineReachable p.machine := by
  induction h with
  | init => exact .init
  | @cycle p inp r d f hp hc ih =>
    rw [hc.machine_act]
    exact .cycle inp.machine r f ih (hc.legal hp) hc.execution.core hc.fetch

/-! ## Where a branch has turned out to go -/

/-- **Where an instruction goes on**, once it has been executed: its entry says so, or the port of
the branch unit. -/
def wentTo (p : Processor) (fl : Flight) : Option Word :=
  if (p.world.core.entry fl).finish then some (p.world.core.entry fl).bruNextPc
  else (p.bruPort.filter fun rev => rev.robId == fl.info.robId).map (·.bruNextPc)

/-- A cell of an instruction that stays gets the results of the cycle. -/
theorem survivor_cell {w : World} {inp : CycleInput} {r : CycleResult} {g₀ g : Ghost}
    (hw : w.Holds g₀) (hl : inp.Legal w) (h : w.core.cycle inp = some r)
    (hnext : (w.act r).Holds g) (hfl : r.commit.feedback.flush = false) {fl : Flight}
    (hmem : fl ∈ w.survivors r) : fl ∈ (w.act r).flight ∧
      r.next.entry fl = w.core.merged inp.commit.executeCommitPort fl.info.robId.id := by
  have hflight := act_flight hw hl h hfl
  have hnd := hnext.slots_nodup
  rw [hflight, List.map_append, List.nodup_append] at hnd
  refine ⟨hflight ▸ List.mem_append_left _ hmem, ?_⟩
  cases cycle_outcome hw hl h with
  | dropped hd _ _ =>
    rw [hd] at hfl
    cases hfl
  | stepped k s _ _ _ _ _ hmerged hwrites =>
    rw [Core.entry, hwrites.kept _ fun t ht he => ?_, hmerged]
    have hslot : t.1.robId.id ∈ (flights (w.released ++ releasedIds r.commit.retired).length
        r.rename.turns).map fun f => f.info.robId.id :=
      List.mem_map.mpr ⟨_, List.mem_map_of_mem ht, rfl⟩
    exact hnd.2.2 _ (List.mem_map_of_mem hmem) _ hslot he.symm

/-- **The results for a branch** are what the port of the branch unit has for it. -/
theorem Reachable.resultsAt (hp : Reachable p) {fl : Flight} (hfl : fl ∈ p.world.flight)
    (hu : fl.info.opUnit = .bru) : resultsAt p.execution.ports fl.info.robId.id
      = (p.bruPort.filter fun rev => rev.robId == fl.info.robId).toList := by
  obtain ⟨g, hw⟩ := hp.execution.held.1.world.holds
  have hq := hp.execution.held.2
  rw [Option.toList_filter, ← hp.single, List.filter_filter, DreamCore.resultsAt]
  refine List.filter_congr fun rev hrev => ?_
  cases hen : rev.enable with
  | false => simp
  | true =>
    obtain ⟨f, hf, op, hex, hprod⟩ := hq.ports rev hrev hen
    have hres := hex.result hprod hen
    rw [Bool.true_and, Bool.true_and, Bool.eq_iff_iff, Bool.and_eq_true, beq_iff_eq, beq_iff_eq,
      beq_iff_eq]
    constructor
    · intro hid
      have hff : f = fl := List.inj_on_of_nodup_map hw.slots_nodup hf hfl (by
        rw [← hres.robId]
        exact hid)
      subst hff
      exact ⟨hres.robId, hres.bru.mpr hu⟩
    · rintro ⟨hid, -⟩
      rw [hid]

/-- Where the branch unit is given nothing it leaves nothing. -/
theorem bruPortAfter_none {m : Machine} {inp : CycleInput} {r : CycleResult} (h : inp.bru = none) :
    m.bruPortAfter inp r = none := by
  unfold Machine.bruPortAfter
  rw [h]
  cases r.commit.feedback.flush <;> rfl

/-- The port of the branch unit after a cycle that commit does not flush. -/
theorem Cycle.bruPort_eq (hp : Reachable p) (hc : p.Cycle inp r d f)
    (hfl : r.commit.feedback.flush = false) :
    (p.act inp r d f).bruPort = inp.cycle.bru.map (bruCompute p.world.core.csrFile) := by
  obtain ⟨g, hw⟩ := hp.execution.held.1.world.holds
  obtain ⟨hsau, -⟩ := (Core.cycle_eq_some hc.execution.core).feedbacks hw
  rw [hc.bruPort]
  cases hbru : inp.cycle.bru with
  | none => exact bruPortAfter_none hbru
  | some rev =>
    have hquiet : r.sau.squashesEqual rev.robId = false := by
      rw [FlushFeedback.squashesEqual, hsau]
      rfl
    unfold Machine.bruPortAfter
    rw [hfl, hbru]
    dsimp only
    rw [hquiet]
    rfl

/-- **The entry of a branch that stays** gets what the port of the branch unit has for it. -/
theorem Cycle.entry_kept (hp : Reachable p) (hc : p.Cycle inp r d f)
    (hfl : r.commit.feedback.flush = false) {fl : Flight} (hmem : fl ∈ p.world.survivors r)
    (hu : fl.info.opUnit = .bru) : (p.act inp r d f).world.core.entry fl
      = (p.bruPort.filter fun rev => rev.robId == fl.info.robId).elim (p.world.core.entry fl)
        (p.world.core.entry fl).applyResult := by
  have hq := hp.execution.held
  obtain ⟨g₀, hw⟩ := hq.1.world.holds
  obtain ⟨g, hw'⟩ := (Reachable.cycle inp r d f hp hc).execution.held.1.world.holds
  have hcell := (survivor_cell hw (hq.2.pipe hc.execution).legal.cycle hc.execution.core hw' hfl
    hmem).2
  rw [Core.merged_eq, hc.execution.ports, hp.resultsAt (mem_of_survivors hmem) hu] at hcell
  refine hcell.trans ?_
  cases p.bruPort.filter _ <;> rfl

/-- **Where a branch that stays has turned out to go**: where it was known to, or where the branch
unit sends it in this cycle. -/
theorem Cycle.wentTo_kept (hp : Reachable p) (hc : p.Cycle inp r d f)
    (hfl : r.commit.feedback.flush = false) {fl : Flight} (hmem : fl ∈ p.world.survivors r)
    (hu : fl.info.opUnit = .bru) : (p.act inp r d f).wentTo fl
      = (p.wentTo fl).or ((inp.cycle.bru.filter fun rev => rev.robId == fl.info.robId).map
        fun rev => (bruCompute p.world.core.csrFile rev).bruNextPc) := by
  have hq := hp.execution.held.2
  have hold := mem_of_survivors hmem
  have hport : ((p.act inp r d f).bruPort.filter fun rev => rev.robId == fl.info.robId).map
        (·.bruNextPc)
      = (inp.cycle.bru.filter fun rev => rev.robId == fl.info.robId).map
        fun rev => (bruCompute p.world.core.csrFile rev).bruNextPc := by
    rw [hc.bruPort_eq hp hfl]
    cases inp.cycle.bru with
    | none => rfl
    | some rev =>
      rw [Option.map_some, Option.filter_some, Option.filter_some,
        (bruCompute_copied p.world.core.csrFile rev).robId]
      split <;> rfl
  rw [wentTo, hc.entry_kept hp hfl hmem hu, hport, wentTo]
  cases hfin : (p.world.core.entry fl).finish with
  | true =>
    -- a finished entry gets no more results
    have hnone : (p.bruPort.filter fun rev => rev.robId == fl.info.robId) = none := by
      rw [Option.filter_eq_none_iff]
      intro rev hrev hid
      have hmem : rev ∈ p.bruPort.toList := Option.mem_toList.mpr hrev
      rw [← hp.single, List.mem_filter, Bool.and_eq_true] at hmem
      exact (hq.finished fl hold hfin).2 rev hmem.1 hmem.2.1 (beq_iff_eq.mp hid)
    rw [hnone, Option.elim_none, hfin, if_pos rfl]
    rfl
  | false =>
    cases hres : p.bruPort.filter fun rev => rev.robId == fl.info.robId with
    | none =>
      rw [Option.elim_none, hfin, if_neg Bool.false_ne_true, if_neg Bool.false_ne_true]
      rfl
    | some rev =>
      have hmem : rev ∈ p.bruPort.toList :=
        Option.mem_toList.mpr (Option.filter_eq_some_iff.mp hres).1
      rw [← hp.single, List.mem_filter, Bool.and_eq_true, beq_iff_eq] at hmem
      obtain ⟨f', -, hb⟩ := hp.execution.branchResult hmem.1 hmem.2.1 hmem.2.2
      have hlast : ((p.world.core.entry fl).applyResult rev).finish = true := by
        rw [RobItem.applyResult, hb.lastUop]
        exact Bool.or_true _
      rw [Option.elim_some, hlast, if_pos rfl, if_neg Bool.false_ne_true]
      rfl

/-! ## What the entries say -/

/-- **The entry of an instruction keeps its `pc`.** -/
theorem Reachable.entry_pc (hp : Reachable p) :
    ∀ fl ∈ p.world.flight, (p.world.core.entry fl).pc = fl.info.pc := by
  induction hp with
  | init => exact fun fl hfl => by cases hfl
  | @cycle p inp r d f hp hc ih =>
    have hq := hp.execution.held
    obtain ⟨g₀, hw⟩ := hq.1.world.holds
    obtain ⟨g, hw'⟩ := (Reachable.cycle inp r d f hp hc).execution.held.1.world.holds
    exact entries_step (P := fun info item => item.pc = info.pc) hw
      (hq.2.pipe hc.execution).legal.cycle hc.execution.core hw'
      (fun info rev before after old new hsend => (congrArg DecodeRenamePack.pc hsend).symm)
      (fun fl _ rev _ _ _ h => h) ih

/-- **The outcome in the entry of a branch** is one the branch unit has computed for it. -/
theorem Reachable.resolved (hp : Reachable p) :
    ∀ fl ∈ p.world.flight, fl.info.opUnit = .bru → (p.world.core.entry fl).finish = true →
      fl.info.Resolves (p.world.core.entry fl).bruJump (p.world.core.entry fl).bruNextPc := by
  induction hp with
  | init => exact fun fl hfl => by cases hfl
  | @cycle p inp r d f hp hc ih =>
    have hq := hp.execution.held
    obtain ⟨g₀, hw⟩ := hq.1.world.holds
    obtain ⟨g, hw'⟩ := (Reachable.cycle inp r d f hp hc).execution.held.1.world.holds
    intro fl hfl hu hfin
    cases cycle_survives hw (hq.2.pipe hc.execution).legal.cycle hc.execution.core hw' fl hfl with
    | renamed t ht hinfo hfresh =>
      have hno := hfresh.finish
      rw [show r.next.rob.buffer fl.info.robId.id = (p.act inp r d f).world.core.entry fl from rfl,
        hfin] at hno
      cases hno
    | kept hmem _ hcell =>
      rw [Core.merged_eq, hc.execution.ports, hp.resultsAt hmem hu] at hcell
      have hentry : (p.act inp r d f).world.core.entry fl = _ := hcell
      rw [hentry] at hfin ⊢
      cases hres : p.bruPort.filter fun rev => rev.robId == fl.info.robId with
      | none =>
        rw [hres] at hfin
        exact ih fl hmem hu hfin
      | some rev =>
        obtain ⟨hport, hid⟩ := Option.filter_eq_some_iff.mp hres
        have hmemp := Option.mem_toList.mpr hport
        rw [← hp.single, List.mem_filter, Bool.and_eq_true, beq_iff_eq] at hmemp
        obtain ⟨f', hf', hb⟩ := hp.execution.branchResult hmemp.1 hmemp.2.1 hmemp.2.2
        have hff : f' = fl := List.inj_on_of_nodup_map hw.slots_nodup hf' hmem (by
          rw [← hb.robId, beq_iff_eq.mp hid])
        subst hff
        exact hb.resolves

/-! ## What the branch unit is given -/

/-- **The branch the branch unit works on** is in flight, as it was renamed, and has no outcome
yet. -/
structure Resolving (p : Processor) (rev : ReadregExecutePack) (fl : Flight) : Prop where
  flight : fl ∈ p.world.flight
  unit : fl.info.opUnit = .bru
  operation : rev.toOpInfo = fl.info
  enable : rev.enable = true
  finish : (p.world.core.entry fl).finish = false
  wentTo : p.wentTo fl = none

theorem Cycle.resolving (hp : Reachable p) (hc : p.Cycle inp r d f) {rev : ReadregExecutePack}
    (hrev : inp.cycle.bru = some rev) : ∃ fl, p.Resolving rev fl := by
  have hq := hp.execution.held.2
  obtain ⟨hmem, hu, hen⟩ := hc.execution.bru rev hrev
  obtain ⟨fl, hfl, hex⟩ := hq.units rev hmem
  have hissue := hex.toIssue (by rw [hu]; rfl) hen
  have hid : rev.robId = fl.info.robId := hex.names.robId
  have hbru : fl.info.opUnit = .bru := (hex.unit_iff (by decide) (by decide)).mp hu
  have hfin : (p.world.core.entry fl).finish = false := by
    rw [Bool.eq_false_iff]
    intro hfin
    exact (hq.finished fl hfl hfin).1 rev hmem hid
  refine ⟨fl, hfl, hbru, ?_, hen, hfin, ?_⟩
  · rw [hissue, OpInfo.toIssue, if_neg (by rw [hbru]; decide)]
  · -- a result in the port would be the last of the branch
    rw [Processor.wentTo, hfin, if_neg Bool.false_ne_true, Option.map_eq_none_iff,
      Option.filter_eq_none_iff]
    intro rev' hrev' hsame
    have hport := Option.mem_toList.mpr hrev'
    rw [← hp.single, List.mem_filter, Bool.and_eq_true, beq_iff_eq] at hport
    obtain ⟨f', -, hb⟩ := hp.execution.branchResult hport.1 hport.2.1 hport.2.2
    refine hq.last rev' hport.1 hport.2.1 hb.lastUop rev hmem ?_
    rw [hid, beq_iff_eq.mp hsame]

theorem bruCompute_hasException (csr : CsrFile) (rev : ReadregExecutePack) :
    (bruCompute csr rev).hasException = rev.hasException := by
  unfold bruCompute
  dsimp only
  split <;> split <;> (try unfold bruOutcome) <;> (try split) <;> rfl

/-- A branch that does not jump goes on behind itself. -/
theorem bruCompute_inline {csr : CsrFile} {rev : ReadregExecutePack}
    (h : (bruCompute csr rev).bruJump = false) : (bruCompute csr rev).bruNextPc = rev.pc + 4 := by
  have hsend : ∀ send : ExecuteWbPack,
      (if send.bruJump then send else { send with bruNextPc := rev.pc + 4 }).bruJump = false →
      (if send.bruJump then send else { send with bruNextPc := rev.pc + 4 }).bruNextPc
        = rev.pc + 4 := by
    intro send hj
    cases hjump : send.bruJump with
    | true =>
      rw [hjump, if_pos rfl, hjump] at hj
      cases hj
    | false => rfl
  unfold bruCompute at h ⊢
  exact hsend _ h

/-! ## Scripted runs -/

end Processor

/-- One cycle of a script: what the bus delivers, the interrupt lines, whether the units do nothing,
and whether dispatch stalls. -/
structure Beat where
  words : Option (Fin fetchWidth → Word) := none
  lines : InterruptLines := {}
  rests : Bool := false
  stall : Bool := false

/-- What a beat brings to the core, with what decode and the ports have for it. -/
def Beat.cycle (b : Beat) (fifo : List DecodeRenamePack) (ports : List ExecuteWbPack) :
    CycleInput where
  commit := { lines := b.lines, decodeRenameFifo := fifo, executeCommitPort := ports }
  dispatchStall := b.stall

/-- The integer units, but for that of the branches. -/
def OpUnit.calculates : OpUnit → Bool
  | .alu | .csr | .div | .mul => true
  | _ => false

/-- What the unit of a pack makes of it. -/
def calculated (bank : CsrBank) (op : ReadregExecutePack) : ExecuteWbPack :=
  match op.opUnit with
  | .csr => csrCompute bank op
  | .div => divCompute op
  | .mul => mulCompute op
  | _ => aluCompute op

theorem calculated_produces (bank : CsrBank) {op : ReadregExecutePack}
    (h : op.opUnit.calculates = true) : op.Produces (calculated bank op) := by
  unfold calculated
  cases hu : op.opUnit with
  | alu => exact .alu hu
  | csr => exact .csr bank hu
  | div => exact .div hu
  | mul => exact .mul hu
  | bru | lu | sau | sdu =>
    rw [hu] at h
    cases h

/-- A result of these units copies the pack, enabled or not. -/
theorem calculated_copied (bank : CsrBank) {op : ReadregExecutePack}
    (h : op.opUnit.calculates = true) : op.Copied (calculated bank op) := by
  unfold calculated
  cases hu : op.opUnit with
  | alu => exact aluCompute_copied op
  | csr => exact csrCompute_copied bank op
  | div => exact divCompute_copied op
  | mul => exact mulCompute_copied op
  | bru | lu | sau | sdu =>
    rw [hu] at h
    cases h

/-- What a script lets leave the issue queues, and the operands it is sent with. -/
structure Reading where
  ready : OpInfo → Bool := fun _ => true
  operands : OpInfo → Word × Word := fun _ => (0, 0)

namespace Execution

variable {q : Execution} {r : CycleResult}

/-- All that is ready leaves its queue. -/
def picks (q : Execution) (reading : Reading) : PipeInput where
  choice lsu :=
    { select := fun i => reading.ready ((q.pipe.stage lsu).item i)
      confirm := fun i => reading.ready ((q.pipe.stage lsu).item i) }

/-- The instructions of these units that leave their queue. -/
def picked (q : Execution) (reading : Reading) : List Flight :=
  q.pipe.world.flight.filter fun f => f.info.opUnit.calculates
    && decide (f.info.robId ∉ q.pipe.issued)
    && decide (f.info.robId ∈ q.pipe.leaving (q.picks reading))

/-- What these units have to work on, as far as there are ports. -/
def working (q : Execution) : List ReadregExecutePack :=
  (q.units.filter fun op => op.enable && op.opUnit.calculates).take 8

/-- What they make of it. -/
def worked (q : Execution) : List ExecuteWbPack :=
  q.working.map (calculated ⟨q.pipe.world.core.csrFile, {}⟩)

/-- A beat in which these units compute what they have. -/
def works (b : Beat) (fifo : List DecodeRenamePack) (reading : Reading) (q : Execution) :
    ExecutionInput where
  pipe := { q.picks reading with
    cycle := b.cycle fifo q.ports }
  arrives := (q.picked reading).map fun f =>
    readreg { f.info.toIssue with enable := f.info.enable && true }
      (reading.operands f.info).1 (reading.operands f.info).2
  finishes := q.working
  ports := q.worked

theorem mem_working {op : ReadregExecutePack} (h : op ∈ q.working) :
    op ∈ q.units ∧ op.enable = true ∧ op.opUnit.calculates = true := by
  obtain ⟨hmem, hcond⟩ := List.mem_filter.mp (List.mem_of_mem_take h)
  exact ⟨hmem, (Bool.and_eq_true_iff.mp hcond).1, (Bool.and_eq_true_iff.mp hcond).2⟩

theorem worked_enabled : q.worked.filter (fun rev => rev.enable) = q.worked := by
  rw [List.filter_eq_self]
  intro rev hrev
  obtain ⟨op, hop, rfl⟩ := List.mem_map.mp hrev
  obtain ⟨-, hen, hu⟩ := mem_working hop
  exact (calculated_copied _ hu).enable.trans hen

theorem worked_unit {rev : ExecuteWbPack} (h : rev ∈ q.worked) : rev.opUnit.calculates = true := by
  obtain ⟨op, hop, rfl⟩ := List.mem_map.mp h
  obtain ⟨-, -, hu⟩ := mem_working hop
  rwa [(calculated_copied _ hu).opUnit]

/-- **These units do as the units of a run may.** -/
theorem works_flows {b : Beat} {fifo : List DecodeRenamePack} {reading : Reading} (hq : q.Held)
    (hcore : q.pipe.world.core.cycle (works b fifo reading q).pipe.cycle = some r)
    (hfl : r.commit.feedback.flush = false) : q.Flows (works b fifo reading q) r := by
  have hspares := quiet_spares (w := q.pipe.world) hcore rfl rfl
  have harrives : ∀ op ∈ (works b fifo reading q).arrives, ∃ f ∈ q.pipe.world.flight,
      f.info.Executes op ∧ op.robId = f.info.robId ∧ f.info.robId ∉ q.pipe.issued
        ∧ f.info.robId ∈ q.pipe.leaving (works b fifo reading q).pipe := by
    intro op hop
    obtain ⟨f, hf, rfl⟩ := List.mem_map.mp hop
    obtain ⟨hmem, hcond⟩ := List.mem_filter.mp hf
    rw [Bool.and_eq_true, Bool.and_eq_true, decide_eq_true_eq, decide_eq_true_eq] at hcond
    obtain ⟨⟨hu, hissued⟩, hleaves⟩ := hcond
    have hex : f.info.Executes (readreg { f.info.toIssue with
        enable := f.info.enable && true } (reading.operands f.info).1
          (reading.operands f.info).2) := by
      refine .whole _ _ true fun he => ?_
      rw [he] at hu
      cases hu
    exact ⟨f, hmem, hex, hex.names.robId, hissued, hleaves⟩
  have hunit : ∀ op ∈ q.working, op.opUnit ≠ .lu ∧ op.final = true := by
    intro op hop
    obtain ⟨-, -, hu⟩ := mem_working hop
    refine ⟨fun he => ?_, ?_⟩
    · rw [he] at hu
      cases hu
    · have hpart : op.opUnit.isStorePart = false := by
        revert hu
        cases op.opUnit <;> decide
      rw [ReadregExecutePack.final, hpart]
      exact Bool.or_true _
  refine ⟨fun op hop => ?_, fun op hop _ _ _ => ?_, ?_, (fun op hop => by cases hop),
    fun op _ _ => hspares op.robId, fun op hop hu => absurd hu (hunit op hop).1,
    fun op hop _ op' hop' => ?_, fun hc => ?_, ?_, fun rev hrev => ?_⟩
  · obtain ⟨f, hf, hex, hid, hissued, -⟩ := harrives op hop
    exact ⟨⟨f, hf, hex⟩, hid ▸ hissued, hspares _⟩
  · obtain ⟨f, -, -, hid, -, hleaves⟩ := harrives op hop
    exact hid ▸ hleaves
  · rw [show (works b fifo reading q).finishes ++ (works b fifo reading q).stays = q.working from
      List.append_nil _]
    exact ((List.take_sublist _ _).trans List.filter_sublist).subperm
  · -- what is computed has issued before
    obtain ⟨hmem, hen, -⟩ := mem_working hop
    have hissued := hq.unitsIssued op hmem hen (hunit op hop).2 (hunit op hop).1
    obtain ⟨f, -, -, hid, hno, -⟩ := harrives op' hop'
    intro he
    exact hno (hid ▸ he ▸ hissued)
  · rw [hfl] at hc
    cases hc
  · rw [show (works b fifo reading q).ports = q.worked from rfl, worked_enabled, worked,
      List.forall₂_map_right_iff]
    exact List.forall₂_same.mpr fun op hop => calculated_produces _ (mem_working hop).2.2
  · have hlen : (works b fifo reading q).ports.drop 8 = [] := by
      refine List.drop_eq_nil_iff.mpr ?_
      rw [show (works b fifo reading q).ports = q.worked from rfl, worked, List.length_map]
      exact List.length_take_le _ _
    rw [hlen] at hrev
    cases hrev

end Execution

namespace Processor

/-- What a beat brings into the processor. -/
def beat (b : Beat) (reading : Reading) (p : Processor) : Input where
  execution :=
    if b.rests then
      { pipe := { cycle := b.cycle (p.decodeRename.map FetchOpInfo.decoded) p.execution.ports } }
    else Execution.works b (p.decodeRename.map FetchOpInfo.decoded) reading p.execution
  instructionValue := b.words

/-- One cycle, if it does not abort and the stall of dispatch is the one the input says; commit may
only flush where the units do nothing. -/
def step (p : Processor) (rests : Bool) (inp : Input) : Option Processor := do
  let r ← p.world.core.cycle inp.cycle
  let d ← p.execution.pipe.dispatch.run (p.execution.pipe.dispatchInput r)
  let f ← p.fetch.front.cycle (p.machine.frontInput inp.machine r)
  guard (inp.cycle.dispatchStall
      = p.execution.pipe.dispatch.stall (p.execution.pipe.dispatchInput r)
    ∧ (rests = false → r.commit.feedback.flush = false))
  return p.act inp r d f

/-- The processor after a script. -/
def play (reading : Processor → Reading) : List Beat → Processor → Option Processor
  | [], p => some p
  | b :: script, p => (p.step b.rests (p.beat b (reading p))).bind (play reading script)

/-- **A beat is a cycle**, of what has been decoded and of what the units make of it. -/
theorem Reachable.beat {p p' : Processor} {b : Beat} {reading : Reading} (hp : Reachable p)
    (h : p.step b.rests (p.beat b reading) = some p') :
    ∃ r d f, p.Cycle (p.beat b reading) r d f ∧ p' = p.act (p.beat b reading) r d f := by
  have hpacks : ∀ q ∈ p.decodeRename.map FetchOpInfo.decoded,
      ∃ rev : Fetch2DecodePack, rev.FetchOk ∧ q = decode rev := hp.machine.decoded
  simp only [step, Option.bind_eq_bind, Option.bind_eq_some_iff] at h
  obtain ⟨r, hr, d, hd, f, hf, _, hg, h⟩ := h
  obtain ⟨hstall, hfl⟩ := by simpa [guard] using hg
  cases h
  refine ⟨r, d, f, ?_, rfl⟩
  have hbru : (p.beat b reading).cycle.bru = none := by
    unfold Processor.beat
    cases b.rests <;> rfl
  have hnone := congrArg Option.toList (bruPortAfter_none (m := p.machine) (r := r) hbru)
  unfold Processor.beat at hr hf hstall hnone ⊢
  cases hb : b.rests with
  | true =>
    rw [hb] at hr hf hstall hfl hnone
    refine ⟨⟨hpacks, rfl, ?_, ?_, ?_, ?_, hr, hd, hstall, ?_⟩, rfl, hf, hnone.symm⟩
    case refine_5 =>
      exact ⟨by simp, by simp, List.nil_subperm, by simp, by simp, by simp, by simp, by simp, .nil,
        by simp⟩
    all_goals simp [Beat.cycle]
  | false =>
    rw [hb] at hr hf hstall hfl hnone
    refine ⟨⟨hpacks, rfl, ?_, ?_, ?_, ?_, hr, hd, hstall,
      Execution.works_flows hp.execution.held.2 hr (hfl rfl)⟩, rfl, hf, ?_⟩
    case refine_5 =>
      refine (List.filter_eq_nil_iff.mpr fun rev hrev => ?_).trans hnone.symm
      have hu := Execution.worked_unit hrev
      cases hb : rev.opUnit == OpUnit.bru with
      | false => simp
      | true =>
        rw [beq_iff_eq.mp hb] at hu
        cases hu
    all_goals simp [Execution.works, Beat.cycle]

/-- **A script is a run.** -/
theorem Reachable.play {reading : Processor → Reading} (script : List Beat) {p p' : Processor}
    (hp : Reachable p) (h : play reading script p = some p') : Reachable p' := by
  induction script generalizing p with
  | nil =>
    cases h
    exact hp
  | cons b script ih =>
    obtain ⟨p₁, h₁, h⟩ := Option.bind_eq_some_iff.mp h
    obtain ⟨r, d, f, hc, rfl⟩ := hp.beat h₁
    exact ih (.cycle _ r d f hp hc) h

/-- Nothing is waited for, and registers read as zero. -/
def blindly (_ : Processor) : Reading := {}

/-- `addi x1, x0, 5`, and behind it words that are no instructions. -/
def addThenIllegal (i : Fin fetchWidth) : Word := if i.val = 0 then 0x00500093 else 0

/-- They are fetched; the addition retires, and the first of the others is taken as a trap. -/
def trapScript : List Beat :=
  { words := some addThenIllegal } :: List.replicate 7 ({} : Beat)
    ++ [{ rests := true }, { rests := true }]

def trapTaken : Processor := (play blindly trapScript init).getD init

theorem trapTaken_reachable : Reachable trapTaken := by
  obtain ⟨p, hp⟩ : ∃ p, play blindly trapScript init = some p :=
    Option.isSome_iff_exists.mp (by decide +kernel)
  rw [trapTaken, hp, Option.getD_some]
  exact Reachable.play _ .init hp

end Processor

end DreamCore
