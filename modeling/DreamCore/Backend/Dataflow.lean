import DreamCore.Backend.Homes
import DreamCore.Backend.Operands
import DreamCore.Backend.Steering
import DreamCore.Pipeline.IntegerPipe
import Mathlib.Data.List.GetD

/-!
# The values instructions work on

Register read takes an operand from wherever it finds it: from a unit that computes it
in the same cycle, from a result that write-back is about to write, or from the
register file if the register is valid. What it finds belongs to the register and not
to the instruction, and the register may have had other owners.

Whatever it finds is what the register holds until the reader has retired: the
register stays allocated, and its owner writes it once. So the operands a unit works
on are still what the registers hold when the instruction retires.
-/

namespace DreamCore

open Ring

namespace Execution

variable {q : Execution} {inp : ExecutionInput} {r : CycleResult} {d : Dispatch} {g₀ g : Ghost}
  {x : Nat} {v : Word}

/-! ## Register read -/

/-- **What `integer_readreg` sees of a cycle.** A channel of the execution units is what its unit
leaves in its port, a channel of write-back what it writes. -/
def readInput (q : Execution) (inp : ExecutionInput) (r : CycleResult) : IntegerPipeInput where
  bru := r.bru
  sau := r.sau
  commitFlush := r.commit.feedback.flush
  execute j := DivUnit.feedback (inp.ports.getD j {})
  wb j :=
    if !r.commit.feedback.flush && wbTakes (inp.pipe.cycle.bruFb q.pipe.world.core)
        (inp.pipe.cycle.sauFb q.pipe.world.core) (q.ports.getD j {}) then
      DivUnit.feedback (q.ports.getD j {})
    else {}
  phyRegfile := q.pipe.world.core.phyRegfile

/-- **The operands of a cycle are read**, and no instruction is in two units. -/
structure Reads (q : Execution) (inp : ExecutionInput) (r : CycleResult) : Prop where
  integer : ∀ op ∈ inp.arrives, op.opUnit.isLsu = false →
    ∃ f ∈ q.pipe.world.flight, op = readPack (q.readInput inp r) f.info
  single : ∀ rev ∈ inp.ports.take 8, ∀ rev' ∈ inp.ports.take 8, rev.enable = true →
    rev'.enable = true → rev.robId = rev'.robId → rev = rev'

/-- **What a register holds**: what has been written to it since it was last given out, or what
write-back is about to write to it. -/
def Value (q : Execution) (x : Nat) (v : Word) : Prop :=
  (q.wrote x = true ∧ (q.pipe.world.core.phyRegfile x).data = v)
    ∨ ∃ rev ∈ q.ports.take 8, rev.writes = some v ∧ rev.rdPhy = x

/-- The pack is the instruction, with what its registers hold. -/
def Operands (q : Execution) (info : OpInfo) (op : ReadregExecutePack) : Prop :=
  ∃ v₁ v₂, op = readreg info v₁ v₂ ∧ (info.valid = true → info.hasException = false →
    (info.rs1NeedMap = true → q.Value info.rs1Phy v₁)
      ∧ (info.rs2NeedMap = true → q.Value info.rs2Phy v₂))

/-- The result is computed from what the registers of the instruction hold. -/
def Computed (q : Execution) (info : OpInfo) (rev : ExecuteWbPack) : Prop :=
  ∃ op, q.Operands info op ∧ op.Produces rev

/-- **The entry of an instruction and the register it writes** agree with its result. -/
structure Completed (q : Execution) (f : Flight) (rev : ExecuteWbPack) : Prop where
  computed : q.Computed f.info rev
  enable : rev.enable = true
  hasException : (q.pipe.world.core.entry f).hasException = false → rev.hasException = false
  bruNextPc : (q.pipe.world.core.entry f).bruNextPc = rev.bruNextPc
  value : ∀ v, rev.writes = some v →
    q.wrote f.info.rdPhy = true ∧ (q.pipe.world.core.phyRegfile f.info.rdPhy).data = v

/-- **What flows between the registers and the units** is what the registers hold. -/
structure Flowing (q : Execution) : Prop where
  /-- A register is written when its instruction is finished, and not before. -/
  written : ∀ f ∈ q.pipe.world.flight, f.info.allocates = true →
    q.wrote f.info.rdPhy = true → (q.pipe.world.core.entry f).finish = true
  single : ∀ rev ∈ q.ports.take 8, ∀ rev' ∈ q.ports.take 8, rev.enable = true →
    rev'.enable = true → rev.robId = rev'.robId → rev = rev'
  units : ∀ op ∈ q.units, op.enable = true → op.opUnit.isLsu = false →
    ∃ f ∈ q.pipe.world.flight, q.Operands f.info op
  ports : ∀ rev ∈ q.ports, rev.enable = true → rev.opUnit.isLsu = false →
    ∃ f ∈ q.pipe.world.flight, q.Computed f.info rev
  entries : ∀ f ∈ q.pipe.world.flight, f.info.opUnit.isLsu = false →
    (q.pipe.world.core.entry f).finish = true → ∃ rev, q.Completed f rev

theorem flowing_init : Execution.init.Flowing := by
  constructor <;> simp [Execution.init, Pipe.init, World.init]

/-! ## Results -/

theorem writes_eq_some {rev : ExecuteWbPack} : rev.writes = some v ↔ rev.enable = true
    ∧ rev.valid = true ∧ rev.hasException = false ∧ rev.needRename = true ∧ rev.rdValue = v := by
  unfold ExecuteWbPack.writes
  cases rev.enable <;> cases rev.valid <;> cases rev.hasException <;> cases rev.needRename <;> simp

/-- **Who a result is written for**: an instruction in flight, which has a destination. -/
theorem Held.writer (h : q.Held) {rev : ExecuteWbPack} (hrev : rev ∈ q.ports)
    (hw : rev.writes = some v) : ∃ f ∈ q.pipe.world.flight, f.info.allocates = true
      ∧ f.info.rdPhy = rev.rdPhy ∧ rev.robId = f.info.robId := by
  obtain ⟨hen, hvalid, -, hneed, -⟩ := writes_eq_some.mp hw
  obtain ⟨f, hf, op, hexec, hprod⟩ := h.ports rev hrev hen
  have hnames := hexec.names
  have hcop := hprod.copied hen
  refine ⟨f, hf, ?_, (hcop.rdPhy.trans hnames.rdPhy).symm, hcop.robId.trans hnames.robId⟩
  rw [OpInfo.allocates, ← hnames.valid, ← hnames.needRename, ← hcop.valid, ← hcop.needRename,
    hvalid, hneed]
  rfl

/-- A channel that is set carries what its port writes. -/
theorem feedback_enable {rev : ExecuteWbPack} (h : (DivUnit.feedback rev).enable = true) :
    rev.writes = some (DivUnit.feedback rev).value := by
  simp only [DivUnit.feedback, Bool.and_eq_true, Bool.not_eq_true'] at h
  obtain ⟨⟨⟨hen, hv⟩, hn⟩, hex⟩ := h
  exact writes_eq_some.mpr ⟨hen, hv, hex, hn, rfl⟩

/-- A port that is set is one of the eight. -/
theorem getD_mem {ports : List ExecuteWbPack} {j : Nat} (hj : j < 8)
    (h : (ports.getD j {}).enable = true) : ports.getD j {} ∈ ports.take 8 := by
  by_cases hlt : j < ports.length
  · rw [List.getD_eq_getElem _ _ hlt, List.mem_take_iff_getElem]
    exact ⟨j, by omega, rfl⟩
  · rw [List.getD_eq_default _ _ (by omega)] at h
    cases h

/-- **What register read finds** is what the register holds, before the cycle or after it. -/
theorem readSource_value (hok : q.pipe.world.RegsOk q.wrote) (hx : x < phyRegNum)
    (h : readSource (q.readInput inp r) x = (v, true)) :
    q.Value x v ∨ (q.act inp r d).Value x v := by
  unfold readSource at h
  dsimp only at h
  split at h
  · rename_i value hfound
    cases h
    obtain ⟨j, hj, hsome⟩ := List.exists_of_findSome?_eq_some hfound
    rw [List.mem_range] at hj
    split at hsome
    · rename_i hchannel
      obtain ⟨hen, hid⟩ := Bool.and_eq_true_iff.mp hchannel
      cases hsome
      have hwrites := feedback_enable hen
      refine .inr (.inr ⟨_, getD_mem hj (writes_eq_some.mp hwrites).1, hwrites, ?_⟩)
      exact beq_iff_eq.mp hid
    · split at hsome
      · rename_i hchannel
        obtain ⟨hen, hid⟩ := Bool.and_eq_true_iff.mp hchannel
        cases hsome
        unfold readInput at hen hid ⊢
        dsimp only at hen hid ⊢
        split at hen
        · rename_i htakes
          rw [if_pos htakes] at hid ⊢
          have hwrites := feedback_enable hen
          refine .inl (.inr ⟨_, getD_mem hj (writes_eq_some.mp hwrites).1, hwrites, ?_⟩)
          exact beq_iff_eq.mp hid
        · cases hen
      · cases hsome
  · obtain ⟨hdata, hvalid⟩ := Prod.ext_iff.mp h
    exact .inl (.inl ⟨hok.written x hx hvalid, hdata⟩)

/-! ## Who is carried over a cycle -/

/-- What stays in flight, and what is in front of it. -/
theorem survivor_split {f : Flight} (hf : f ∈ q.pipe.world.survivors r) :
    r.commit.feedback.flush = false ∧ r.bru.squashes f.info.robId = false
      ∧ ∃ l₁ l₂, q.pipe.world.flight = l₁ ++ f :: l₂ ∧ r.commit.retired.length ≤ l₁.length := by
  unfold World.survivors at hf
  cases hfl : r.commit.feedback.flush with
  | true =>
    rw [hfl, if_pos rfl] at hf
    cases hf
  | false =>
    rw [hfl, if_neg Bool.false_ne_true] at hf
    obtain ⟨hmem, hsq⟩ := List.mem_filter.mp hf
    obtain ⟨m, l₂, hdrop⟩ := List.append_of_mem hmem
    refine ⟨rfl, by simpa using hsq, q.pipe.world.flight.take r.commit.retired.length ++ m, l₂,
      ?_, ?_⟩
    · rw [List.append_assoc, ← hdrop, List.take_append_drop]
    · rw [List.length_append, List.length_take]
      have hpos := congrArg List.length hdrop
      rw [List.length_drop, List.length_append, List.length_cons] at hpos
      omega

/-- **What is finished by a unit is not squashed**, whatever the unit looks at. -/
theorem Reachable.spares_finishes (h : q.Reachable) (hc : q.Cycle inp r d)
    {op : ReadregExecutePack} (hop : op ∈ inp.finishes) (hen : op.enable = true) :
    r.spares op.robId = true := by
  obtain ⟨hrun, hq⟩ := h.held
  obtain ⟨g₀, hw⟩ := hrun.world.holds
  obtain ⟨sent, entered, hp, hs, hb⟩ := hrun.cuts
  by_cases hu : op.opUnit = .csr
  · exact hq.csr_spares hc hw hp hs hb hrun.world.decoded
      (hc.flows.kept.subset (List.mem_append_left _ hop)) hen hu
  · exact hc.flows.finishes op hop hu

/-- **What is in register read or in a unit**, and not squashed, is carried over the cycle. -/
theorem Reachable.carries (h : q.Reachable) (hc : q.Cycle inp r d)
    (hfl : r.commit.feedback.flush = false) {f : Flight} (hf : f ∈ q.pipe.world.flight) {id : Ptr}
    (hid : id = f.info.robId)
    (hheld : (∃ op ∈ q.units, op.robId = id) ∨ id ∉ q.pipe.issued)
    (hspares : r.spares id = true) :
    f ∈ q.pipe.world.survivors r ∧ f ∈ (q.pipe.world.act r).flight := by
  obtain ⟨hrun, hq⟩ := h.held
  obtain ⟨g₀, hw⟩ := hrun.world.holds
  obtain ⟨sent, entered, hp, -, -⟩ := hrun.cuts
  subst hid
  refine stays_inFlight hw (hq.pipe hc) hfl hf (fun hfin => ?_) hspares
  rcases hheld with ⟨op, hop, hid⟩ | hno
  · exact (hq.finished f hf hfin).1 op hop hid
  · exact hno (hp.finished f hf hfin)

/-! ## Values that stay -/

/-- **What a register that stays holds is written, or was, when the cycle is over.** -/
theorem Value.kept (h : q.Reachable) (hq : q.Flowing) (hc : q.Cycle inp r d)
    (hfl : r.commit.feedback.flush = false) (hs : q.pipe.world.Stays r x) (hv : q.Value x v) :
    (q.act inp r d).wrote x = true ∧ (r.next.phyRegfile x).data = v := by
  obtain ⟨hrun, hheld⟩ := h.held
  obtain ⟨g₀, hw⟩ := hrun.world.holds
  have hwr := hheld.writes hc hw hrun.world.decoded
  have hdata := cycle_data hc.core hs.released
  rcases hv with ⟨hwrote, hold⟩ | ⟨rev, hmem, hwrites, hrd⟩
  · refine ⟨wroteBack_of_kept hs.given (.inl hwrote), ?_⟩
    rcases hdata with ⟨rev, hrev, hrd, -⟩ | ⟨-, hsame⟩
    · -- its owner would have written it twice
      obtain ⟨f, hf, ha, hphy, -, hno⟩ := hwr.belongs rev hrev
      exact absurd (hq.written f hf ha (by rw [hphy, hrd]; exact hwrote)) hno
    · exact hsame.trans hold
  · obtain ⟨f, hf, ha, hphy, hid⟩ := hheld.writer (List.mem_of_mem_take hmem) hwrites
    obtain ⟨hen, -, hex, -, rfl⟩ := writes_eq_some.mp hwrites
    have hphy : f.info.rdPhy = x := hphy.trans hrd
    obtain ⟨hwritten, -, -⟩ := hwr.completes hfl rev
      (by rw [hc.ports]; exact List.mem_of_mem_take hmem) hen hex f hf (congrArg Ptr.id hid.symm) ha
      (hs.owner f hf ha hphy)
    refine ⟨wroteBack_of_kept hs.given (.inr ⟨rev, hwritten, f, hf, ha, hphy, hphy.trans hrd.symm,
      hid.symm⟩), ?_⟩
    rcases hdata with ⟨rev', hrev', hrd', hvalue⟩ | ⟨hno, -⟩
    · obtain ⟨f', hf', ha', hphy', hid', -⟩ := hwr.belongs rev' hrev'
      obtain ⟨-, hmem', hen', -⟩ := written_spares hw hc.core hrev'
      have hff := hw.dest_inj hf' hf ha' ha (hphy'.trans (hrd'.trans hphy.symm))
      rw [hc.ports] at hmem'
      rw [hvalue, hq.single rev' hmem' rev hmem hen' hen (by rw [← hid', hff, hid])]
    · exact absurd hrd (hno rev hwritten)

/-- The homes in front of an instruction that stays in flight, and its own destination, stay. -/
theorem Reachable.stays (h : q.Reachable) (hc : q.Cycle inp r d) {f : Flight}
    (hf : f ∈ q.pipe.world.survivors r) :
    (∀ rs phy, f.after.Found f.info rs phy → q.pipe.world.Stays r phy)
      ∧ (f.info.allocates = true → q.pipe.world.Stays r f.info.rdPhy) := by
  obtain ⟨hrun, hheld⟩ := h.held
  have hnext := (Reachable.cycle inp r d h hc).held.1
  obtain ⟨g₀, hw⟩ := hrun.world.holds
  obtain ⟨g, hw'⟩ := hnext.world.holds
  have hl := (hheld.pipe hc).legal.cycle
  obtain ⟨hfl, hsq, l₁, l₂, hsplit, hle⟩ := survivor_split hf
  have hold : ∀ f' ∈ l₁, r.bru.squashes f'.info.robId = false := fun f' hf' =>
    older_spared hw hl hc.core hsplit hf' hsq
  have hentry := hw.inv.entry (hw.flight.trans hsplit)
  refine ⟨fun rs phy hfound => ?_, fun ha => ?_⟩
  · rw [← hfound.home hw hrun.world.replaces (hw.flight.trans hsplit)]
    exact DreamCore.stays hw hl hc.core hw' hfl hsplit hle hold hfound.reg
  · have hdest : (tip g₀.base (l₁ ++ [f])).map f.info.rd = f.info.rdPhy := by
      rw [tip, Window.tip_snoc]
      unfold advance
      dsimp only
      rw [if_pos ha, Function.update_self]
    rw [← hdest]
    have hcut : q.pipe.world.flight = (l₁ ++ [f]) ++ l₂ := by
      rw [hsplit, List.append_assoc]
      rfl
    refine DreamCore.stays hw hl hc.core hw' hfl hcut ?_ ?_ (hentry.dest ha).1
    · rw [List.length_append]
      omega
    · intro f' hf'
      rcases List.mem_append.mp hf' with hf' | hf'
      · exact hold f' hf'
      · rw [List.mem_singleton.mp hf']
        exact hsq

/-- **The operands of an instruction that stays in flight** are still what its registers hold. -/
theorem Operands.kept (h : q.Reachable) (hq : q.Flowing) (hc : q.Cycle inp r d) {f : Flight}
    {op : ReadregExecutePack} (hf : f ∈ q.pipe.world.survivors r) (hop : q.Operands f.info op) :
    (q.act inp r d).Operands f.info op := by
  obtain ⟨v₁, v₂, hread, hvalues⟩ := hop
  have hfl := (survivor_split hf).1
  have hsource := h.held.1.world.sourced f (mem_of_survivors hf)
  have hstays := (h.stays hc hf).1
  refine ⟨v₁, v₂, hread, fun hv hx => ?_⟩
  obtain ⟨h₁, h₂⟩ := hvalues hv hx
  exact ⟨fun hn => .inl ((h₁ hn).kept h hq hc hfl (hstays _ _ (hsource.rs1 hn))),
    fun hn => .inl ((h₂ hn).kept h hq hc hfl (hstays _ _ (hsource.rs2 hn)))⟩

theorem Computed.kept (h : q.Reachable) (hq : q.Flowing) (hc : q.Cycle inp r d) {f : Flight}
    {rev : ExecuteWbPack} (hf : f ∈ q.pipe.world.survivors r) (hop : q.Computed f.info rev) :
    (q.act inp r d).Computed f.info rev := by
  obtain ⟨op, hop, hprod⟩ := hop
  exact ⟨op, hop.kept h hq hc hf, hprod⟩

/-- **What register read sends on** has what the registers hold after the cycle. -/
theorem readPack_operands (h : q.Reachable) (hq : q.Flowing) (hc : q.Cycle inp r d) {f : Flight}
    {op : ReadregExecutePack} (hf : f ∈ q.pipe.world.survivors r)
    (hop : op = readPack (q.readInput inp r) f.info) (hen : op.enable = true) :
    (q.act inp r d).Operands f.info op := by
  have hfl := (survivor_split hf).1
  have hsource := h.held.1.world.sourced f (mem_of_survivors hf)
  have hvalue : ∀ rs phy v, f.after.Found f.info rs phy →
      readSource (q.readInput inp r) phy = (v, true) → (q.act inp r d).Value phy v := by
    intro rs phy v hfound hv
    rcases readSource_value h.regsOk hfound.lt hv with hold | hnew
    · exact .inl (hold.kept h hq hc hfl ((h.stays hc hf).1 rs phy hfound))
    · exact hnew
  unfold readPack at hop
  dsimp only at hop
  split at hop
  · rw [hop] at hen
    cases hen
  · rename_i hcond
    refine ⟨_, _, hop, fun hv hx => ?_⟩
    rw [hv, hx] at hcond
    simp only [Bool.not_false, Bool.true_and, Bool.or_eq_true, Bool.and_eq_true,
      Bool.not_eq_true', not_or, not_and, Bool.not_eq_false] at hcond
    exact ⟨fun hn => hvalue _ _ _ (hsource.rs1 hn) (Prod.ext rfl (hcond.1 hn)),
      fun hn => hvalue _ _ _ (hsource.rs2 hn) (Prod.ext rfl (hcond.2 hn))⟩

/-! ## The entries -/

theorem Operands.toOpInfo {info : OpInfo} {op : ReadregExecutePack} (h : q.Operands info op) :
    op.toOpInfo = info := by
  obtain ⟨v₁, v₂, rfl, -⟩ := h
  exact readreg_toOpInfo ..

/-- A result that writes belongs to an instruction that has a destination. -/
theorem Computed.allocates {f : Flight} {rev : ExecuteWbPack} (h : q.Computed f.info rev)
    (hw : rev.writes = some v) : f.info.allocates = true ∧ rev.rdPhy = f.info.rdPhy := by
  obtain ⟨op, hop, hprod⟩ := h
  obtain ⟨hen, hv, -, hn, -⟩ := writes_eq_some.mp hw
  have hcop := hprod.copied hen
  have hinfo := hop.toOpInfo
  refine ⟨?_, hcop.rdPhy.trans (congrArg (·.rdPhy) hinfo)⟩
  rw [OpInfo.allocates, ← show op.valid = f.info.valid from congrArg (·.valid) hinfo,
    ← show op.needRename = f.info.needRename from congrArg (·.needRename) hinfo, ← hcop.valid,
    ← hcop.needRename, hv, hn]
  rfl

/-- A store has no destination. -/
theorem Reachable.unit_of_allocates (h : q.Reachable) {f : Flight} (hf : f ∈ q.pipe.world.flight)
    (ha : f.info.allocates = true) : f.info.opUnit ≠ .sdu := by
  intro hu
  obtain ⟨hrun, -⟩ := h.held
  obtain ⟨g₀, hw⟩ := hrun.world.holds
  obtain ⟨dec, -, hsend⟩ := hrun.world.decoded f hf
  obtain ⟨l₁, l₂, hsplit⟩ := List.append_of_mem hf
  have hshaped := (hw.inv.entry (hw.flight.trans hsplit)).shaped.store
  rw [hshaped] at ha
  · cases ha
  · rw [DecodeRenamePack.takesStoreBuffer, hsend.unit_valid (by rw [hu]; decide), hu]
    rfl

/-- **A result in a port, and its instruction.** Unless it is one part of a store, it is the last of
its instruction. -/
theorem Reachable.result (h : q.Reachable) {f : Flight} (hf : f ∈ q.pipe.world.flight)
    {rev : ExecuteWbPack} (hrev : rev ∈ q.ports) (hen : rev.enable = true)
    (hslot : rev.robId.id = f.info.robId.id) :
    rev.robId = f.info.robId ∧ rev.opUnit.isLsu = f.info.opUnit.isLsu
      ∧ (f.info.opUnit ≠ .sdu → rev.lastUop = true) := by
  obtain ⟨hrun, hheld⟩ := h.held
  obtain ⟨g₀, hw⟩ := hrun.world.holds
  obtain ⟨f', hf', op, hexec, hprod⟩ := hheld.ports rev hrev hen
  have hcop := hprod.copied hen
  have hid : rev.robId = f'.info.robId := hcop.robId.trans hexec.names.robId
  obtain rfl : f' = f := List.inj_on_of_nodup_map hw.slots_nodup hf' hf (by rw [← hid]; exact hslot)
  refine ⟨hid, ?_, fun hu => ?_⟩
  · rw [hcop.opUnit]
    exact hexec.operands.lsu
  · obtain ⟨dec, -, hsend⟩ := hrun.world.decoded f' hf'
    rw [hcop.lastUop, ← hsend.lastUop]
    cases hexec with
    | whole rs1Value rs2Value found _ =>
      rw [show (readreg _ rs1Value rs2Value).lastUop = _ from
        congrArg (·.lastUop) (readreg_toOpInfo ..)]
      unfold OpInfo.toIssue
      split <;> rfl
    | address _ _ _ hsdu => exact absurd hsdu hu
    | data _ _ _ hsdu => exact absurd hsdu hu

/-- A slot that has a result gets one. -/
theorem merged_result (cur : Core) {ports : List ExecuteWbPack} {rev : ExecuteWbPack}
    (hrev : rev ∈ ports) (hen : rev.enable = true) : ∃ rev' ∈ ports, rev'.enable = true
      ∧ rev'.robId.id = rev.robId.id ∧ cur.merged ports rev.robId.id
        = (cur.rob.buffer rev.robId.id).applyResult rev' := by
  have hmem : rev ∈ resultsAt ports rev.robId.id :=
    List.mem_filter.mpr ⟨hrev, by rw [hen, beq_self_eq_true]; rfl⟩
  obtain ⟨rev', hlast⟩ : ∃ rev', (resultsAt ports rev.robId.id).getLast? = some rev' :=
    ⟨_, List.getLast?_eq_some_getLast (List.ne_nil_of_mem hmem)⟩
  obtain ⟨hmem', hcond⟩ := List.mem_filter.mp (List.mem_of_getLast? hlast)
  rw [Bool.and_eq_true, beq_iff_eq] at hcond
  refine ⟨rev', hmem', hcond.1, hcond.2, ?_⟩
  rw [Core.merged_eq, hlast]
  rfl

/-- **What is in flight after a cycle**: it was there, and its entry has its results, or the cycle
has renamed it, and its entry is not finished. -/
theorem Reachable.entry_cases (h : q.Reachable) (hc : q.Cycle inp r d)
    (hfl : r.commit.feedback.flush = false) {f : Flight} (hf : f ∈ (q.pipe.world.act r).flight) :
    (f ∈ q.pipe.world.survivors r ∧ r.next.entry f
        = q.pipe.world.core.merged q.ports f.info.robId.id) ∨
      (r.next.entry f).finish = false ∧ ∃ t ∈ r.rename.turns, f.info = t.1 := by
  obtain ⟨hrun, hheld⟩ := h.held
  obtain ⟨g₀, hw⟩ := hrun.world.holds
  obtain ⟨g, hw'⟩ := (Reachable.cycle inp r d h hc).held.1.world.holds
  have hl := (hheld.pipe hc).legal.cycle
  have hflight := act_flight hw hl hc.core hfl
  have hmem := hf
  rw [hflight] at hmem
  rcases List.mem_append.mp hmem with hsurv | hnew
  · refine .inl ⟨hsurv, ?_⟩
    cases cycle_survives hw hl hc.core hw' f hf with
    | kept _ _ hcell => exact hc.ports ▸ hcell
    | renamed t ht hinfo hfresh =>
      -- its slot would be that of an instruction that stays
      have hnd : ((q.pipe.world.act r).flight.map fun f => f.info.robId.id).Nodup :=
        hw'.slots_nodup
      rw [hflight, List.map_append, List.nodup_append] at hnd
      have hslot : f.info.robId.id ∈ (flights (q.pipe.world.released
          ++ releasedIds r.commit.retired).length r.rename.turns).map fun f => f.info.robId.id :=
        List.mem_map.mpr ⟨_, List.mem_map_of_mem ht, congrArg (·.robId.id) hinfo.symm⟩
      exact absurd rfl (hnd.2.2 _ (List.mem_map_of_mem hsurv) _ hslot)
  · refine .inr ⟨(cycle_fresh hw hl hc.core hw' f hnew hf).finish, ?_⟩
    obtain ⟨t, ht, rfl⟩ := List.mem_map.mp hnew
    exact ⟨t, ht, rfl⟩

/-! ## A cycle -/

/-- What a register that has been written after a cycle was written by. -/
theorem wroteBack_cases {w : World} {cin : CycleInput} {wrote : Nat → Bool}
    (h : w.wroteBack cin r wrote x = true) :
    (r.rename.turns.any fun t => t.1.allocates && t.1.rdPhy == x) = false
      ∧ (wrote x = true ∨ ∃ rev ∈ cin.written w.core r, rev.rdPhy = x ∧ ∃ f ∈ w.flight,
        f.info.allocates = true ∧ f.info.rdPhy = x ∧ f.info.robId = rev.robId) := by
  unfold World.wroteBack at h
  split at h
  · cases h
  · rename_i hno
    refine ⟨Bool.eq_false_iff.mpr hno, (Bool.or_eq_true_iff.mp h).imp id fun h => ?_⟩
    obtain ⟨rev, hrev, hcond⟩ := List.any_eq_true.mp h
    obtain ⟨hrd, hany⟩ := Bool.and_eq_true_iff.mp hcond
    obtain ⟨f, hf, hf'⟩ := List.any_eq_true.mp hany
    simp only [Bool.and_eq_true, beq_iff_eq] at hf'
    exact ⟨rev, hrev, beq_iff_eq.mp hrd, f, hf, hf'.1.1, hf'.1.2, hf'.2⟩

/-- **An instruction in flight whose register has been written** has not been renamed in the cycle:
it was written before, or the cycle has written its result. -/
theorem Reachable.wrote_cases (h : q.Reachable) (hc : q.Cycle inp r d)
    (hfl : r.commit.feedback.flush = false) {f : Flight} (hf : f ∈ (q.pipe.world.act r).flight)
    (ha : f.info.allocates = true) (hwrote : (q.act inp r d).wrote f.info.rdPhy = true) :
    f ∈ q.pipe.world.survivors r
      ∧ r.next.entry f = q.pipe.world.core.merged q.ports f.info.robId.id
      ∧ (q.wrote f.info.rdPhy = true ∨ ∃ rev ∈ inp.pipe.cycle.written q.pipe.world.core r,
        rev.rdPhy = f.info.rdPhy ∧ rev.robId = f.info.robId) := by
  obtain ⟨g₀, hw⟩ := h.held.1.world.holds
  obtain ⟨hno, hwrote⟩ := wroteBack_cases hwrote
  rcases h.entry_cases hc hfl hf with ⟨hsurv, hentry⟩ | ⟨-, t, ht, hinfo⟩
  · refine ⟨hsurv, hentry, hwrote.imp id fun ⟨rev, hrev, hrd, f', hf', ha', hphy, hid⟩ => ?_⟩
    obtain rfl := hw.dest_inj hf' (mem_of_survivors hsurv) ha' ha hphy
    exact ⟨rev, hrev, hrd, hid.symm⟩
  · have hgiven : (r.rename.turns.any fun t => t.1.allocates && t.1.rdPhy == f.info.rdPhy)
        = true := List.any_eq_true.mpr ⟨t, ht, by rw [← hinfo, ha, beq_self_eq_true]; rfl⟩
    rw [hno] at hgiven
    cases hgiven

/-- A finished entry stays finished, and one that gets a result is, unless it is that of a store. -/
theorem Reachable.merged_finish (h : q.Reachable) {f : Flight} (hf : f ∈ q.pipe.world.flight)
    (hu : f.info.opUnit ≠ .sdu) (hfin : (q.pipe.world.core.entry f).finish = true
      ∨ ∃ rev ∈ q.ports, rev.enable = true ∧ rev.robId = f.info.robId) :
    (q.pipe.world.core.merged q.ports f.info.robId.id).finish = true := by
  rcases hfin with hfin | ⟨rev, hrev, hen, hid⟩
  · rcases q.pipe.world.core.merged_cases q.ports f.info.robId.id with hm | ⟨rev, -, -, -, hm⟩
    · rw [hm]
      exact hfin
    · rw [hm, RobItem.applyResult]
      exact Bool.or_eq_true_iff.mpr (.inl hfin)
  · obtain ⟨rev', hrev', hen', hslot, hm⟩ := merged_result q.pipe.world.core hrev hen
    rw [hid] at hslot hm
    rw [hm, RobItem.applyResult, (h.result hf hrev' hen' hslot).2.2 hu]
    exact Bool.or_true _

/-- **What is completed stays so.** -/
theorem Completed.kept (h : q.Reachable) (hq : q.Flowing) (hc : q.Cycle inp r d) {f : Flight}
    {rev : ExecuteWbPack} (hf : f ∈ q.pipe.world.survivors r)
    (hentry : r.next.entry f = q.pipe.world.core.entry f) (hcomp : q.Completed f rev) :
    (q.act inp r d).Completed f rev where
  computed := hcomp.computed.kept h hq hc hf
  enable := hcomp.enable
  hasException hex := hcomp.hasException (hentry ▸ hex)
  bruNextPc := (congrArg (·.bruNextPc) hentry).trans hcomp.bruNextPc
  value v hv := by
    have hs := (h.stays hc hf).2 (hcomp.computed.allocates hv).1
    exact Value.kept h hq hc (survivor_split hf).1 hs (.inl (hcomp.value v hv))

/-- **A result that is merged completes its instruction.** -/
theorem Flowing.completes (h : q.Reachable) (hq : q.Flowing) (hc : q.Cycle inp r d) {f : Flight}
    {rev : ExecuteWbPack} (hf : f ∈ q.pipe.world.survivors r)
    (hu : f.info.opUnit.isLsu = false) (hrev : rev ∈ q.ports) (hen : rev.enable = true)
    (hslot : rev.robId.id = f.info.robId.id)
    (hentry : r.next.entry f = (q.pipe.world.core.entry f).applyResult rev) :
    (q.act inp r d).Completed f rev := by
  obtain ⟨g₀, hw⟩ := h.held.1.world.holds
  have hmem := mem_of_survivors hf
  obtain ⟨hid, hunit, -⟩ := h.result hmem hrev hen hslot
  obtain ⟨f', hf', hcomp⟩ := hq.ports rev hrev hen (hunit.trans hu)
  have hff : f' = f := by
    obtain ⟨op, hop, hprod⟩ := hcomp
    have hrob : op.robId = f'.info.robId := congrArg (·.robId) hop.toOpInfo
    refine List.inj_on_of_nodup_map hw.slots_nodup hf' hmem ?_
    rw [← hrob, ← (hprod.copied hen).robId, hid]
  subst hff
  -- the units of the stores have no port to the register file
  have hinner : rev ∈ q.ports.take 8 := by
    rw [← List.take_append_drop 8 q.ports] at hrev
    rcases List.mem_append.mp hrev with hrev | hrev
    · exact hrev
    · have hpart := h.held.2.outer rev hrev hen
      have hlsu : rev.opUnit.isLsu = true := by
        revert hpart
        cases rev.opUnit <;> decide
      rw [hunit, hu] at hlsu
      cases hlsu
  refine ⟨hcomp.kept h hq hc hf, hen, fun hex => ?_, ?_, fun v hv => ?_⟩
  · rw [show (q.act inp r d).pipe.world.core.entry f' = r.next.entry f' from rfl, hentry,
      RobItem.applyResult] at hex
    dsimp only at hex
    split at hex
    · cases hex
    · exact hex
  · exact congrArg (·.bruNextPc) hentry
  · obtain ⟨ha, hrd⟩ := hcomp.allocates hv
    exact Value.kept h hq hc (survivor_split hf).1 ((h.stays hc hf).2 ha)
      (.inr ⟨rev, hinner, hv, hrd⟩)

/-- A cycle that commit flushes leaves nothing that flows. -/
theorem flowing_dropped (hc : q.Cycle inp r d) (hfl : r.commit.feedback.flush = true)
    (hread : q.Reads inp r) : (q.act inp r d).Flowing := by
  obtain ⟨harrives, hfinishes, hstays⟩ := hc.flows.dropped hfl
  have hflight : (q.act inp r d).pipe.world.flight = [] := by
    simp [act, Pipe.act, World.act, World.flightAfter, hfl]
  refine ⟨?_, hread.single, ?_, fun rev hrev hen => ?_, ?_⟩
  · rw [hflight]
    simp
  · rw [act, harrives, hstays]
    simp
  · obtain ⟨op, hop, -⟩ := hc.flows.source hrev hen
    rw [hfinishes] at hop
    cases hop
  · rw [hflight]
    simp

/-- **A cycle keeps what flows what the registers hold.** -/
theorem Flowing.step (hq : q.Flowing) (h : q.Reachable) (hc : q.Cycle inp r d)
    (hread : q.Reads inp r) : (q.act inp r d).Flowing := by
  cases hfl : r.commit.feedback.flush with
  | true => exact flowing_dropped hc hfl hread
  | false =>
    obtain ⟨hrun, hheld⟩ := h.held
    obtain ⟨g₀, hw⟩ := hrun.world.holds
    have hstays : ∀ op ∈ inp.stays, op ∈ q.units := fun op hop =>
      hc.flows.kept.subset (List.mem_append_right _ hop)
    refine ⟨fun f hf ha hwrote => ?_, hread.single, fun op hop hen hu => ?_,
      fun rev hrev hen hu => ?_, fun f hf hu hfin => ?_⟩
    · obtain ⟨hsurv, hentry, hwrote⟩ := h.wrote_cases hc hfl hf ha hwrote
      have hmem := mem_of_survivors hsurv
      rw [show (q.act inp r d).pipe.world.core.entry f = r.next.entry f from rfl, hentry]
      refine h.merged_finish hmem (h.unit_of_allocates hmem ha) ?_
      rcases hwrote with hold | ⟨rev, hrev, -, hid⟩
      · exact .inl (hq.written f hmem ha hold)
      · obtain ⟨-, hport, hen, -⟩ := written_spares hw hc.core hrev
        rw [hc.ports] at hport
        exact .inr ⟨rev, List.mem_of_mem_take hport, hen, hid⟩
    · rcases List.mem_append.mp hop with hop | hop
      · obtain ⟨f, hf, hops⟩ := hq.units op (hstays op hop) hen hu
        obtain ⟨hsurv, hnext⟩ := h.carries hc hfl hf (congrArg (·.robId) hops.toOpInfo)
          (.inl ⟨op, hstays op hop, rfl⟩) (hc.flows.stays op hop)
        exact ⟨f, hnext, hops.kept h hq hc hsurv⟩
      · obtain ⟨f, hf, hpack⟩ := hread.integer op hop hu
        have hinfo : op.robId = f.info.robId := by
          rw [hpack]
          unfold readPack
          dsimp only
          split <;> exact congrArg (·.robId) (readreg_toOpInfo ..)
        obtain ⟨-, hissued, hspares⟩ := hc.flows.arrives op hop
        obtain ⟨hsurv, hnext⟩ := h.carries hc hfl hf hinfo (.inr hissued) hspares
        exact ⟨f, hnext, readPack_operands h hq hc hsurv hpack hen⟩
    · obtain ⟨op, hop, hmem, hprod⟩ := hc.flows.source hrev hen
      have hcop := hprod.copied hen
      obtain ⟨f, hf, hops⟩ := hq.units op hmem (hcop.enable ▸ hen) (hcop.opUnit ▸ hu)
      obtain ⟨hsurv, hnext⟩ := h.carries hc hfl hf (congrArg (·.robId) hops.toOpInfo)
        (.inl ⟨op, hmem, rfl⟩) (h.spares_finishes hc hop (hcop.enable ▸ hen))
      exact ⟨f, hnext, op, hops.kept h hq hc hsurv, hprod⟩
    · rcases h.entry_cases hc hfl hf with ⟨hsurv, hentry⟩ | ⟨hno, -⟩
      · rcases q.pipe.world.core.merged_cases q.ports f.info.robId.id with
          hm | ⟨rev, hrev, hen, hslot, hm⟩
        · rw [hm] at hentry
          rw [show (q.act inp r d).pipe.world.core.entry f = r.next.entry f from rfl,
            hentry] at hfin
          obtain ⟨rev, hcomp⟩ := hq.entries f (mem_of_survivors hsurv) hu hfin
          exact ⟨rev, hcomp.kept h hq hc hsurv hentry⟩
        · exact ⟨rev, hq.completes h hc hsurv hu hrev hen hslot (hentry.trans hm)⟩
      · rw [show (q.act inp r d).pipe.world.core.entry f = r.next.entry f from rfl, hno] at hfin
        cases hfin

end Execution

end DreamCore
