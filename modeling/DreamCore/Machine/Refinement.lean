import DreamCore.Backend.Recovery
import DreamCore.Isa.Lockstep
import DreamCore.Machine.Image

/-!
# The processor and the ISA model

`main.cpp` runs the ISA model next to the processor: for every instruction that has
retired it compares the program counters and runs one instruction of the model, and
at the end of the cycle it compares the registers, which for the processor are those
`retire_rat` maps.

The instructions of the log are taken one by one here as well. In between the
registers are where the window has them at that point, and hold what they hold when
the cycle begins: nothing an older instruction has mapped is written any more once
that has finished. Where an instruction is computed from its operands, the ISA model
does the same from the same registers.
-/

namespace DreamCore

open Ring

/-! ## The registers -/

instance (a : Nat) : Decidable (IsReg a) := inferInstanceAs (Decidable (_ ∧ _))

/-- **The registers** where `m` has them. -/
def Core.regsAt (cur : Core) (m : Nat → Nat) : Isa.ArchRegfile where
  read a := if IsReg a then (cur.phyRegfile (m a)).data else 0
  zero := if_neg fun h => absurd h.1 (Nat.lt_irrefl 0)

/-- A register as `main.cpp` reads it: `customer_get_phy_id`, and `read`. -/
def Core.gpr (cur : Core) (a : Nat) : Option Word :=
  (cur.retireRat.customerGetPhyId a).join.map fun phyId => (cur.phyRegfile phyId).data

theorem Isa.ArchRegfile.ext {regs regs' : Isa.ArchRegfile} (h : ∀ a, regs.read a = regs'.read a) :
    regs = regs' := by
  cases regs
  cases regs'
  congr
  exact funext h

theorem gpr_eq_none {cur : Core} {a : Nat} (ha : ¬ IsReg a) : cur.gpr a = none := by
  have hguard : ¬ (0 < a ∧ a < archRegNum) := ha
  simp [Core.gpr, RatTable.customerGetPhyId, RatTable.producerGetPhyId, guard, hguard]

/-- The registers `main.cpp` reads, as those of the ISA model. -/
def Core.gprs (cur : Core) : Isa.ArchRegfile where
  read a := (cur.gpr a).getD 0
  zero := by rw [gpr_eq_none fun h => absurd h.1 (Nat.lt_irrefl 0), Option.getD_none]

theorem Represents.gpr {cur : Core} {m : Nat → Nat} {a : Nat} (h : Represents cur.retireRat m)
    (ha : IsReg a) : cur.gpr a = some (cur.phyRegfile (m a)).data := by
  have hlookup : cur.retireRat.customerGetPhyId a = some (some (m a)) := h.lookup_eq ha
  rw [Core.gpr, hlookup]
  rfl

/-- **They are where `retire_rat` has them.** -/
theorem Represents.gprs {cur : Core} {m : Nat → Nat} (h : Represents cur.retireRat m) :
    cur.gprs = cur.regsAt m := by
  refine Isa.ArchRegfile.ext fun a => ?_
  unfold Core.gprs Core.regsAt
  dsimp only
  by_cases ha : IsReg a
  · rw [h.gpr ha, if_pos ha]
    rfl
  · rw [gpr_eq_none ha, if_neg ha]
    rfl

/-- Moving a register writes it with what its new home holds. -/
theorem Core.regsAt_update (cur : Core) (m : Nat → Nat) {a : Nat} (x : Nat) (ha : IsReg a) :
    cur.regsAt (Function.update m a x) = (cur.regsAt m).write a (cur.phyRegfile x).data := by
  have hne : a ≠ 0 := Nat.pos_iff_ne_zero.mp ha.1
  refine Isa.ArchRegfile.ext fun b => ?_
  unfold Isa.ArchRegfile.write Core.regsAt
  rw [dif_neg hne]
  dsimp only
  by_cases hb : b = a
  · rw [hb, Function.update_self, Function.update_self, if_pos ha]
  · rw [Function.update_of_ne hb, Function.update_of_ne hb]

/-- Reading a register. -/
theorem Core.read_regsAt (cur : Core) (m : Nat → Nat) {a : Nat} (ha : IsReg a) :
    (cur.regsAt m).read a = (cur.phyRegfile (m a)).data := if_pos ha

/-! ## The log for the ISA model -/

/-- **What an entry of the log does to the registers**: what the ISA model does, if the instruction
is computed from its operands. Any other writes its destination at most. -/
def LogEntry.Writes (regs : Isa.ArchRegfile) (e : LogEntry) (regs' : Isa.ArchRegfile) : Prop :=
  match e with
  | .trap _ _ => regs' = regs
  | .retired info _ =>
      if info.computes then
        info.hasException = false ∧ ∀ m : Isa.Model, m.pc = info.pc → m.archRegfile = regs →
          m.read info.pc 4 = some info.value →
            m.run = some { m with
              pc := e.next
              archRegfile := regs' }
      else ∃ v, regs' = if info.allocates then regs.write info.rd v else regs

/-! ## One instruction -/

/-- **What rename has sent on** is the decoded instruction, renamed. -/
theorem OpInfo.Sends.renamed {info : OpInfo} {p : DecodeRenamePack} (h : info.Sends p) :
    p.renamed info = info := by
  have hpack : { p with branchPredictorInfoPack := info.branchPredictorInfoPack }
      = info.toDecodeRenamePack := by
    rw [h]
  unfold DecodeRenamePack.renamed
  rw [hpack]

/-- **A result without an exception** is one of an instruction that was fetched and decoded without
one. -/
theorem integerExecute_valid {rev : ReadregExecutePack} {send : ExecuteWbPack} {csr : CsrBank}
    (hsend : integerExecute csr rev = some send)
    (hunit : rev.opUnit ≠ .alu → (rev.valid && !rev.hasException) = true)
    (hen : rev.enable = true) (hok : send.hasException = false) :
    rev.valid = true ∧ rev.hasException = false := by
  by_cases hu : rev.opUnit = .alu
  · unfold integerExecute at hsend
    rw [hu] at hsend
    cases hsend
    unfold aluCompute at hok
    cases hx : rev.hasException with
    | true =>
      rw [hen, hx] at hok
      exact absurd (hok.symm.trans hx) Bool.false_ne_true
    | false =>
      cases hv : rev.valid with
      | true => exact ⟨rfl, rfl⟩
      | false =>
        rw [hen, hx, hv] at hok
        cases hok
  · have hvalid := hunit hu
    rw [Bool.and_eq_true, Bool.not_eq_true'] at hvalid
    exact hvalid

namespace Execution

variable {q : Execution} {g : Ghost}

/-- **What a finished window has written** is what its homes hold. -/
theorem Value.read (h : q.Reachable) (hw : q.pipe.world.Holds g) {l m : List Flight}
    (hflight : q.pipe.world.flight = l ++ m)
    (hfin : ∀ f ∈ l, (q.pipe.world.core.entry f).finish = true) {a : Nat} (ha : IsReg a) {v : Word}
    (hv : q.Value ((tip g.base l).map a) v) :
    (q.pipe.world.core.regsAt (tip g.base l).map).read a = v := by
  rw [Core.read_regsAt _ _ ha]
  rcases hv with ⟨-, hdata⟩ | ⟨rev, hrev, hwrites, hrd⟩
  · exact hdata
  · -- whoever is about to write has not finished
    have hport := List.mem_of_mem_take hrev
    obtain ⟨f, hf, ha', hphy, hid⟩ := h.held.2.writer hport hwrites
    have hmem := hw.owner_mem hflight ha hf ha' (hphy.trans hrd)
    have hen := (writes_eq_some.mp hwrites).1
    exact absurd hid ((h.held.2.finished f hf (hfin f hmem)).2 rev hport hen)

/-- **What a completed instruction does to the registers**, if there was no exception. -/
theorem Completed.after {f : Flight} {rev : ExecuteWbPack} (h : q.Completed f rev)
    (hok : rev.hasException = false) (hrd : rev.rd = f.info.rd) (regs : Isa.ArchRegfile) :
    regs.after rev
      = if f.info.allocates then
          regs.write f.info.rd (q.pipe.world.core.phyRegfile f.info.rdPhy).data
        else regs := by
  obtain ⟨op, hop, hprod⟩ := h.computed
  have hcop := hprod.copied h.enable
  have hinfo := hop.toOpInfo
  unfold Isa.ArchRegfile.after
  cases ha : f.info.allocates with
  | true =>
    rw [OpInfo.allocates, Bool.and_eq_true, ← hinfo] at ha
    have hwrites : rev.writes = some rev.rdValue := writes_eq_some.mpr
      ⟨h.enable, hcop.valid.trans ha.1, hok, hcop.needRename.trans ha.2, rfl⟩
    rw [hwrites, (h.value _ hwrites).2, hrd]
    rfl
  | false =>
    cases hwrites : rev.writes with
    | none => rfl
    | some v =>
      rw [(h.computed.allocates hwrites).1] at ha
      cases ha

end Execution

/-- The unit that has made a result of an instruction that computes. -/
theorem produces_computed {rev : ReadregExecutePack} {send : ExecuteWbPack}
    (h : rev.Produces send) (hc : rev.computes = true) (csr : CsrBank) :
    integerExecute csr rev = some send := by
  have hany : ∀ csr', integerExecute csr' rev = some send → integerExecute csr rev = some send :=
    fun csr' h' => (integerExecute_csr hc csr csr').trans h'
  unfold DecodeRenamePack.computes at hc
  cases h with
  | alu hu | div hu | mul hu => simp [integerExecute, hu]
  | bru csr' hu => exact hany ⟨csr', {}⟩ (by simp [integerExecute, hu])
  | csr _ hu | sau hu | sdu hu => simp [hu] at hc
  | lu _ _ _ _ _ hu => simp [hu] at hc

namespace Processor

variable {code : Word → Word → Prop} {p : Processor} {inp : Input} {r : CycleResult} {d : Dispatch}
  {f : FrontResult} {g : Ghost} {l l' : List Flight} {fl : Flight}

/-- **The operands of an instruction** that is next to retire are in the registers. -/
theorem Runs.operands (h : Runs code p) (hw : p.world.Holds g)
    (hflight : p.world.flight = l ++ fl :: l')
    (hfin : ∀ i ∈ l, (p.world.core.entry i).finish = true) {op : ReadregExecutePack}
    (hop : p.execution.Operands fl.info op) :
    op = readreg fl.info ((p.world.core.regsAt (tip g.base l).map).read fl.info.rs1)
      ((p.world.core.regsAt (tip g.base l).map).read fl.info.rs2) := by
  have hp := h.reachable.execution
  have hmem : fl ∈ p.world.flight := by rw [hflight]; simp
  have hsource := hp.held.1.world.sourced fl hmem
  -- what rename has looked up is the home in front of the instruction
  have hread : ∀ rs phy v, fl.after.Found fl.info rs phy → p.execution.Value phy v →
      v = (p.world.core.regsAt (tip g.base l).map).read rs := by
    intro rs phy v hfound hv
    rw [← hfound.home hw hp.held.1.world.replaces (hw.flight.trans hflight)] at hv
    exact (hv.read hp hw hflight hfin hfound.reg).symm
  obtain ⟨v₁, v₂, rfl, hvalues⟩ := hop
  refine readreg_congr fun hv hx => ?_
  obtain ⟨h₁, h₂⟩ := hvalues hv hx
  exact ⟨fun hn => hread _ _ _ (hsource.rs1 hn) (h₁ hn),
    fun hn => hread _ _ _ (hsource.rs2 hn) (h₂ hn)⟩

/-- **What the unit has made** of a finished instruction that computes. -/
theorem Runs.executed (h : Runs code p) (hmem : fl ∈ p.world.flight)
    (hfin : (p.world.core.entry fl).finish = true)
    (hok : (p.world.core.entry fl).hasException = false) (hc : fl.info.computes = true)
    (csr : CsrBank) : ∃ op rev, p.execution.Operands fl.info op ∧ p.execution.Completed fl rev
      ∧ integerExecute csr op = some rev ∧ rev.hasException = false ∧ fl.info.valid = true
        ∧ fl.info.hasException = false := by
  have hlsu : fl.info.opUnit.isLsu = false := by
    unfold DecodeRenamePack.computes at hc
    cases hu : fl.info.opUnit <;> first | rfl | simp [hu] at hc
  obtain ⟨rev, hcomp⟩ := h.flowing.entries fl hmem hlsu hfin
  obtain ⟨op, hop, hprod⟩ := hcomp.computed
  obtain ⟨dec, -, hsends⟩ := h.reachable.execution.held.1.world.decoded fl hmem
  have hinfo := hop.toOpInfo
  have hrev : rev.hasException = false := hcomp.hasException hok
  have hsend := produces_computed hprod ((congrArg (·.computes) hinfo).trans hc) csr
  obtain ⟨hvalid, hexc⟩ := integerExecute_valid hsend (fun hu => by
    have hunit := hsends.unit_valid
      (by rwa [← show op.opUnit = fl.info.opUnit from congrArg (·.opUnit) hinfo])
    rwa [← hinfo] at hunit) ((hprod.copied hcomp.enable).enable.symm.trans hcomp.enable) hrev
  exact ⟨op, rev, hop, hcomp, hsend, hrev, (congrArg (·.valid) hinfo).symm.trans hvalid,
    (congrArg (·.hasException) hinfo).symm.trans hexc⟩

/-- **An instruction that computes is one of the ISA model**, from the registers in front of it to
those behind it. -/
theorem Runs.computes (h : Runs code p) (hw : p.world.Holds g)
    (hflight : p.world.flight = l ++ fl :: l')
    (hfin : ∀ i ∈ l ++ [fl], (p.world.core.entry i).finish = true)
    (hok : (p.world.core.entry fl).hasException = false) (hc : fl.info.computes = true)
    {m : Isa.Model} (hpc : m.pc = fl.info.pc)
    (hregs : m.archRegfile = p.world.core.regsAt (tip g.base l).map)
    (hword : m.read fl.info.pc 4 = some fl.info.value) :
    m.run = some { m with
      pc := (p.logged fl).next
      archRegfile :=
        if fl.info.allocates then
          m.archRegfile.write fl.info.rd (p.world.core.phyRegfile fl.info.rdPhy).data
        else m.archRegfile } := by
  have hmem : fl ∈ p.world.flight := by rw [hflight]; simp
  obtain ⟨op, rev, hop, hcomp, hsend, hrev, hvalid, hexc⟩ :=
    h.executed hmem (hfin fl (by simp)) hok hc m.csr
  have halign := ((h.loaded.flight fl hmem).aligned hexc).1
  obtain ⟨q, hq, hsends⟩ := h.loaded.flight fl hmem
  have hinfo := hop.toOpInfo
  have hqpc : fl.info.pc = q.pc := (congrArg (·.pc) hsends).trans (decode_pc _)
  obtain ⟨hat, hrd⟩ := integerExecute_place ((congrArg (·.computes) hinfo).trans hc) hsend
  have hrd : rev.rd = fl.info.rd := hrd.trans (congrArg (·.rd) hinfo)
  have hat : rev.pc = fl.info.pc := hat.trans (congrArg (·.pc) hinfo)
  rw [h.operands hw hflight (fun i hi => hfin i (List.mem_append_left _ hi)) hop, ← hregs,
    ← hsends.renamed] at hsend
  -- the unit does what the ISA model does, on the same operands
  have hrun : m.run = some { m with
      pc := rev.nextPc m.csr
      archRegfile := m.archRegfile.after rev } := by
    rw [hqpc] at hpc halign hword
    rw [show fl.info.value = q.value from congrArg (·.value) hsends] at hword
    exact run_computes ((congrArg (·.hasException) hsends).symm.trans hexc)
      ((congrArg (·.valid) hsends).symm.trans hvalid) ((congrArg (·.computes) hsends).symm.trans hc)
      halign hpc hword hsend hrev
  -- where it goes on is what the entry of the ROB has been told
  have hnext : rev.nextPc m.csr = (p.logged fl).next := by
    obtain ⟨σ, htracks⟩ := hw.tracks hmem
    obtain ⟨op', hop', hprod⟩ := hcomp.computed
    have hbru : (p.world.core.entry fl).bruOp = (fl.info.opUnit == .bru) := htracks.bruOp
    have hunit : rev.opUnit = fl.info.opUnit :=
      (hprod.copied hcomp.enable).opUnit.trans (congrArg (·.opUnit) hop'.toOpInfo)
    rw [ExecuteWbPack.nextPc, hrev, logged, LogEntry.next, hbru, h.reachable.entry_pc fl hmem,
      hcomp.bruNextPc, hunit, hat]
    simp
  rw [hrun, hnext, hcomp.after hrev hrd]

/-! ## A cycle -/

/-- **One entry of the log.** -/
theorem Runs.writes (h : Runs code p) (hw : p.world.Holds g)
    (hflight : p.world.flight = l ++ fl :: l')
    (hfin : ∀ i ∈ l ++ [fl], (p.world.core.entry i).finish = true)
    (hok : (p.world.core.entry fl).hasException = false) :
    (p.logged fl).Writes (p.world.core.regsAt (tip g.base l).map)
      (p.world.core.regsAt (tip g.base (l ++ [fl])).map) := by
  have hnext : p.world.core.regsAt (tip g.base (l ++ [fl])).map
      = if fl.info.allocates then
          (p.world.core.regsAt (tip g.base l).map).write fl.info.rd
            (p.world.core.phyRegfile fl.info.rdPhy).data
        else p.world.core.regsAt (tip g.base l).map := by
    rw [tip, Window.tip_snoc]
    unfold advance
    dsimp only
    split
    · rename_i ha
      exact Core.regsAt_update _ _ _ ((hw.inv.entry (hw.flight.trans hflight)).dest ha).1
    · rfl
  rw [hnext]
  unfold logged LogEntry.Writes
  dsimp only
  split
  · rename_i hc
    obtain ⟨-, -, -, -, -, -, -, hexc⟩ :=
      h.executed (by rw [hflight]; simp) (hfin fl (by simp)) hok hc ⟨p.world.core.csrFile, {}⟩
    refine ⟨hexc, fun m hpc hregs hword => ?_⟩
    rw [h.computes hw hflight hfin hok hc hpc hregs hword, hregs]
    rfl
  · exact ⟨_, rfl⟩

/-- The entries of the instructions that retire, one by one. -/
theorem Runs.retires (h : Runs code p) (hw : p.world.Holds g) (l₁ l₂ : List Flight)
    (hflight : p.world.flight = l₁ ++ l₂ ++ l')
    (hplain : ∀ i ∈ l₁ ++ l₂, (p.world.core.entry i).finish = true
      ∧ (p.world.core.entry i).hasException = false) :
    Walk LogEntry.Writes (p.world.core.regsAt (tip g.base l₁).map) (l₂.map p.logged)
      (p.world.core.regsAt (tip g.base (l₁ ++ l₂)).map) := by
  induction l₂ generalizing l₁ with
  | nil => rw [List.append_nil]; rfl
  | cons fl l₂ ih =>
    have hcons : l₁ ++ fl :: l₂ = l₁ ++ [fl] ++ l₂ := by simp
    refine ⟨p.world.core.regsAt (tip g.base (l₁ ++ [fl])).map, ?_, ?_⟩
    · refine h.writes hw (by rw [hflight, List.append_assoc]; rfl) (fun i hi => ?_)
        (hplain fl (by simp)).2
      refine (hplain i ?_).1
      rw [hcons]
      exact List.mem_append_left _ hi
    · rw [hcons] at hflight hplain ⊢
      exact ih (l₁ ++ [fl]) hflight hplain

/-- **What has retired is not written any more.** -/
theorem Cycle.regsAt_kept (hp : Reachable p) (hc : p.Cycle inp r d f) (hw : p.world.Holds g) :
    r.next.regsAt (tip g.base (p.world.flight.take r.commit.retired.length)).map
      = p.world.core.regsAt (tip g.base (p.world.flight.take r.commit.retired.length)).map := by
  have hcore := hc.execution.core
  have hwrites := hp.execution.held.2.writes hc.execution hw hp.execution.held.1.world.decoded
  refine Isa.ArchRegfile.ext fun a => ?_
  unfold Core.regsAt
  dsimp only
  split
  · rename_i ha
    obtain ⟨hno, hquiet⟩ := retired_home_kept hw hwrites hcore ha
    rcases cycle_data hcore hno with ⟨rev, hrev, hrd, -⟩ | ⟨-, hsame⟩
    · exact absurd hrd (hquiet rev hrev)
    · exact hsame
  · rfl

/-- **A cycle of the log**: from the registers as `main.cpp` finds them to those it finds next. -/
theorem Runs.events (h : Runs code p) (hc : p.Cycle inp r d f) :
    Walk LogEntry.Writes p.world.core.gprs (p.events r) (p.act inp r d f).world.core.gprs := by
  have hp := h.reachable
  obtain ⟨g, hw⟩ := hp.execution.held.1.world.holds
  have hcore := hc.execution.core
  have hlegal := (hp.execution.held.2.pipe hc.execution).legal.cycle
  have hnext : (p.act inp r d f).world.core.gprs
      = p.world.core.regsAt (tip g.base (p.world.flight.take r.commit.retired.length)).map := by
    have hhomes : Represents (p.act inp r d f).world.core.retireRat _ :=
      cycle_homes_retired hw hlegal hcore
    rw [hhomes.gprs]
    exact hc.regsAt_kept hp hw
  have hretires := h.retires hw [] (p.world.flight.take r.commit.retired.length)
    (List.take_append_drop r.commit.retired.length p.world.flight).symm
    fun i hi => retired_plain hw hcore hi
  rw [hnext, hw.inv.retire.gprs]
  refine hretires.append ?_
  split
  · exact ⟨_, rfl, rfl⟩
  · rfl

/-! ## Scripts -/

/-- What register read sees of a beat without a flush. -/
def sees (q : Execution) : IntegerPipeInput where
  execute j := DivUnit.feedback (q.worked.getD j {})
  wb j := DivUnit.feedback (q.ports.getD j {})
  phyRegfile := q.pipe.world.core.phyRegfile

/-- A script that waits for the operands, and sends on what it finds. -/
def looking (p : Processor) : Reading where
  ready info := (!info.rs1NeedMap || (readSource (sees p.execution) info.rs1Phy).2)
    && (!info.rs2NeedMap || (readSource (sees p.execution) info.rs2Phy).2)
  operands info := ((readSource (sees p.execution) info.rs1Phy).1,
    (readSource (sees p.execution) info.rs2Phy).1)

/-- **What is sent on is what register read finds**, and no instruction is in two units. -/
def Looks (q : Execution) (inp : IntegerPipeInput) (reading : Reading) : Prop :=
  (∀ i ∈ q.picked reading, reading.operands i.info
      = ((readSource inp i.info.rs1Phy).1, (readSource inp i.info.rs2Phy).1)
    ∧ (i.info.rs1NeedMap && !(readSource inp i.info.rs1Phy).2
      || i.info.rs2NeedMap && !(readSource inp i.info.rs2Phy).2) = false)
    ∧ (q.worked.map fun rev => rev.robId).Nodup

instance (q : Execution) (inp : IntegerPipeInput) (reading : Reading) :
    Decidable (Looks q inp reading) := inferInstanceAs (Decidable (_ ∧ _))

/-- The processor after a script that looks at its operands, as long as the bus delivers code. -/
def watch (code : Word → Word → Prop) [∀ pc word, Decidable (code pc word)] :
    List Beat → Processor → Option Processor
  | [], p => some p
  | b :: script, p => do
      let r ← p.world.core.cycle (p.beat b (looking p)).cycle
      guard (Looks p.execution (p.execution.readInput (p.beat b (looking p)).execution r)
        (looking p))
      guard (Delivers code p.fetch.front.fetch1.pc b.words)
      let p' ← p.step b.rests (p.beat b (looking p))
      watch code script p'

/-- What is looked at is read. -/
theorem Looks.reads {b : Beat} {reading : Reading}
    (h : Looks p.execution (p.execution.readInput (p.beat b reading).execution r) reading) :
    p.execution.Reads (p.beat b reading).execution r := by
  obtain ⟨hpicked, hnodup⟩ := h
  unfold Processor.beat at hpicked ⊢
  cases hb : b.rests with
  | true => exact ⟨by simp, by simp⟩
  | false =>
    rw [hb, if_neg Bool.false_ne_true] at hpicked
    rw [if_neg Bool.false_ne_true]
    refine ⟨fun op hop _ => ?_, fun rev hrev rev' hrev' _ _ hid => ?_⟩
    · obtain ⟨i, hi, rfl⟩ := List.mem_map.mp hop
      obtain ⟨hoperands, hfound⟩ := hpicked i hi
      obtain ⟨hmem, hcond⟩ := List.mem_filter.mp hi
      refine ⟨i, hmem, ?_⟩
      have hlsu : i.info.opUnit.isLsu = false := by
        have hu := (Bool.and_eq_true_iff.mp (Bool.and_eq_true_iff.mp hcond).1).1
        cases hu' : i.info.opUnit <;> first | rfl | (rw [hu'] at hu; cases hu)
      unfold readPack
      dsimp only at hfound ⊢
      rw [hfound, Bool.and_false, if_neg Bool.false_ne_true, hoperands, Bool.and_true]
      unfold OpInfo.toIssue
      rw [hlsu]
      rfl
    · exact List.inj_on_of_nodup_map hnodup (List.mem_of_mem_take hrev)
        (List.mem_of_mem_take hrev') hid

/-- **A script that looks is a run** in which operands are read. -/
theorem Runs.watch [∀ pc word, Decidable (code pc word)] (script : List Beat) {p p' : Processor}
    (hp : Runs code p) (h : watch code script p = some p') : Runs code p' := by
  induction script generalizing p with
  | nil =>
    cases h
    exact hp
  | cons b script ih =>
    simp only [Processor.watch, Option.bind_eq_bind, Option.bind_eq_some_iff] at h
    obtain ⟨r, hr, _, hlooks, _, hwords, p₁, h₁, h⟩ := h
    obtain ⟨r', d, f, hc, rfl⟩ := hp.reachable.beat h₁
    obtain rfl : r' = r := Option.some.inj (hc.execution.core.symm.trans hr)
    have hlooks : Looks p.execution (p.execution.readInput (p.beat b (looking p)).execution r')
        (looking p) := by simpa [guard] using hlooks
    have hwords : Delivers code p.fetch.front.fetch1.pc b.words := by simpa [guard] using hwords
    exact ih (.cycle _ r' d f hp hc hlooks.reads hwords) h

/-! ## A run -/

theorem gprs_init : init.world.core.gprs = ⟨fun _ => 0, rfl⟩ := by
  obtain ⟨g, hw⟩ := Reachable.init.execution.held.1.world.holds
  rw [hw.inv.retire.gprs]
  refine Isa.ArchRegfile.ext fun a => ?_
  unfold Core.regsAt
  dsimp only
  split <;> rfl

/-- The step and the run: the log writes what the registers come to. -/
theorem Runs.log_writes (h : Runs code p) :
    Walk LogEntry.Writes ⟨fun _ => 0, rfl⟩ p.log p.world.core.gprs := by
  induction h with
  | init => exact gprs_init
  | cycle inp r d f hp hc _ _ ih => exact ih.append (hp.events hc)

end Processor

theorem Isa.ArchRegfile.reset_zero : (fun _ : Nat => (0 : Word)) 0 = 0 := rfl

/-- The registers of the ISA model after reset. -/
def Isa.ArchRegfile.reset : Isa.ArchRegfile where
  read _ := 0
  zero := reset_zero

/-- What the two models are compared by. -/
structure ArchState where
  pc : Word
  regs : Isa.ArchRegfile

/-- The two models after reset. -/
def ArchState.reset : ArchState := ⟨initPc, .reset⟩

/-- **What an entry of the log does.** It happens where the program is, the program goes on behind
it, and the registers are written as the ISA model writes them. -/
def LogEntry.Does (s : ArchState) (e : LogEntry) (s' : ArchState) : Prop :=
  e.At s.pc ∧ s'.pc = e.next ∧ e.Writes s.regs s'.regs

namespace Processor

variable {code : Word → Word → Prop} {p : Processor}

/-- **What a run has done, for the ISA model**: the log leads from reset to a state with the
registers `main.cpp` reads, and with the place of the oldest instruction in the pipeline, or of the next to be
fetched. -/
structure Refines (p : Processor) (s : ArchState) : Prop where
  log : Walk LogEntry.Does .reset p.log s
  gpr : ∀ a, IsReg a → p.world.core.gpr a = some (s.regs.read a)
  pipeline : p.OnPath s.pc

theorem Runs.refines (h : Runs code p) : ∃ s, p.Refines s := by
  obtain ⟨pc, hprecise⟩ := h.reachable.precise
  obtain ⟨g, hw⟩ := h.reachable.execution.held.1.world.holds
  refine ⟨⟨pc, p.world.core.gprs⟩, hprecise.log.walk h.log_writes ?_, fun a ha => ?_,
    hprecise.pipeline⟩
  · exact fun e b x y hat hwrites => ⟨hat, rfl, hwrites⟩
  · unfold Core.gprs
    dsimp only
    rw [hw.inv.retire.gpr ha]
    rfl

end Processor

/-! ## Programs that compute -/

/-- What the memory of the ISA model has at `pc`. -/
def Isa.Model.Contains (m : Isa.Model) (pc word : Word) : Prop :=
  checkAlign pc 4 = true → m.read pc 4 = some word

instance (m : Isa.Model) (pc word : Word) : Decidable (m.Contains pc word) :=
  inferInstanceAs (Decidable (_ → _))

/-- The entry of the ROB an entry of the log has retired. -/
def LogEntry.item : LogEntry → Option RobItem
  | .retired _ item => some item
  | .trap _ _ => none

/-- An instruction that is computed from its operands. -/
def LogEntry.Computes : LogEntry → Prop
  | .retired info _ => info.computes = true
  | .trap _ _ => False

instance (e : LogEntry) : Decidable e.Computes := by
  cases e <;> unfold LogEntry.Computes <;> infer_instance

/-- **The loop of `main.cpp`** over what has retired: the ISA model must be at the instruction, and
runs it. `none` is a compare error. -/
def Isa.Model.follow : List RobItem → Isa.Model → Option Isa.Model
  | [], m => some m
  | item :: items, m => do
      guard (m.pc = item.pc)
      follow items (← m.run)

/-- **The ISA model follows a walk** of instructions that compute, if they are in its memory. -/
theorem follow_walk {m : Isa.Model} {log : List LogEntry} {s s' : ArchState}
    (hwalk : Walk LogEntry.Does s log s') (hsound : ∀ e ∈ log, e.Sound)
    (hcomp : ∀ e ∈ log, e.Computes)
    (hcode : ∀ info item, .retired info item ∈ log → info.Of m.Contains) :
    Isa.Model.follow (log.filterMap LogEntry.item)
        { m with
          pc := s.pc
          archRegfile := s.regs }
      = some { m with
          pc := s'.pc
          archRegfile := s'.regs } := by
  induction log generalizing s with
  | nil =>
    obtain rfl : s' = s := hwalk
    rfl
  | cons e log ih =>
    obtain ⟨s₁, ⟨hat, hpc, hwrites⟩, hwalk⟩ := hwalk
    have hrest := ih hwalk (fun e he => hsound e (List.mem_cons_of_mem _ he))
      (fun e he => hcomp e (List.mem_cons_of_mem _ he))
      fun info item he => hcode info item (List.mem_cons_of_mem _ he)
    cases e with
    -- a trap computes nothing
    | trap mepc handler => exact absurd (hcomp _ (List.mem_cons_self ..)) id
    | retired info item =>
      have hc : info.computes = true := hcomp _ (List.mem_cons_self ..)
      have hitem : item.pc = info.pc := (hsound _ (List.mem_cons_self ..)).2.1
      have hat : info.pc = s.pc := hat
      unfold LogEntry.Writes at hwrites
      dsimp only at hwrites
      rw [if_pos hc] at hwrites
      obtain ⟨hx, hrun⟩ := hwrites
      obtain ⟨halign, hword⟩ := (hcode info item (List.mem_cons_self ..)).aligned hx
      have hstep := hrun { m with pc := s.pc, archRegfile := s.regs } hat.symm rfl (hword halign)
      rw [List.filterMap_cons]
      show Isa.Model.follow (item :: log.filterMap LogEntry.item) _ = _
      rw [Isa.Model.follow, hstep, ← hpc]
      simpa [guard, hitem, hat] using hrest

namespace Processor

variable {p : Processor}

/-! ## A run -/

/-- `addi x1, x0, 5`, `add x2, x1, x1`, `mul x3, x2, x1` and `xor x1, x3, x2`. -/
def sums : Isa.Model where
  pc := initPc
  archRegfile := .reset
  csr := ⟨CsrFile.reset, {}⟩
  mem := Mem.write (Mem.write (Mem.write (Mem.write (fun _ => 0) 0 4 0x00500093) 4 4 0x00108133)
    8 4 0x021101B3) 12 4 0x0021C0B3
  clint := {}

/-- The four are fetched, and each but the first works on what the one before it has made. -/
def sumsScript : List Beat :=
  { words := some fun i => sums.mem.read (4 * i.val) 4 } :: List.replicate 12 ({} : Beat)

def summed : Processor := (watch sums.Contains sumsScript init).getD init

theorem summed_runs : Runs sums.Contains summed := by
  obtain ⟨p, hp⟩ : ∃ p, watch sums.Contains sumsScript init = some p :=
    Option.isSome_iff_exists.mp (by decide +kernel)
  rw [summed, hp, Option.getD_some]
  exact Runs.watch _ .init hp

/-- **Every run refines the ISA model.** From reset the log does what the ISA model does, one
instruction after the other, and ends with the registers the processor has and at the place where
its pipeline begins. -/
theorem refines_isa {code : Word → Word → Prop} (h : Runs code p) :
    ∃ s, Walk LogEntry.Does .reset p.log s
      ∧ (∀ a, IsReg a → p.world.core.gpr a = some (s.regs.read a)) ∧ p.OnPath s.pc := by
  obtain ⟨s, hs⟩ := h.refines
  exact ⟨s, hs.log, hs.gpr, hs.pipeline⟩

/-- Every operand of the sums comes from a unit or from write-back. -/
theorem refines_isa_sums : summed.log.map LogEntry.pc
      = [0x80000000, 0x80000004, 0x80000008, 0x8000000c]
    ∧ ∃ s, Walk LogEntry.Does .reset summed.log s
      ∧ (∀ a, IsReg a → summed.world.core.gpr a = some (s.regs.read a)) ∧ summed.OnPath s.pc :=
  ⟨by decide +kernel, refines_isa summed_runs⟩

/-- **A program that computes runs on both models alike.** The loop of `main.cpp` finds the ISA
model at every instruction that has retired, and at the end its registers are those of the
processor. -/
theorem follows_isa {m : Isa.Model} (hpc : m.pc = initPc)
    (hregs : m.archRegfile = ⟨fun _ => 0, rfl⟩) (h : Runs m.Contains p)
    (hlog : ∀ e ∈ p.log, e.Computes) :
    ∃ m', m.follow (p.log.filterMap LogEntry.item) = some m'
      ∧ (∀ a, IsReg a → p.world.core.gpr a = some (m'.archRegfile.read a)) ∧ p.OnPath m'.pc := by
  obtain ⟨s, hs⟩ := h.refines
  obtain ⟨_, hprecise⟩ := h.reachable.precise
  have hfollow := follow_walk hs.log hprecise.sound hlog h.loaded.log
  rw [show ArchState.reset.pc = m.pc from hpc.symm,
    show ArchState.reset.regs = m.archRegfile from hregs.symm] at hfollow
  exact ⟨_, hfollow, hs.gpr, hs.pipeline⟩

/-- Both models end with 56 in `x1`, 10 in `x2` and 50 in `x3`. -/
theorem follows_isa_sums : [1, 2, 3].map summed.world.core.gpr = [some 56, some 10, some 50]
    ∧ ∃ m', sums.follow (summed.log.filterMap LogEntry.item) = some m'
      ∧ (∀ a, IsReg a → summed.world.core.gpr a = some (m'.archRegfile.read a))
        ∧ summed.OnPath m'.pc :=
  ⟨by decide +kernel, follows_isa rfl rfl summed_runs (by decide +kernel)⟩

end Processor

end DreamCore
