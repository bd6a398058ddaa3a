import DreamCore.Backend.Conservation
import DreamCore.Backend.CsrStep
import DreamCore.Backend.Delivery
import DreamCore.Backend.Mapping
import DreamCore.Machine.Path

/-!
# Precise interrupts

An interrupt is taken when the ROB is empty, in front of what decode has left for
rename. Unlike an exception it restores nothing: no map, no free list, no queue.
There is nothing to restore. When no instruction is in flight none is in a stage
behind rename either, and rename and commit see the same map.

And what it is taken in front of is the instruction the program goes on with: with
nothing in flight the path of the run is at the front of the fifo. So the program can
go on behind the handler as if nothing had been, but for the registers that exceptions
have lost before, and for a place that `mepc` cannot name.
-/

namespace DreamCore

open Ring

/-- **The interrupt block**, when it takes one: commit does nothing else. -/
theorem commitRun_interrupt {cur new : Core} {inp : CommitInput} {st : CommitState}
    {cause : RiscvInterrupt} {q : DecodeRenamePack} {rest : List DecodeRenamePack}
    (hcause : inp.lines.getCause cur.csrFile = some cause)
    (hrob : Fifo.customerIsEmpty cur.rob new.rob = true) (hfifo : inp.decodeRenameFifo = q :: rest)
    (h : commitRun cur new inp = some st) : st.Retires cur [] ∧ st.Traps cur q.pc
      ∧ st.new.csrFile.readSys csrMcause
        = csrFilter csrMcause (0x80000000 ||| cause.toWord) := by
  have hint : commitInterrupt cur new inp = {
      new := { new with
        csrFile := (((new.csrFile.writeSys csrMepc q.pc).writeSys csrMtval 0).writeSys csrMcause
          (0x80000000 ||| cause.toWord)).writeSys csrMstatus
            (mstatusEnter (cur.csrFile.readSys csrMstatus))
        committed := true }
      feedback := {
        hasException := true
        exceptionPc := cur.csrFile.readSys csrMtvec
        flush := true }
      needFlush := true
      interruptAck := some cause } := by
    unfold commitInterrupt
    rw [hcause, hrob, hfifo]
  have hnone : Fifo.customerGetFrontId cur.rob (commitInterrupt cur new inp).new.rob = none := by
    rw [hint]
    exact front_none.mpr hrob
  unfold commitRun at h
  dsimp only at h
  rw [hnone, hint] at h
  cases h
  refine ⟨⟨rfl, by simp⟩, ⟨rfl, rfl, rfl, ?_⟩, ?_⟩
  · simp only [CsrFile.writeSys, CsrFile.readSys]
    rw [Function.update_of_ne (by decide), Function.update_of_ne (by decide),
      Function.update_of_ne (by decide), Function.update_self]
    rfl
  · simp only [CsrFile.writeSys, CsrFile.readSys]
    rw [Function.update_of_ne (by decide), Function.update_self]

namespace Processor

/-- **Nothing is in flight**, and nothing has been left behind by what was. -/
structure Drained (p : Processor) : Prop where
  flight : p.world.flight = []
  places : ∀ place, p.execution.pipe.contents place = []
  units : p.execution.units = []
  ports : ∀ rev ∈ p.execution.ports, rev.enable = false
  /-- Rename goes on from the map of what has retired. -/
  maps : ∀ a, IsReg a → ∀ x < phyRegNum,
    p.world.core.speculativeRat.maps a x = p.world.core.retireRat.maps a x
  free : ∀ x ∈ p.world.core.phyIdFreeList.contents, ∀ a, IsReg a →
    p.world.core.retireRat.maps a x = false

variable {p : Processor} {inp : Input} {r : CycleResult} {d : Dispatch} {f : FrontResult}
  {pc : Word}

/-- **An empty ROB means an empty machine behind rename.** -/
theorem Reachable.drained (hp : Reachable p) (h : p.world.flight = []) : p.Drained := by
  obtain ⟨hpipe, hq⟩ := hp.execution.held
  obtain ⟨g, hw⟩ := hpipe.world.holds
  obtain ⟨sent, entered, hplaces, -⟩ := hpipe.cuts
  have hflight : g.flight = [] := hw.flight.trans h
  have hspec : Represents p.world.core.speculativeRat g.base.map := by
    have hspec := hw.inv.spec
    rwa [Ghost.tip, hflight] at hspec
  refine ⟨h, fun place => ?_, ?_, fun rev hrev => ?_, fun a ha x hx => ?_, fun x hx a ha => ?_⟩
  · rw [List.eq_nil_iff_forall_not_mem]
    intro op hop
    obtain ⟨op', hop', -⟩ := (hplaces.delivered hw).only place op hop
    rw [Pipe.infos, show p.execution.pipe.world.flight = [] from h] at hop'
    cases hop'
  · rw [List.eq_nil_iff_forall_not_mem]
    intro op hop
    obtain ⟨fl, hfl, -⟩ := hq.units op hop
    rw [show p.execution.pipe.world.flight = [] from h] at hfl
    cases hfl
  · rw [Bool.eq_false_iff]
    intro hen
    obtain ⟨fl, hfl, -⟩ := hq.ports rev hrev hen
    rw [show p.execution.pipe.world.flight = [] from h] at hfl
    cases hfl
  · rw [Bool.eq_iff_iff, hspec.maps_iff hx ha, hw.inv.retire.maps_iff hx ha]
  · -- what is free is nobody's home
    have hx : x ∈ slots phyRegNum p.world.core.phyIdFreeList.ring.buffer g.base.free g.freed := by
      have hcontents := hw.inv.free.contents_eq (by decide)
      rw [Ghost.tip, hflight] at hcontents
      exact hcontents ▸ hx
    rw [Bool.eq_false_iff, Ne, hw.inv.retire.maps_iff (hw.inv.bound x hx) ha]
    intro he
    exact (List.nodup_append.mp hw.inv.nodup).2.2 x hx x (mem_homes.mpr ⟨a, ha, he⟩) rfl

/-- **An interrupt is precise.** The processor before the cycle in which it is taken, and after. -/
structure Interrupted (p p' : Processor) (cause : RiscvInterrupt) (pc : Word) : Prop where
  /-- All that came before has retired, and `pc` is where the program goes on. -/
  precise : p.Precise pc
  before : p.Drained
  /-- The instruction there is the first in the fifo, and has not been renamed. -/
  front : ∃ q rest, p.decodeRename = q :: rest ∧ q.pc = pc
  log : p'.log = p.log ++ [.trap (savedPc pc) (p.world.core.csrFile.readSys csrMtvec)]
  mepc : p'.world.core.csrFile.readSys csrMepc = savedPc pc
  mcause : p'.world.core.csrFile.readSys csrMcause
    = csrFilter csrMcause (0x80000000 ||| cause.toWord)
  /-- Nothing is left in front of rename, and fetch begins at the handler. -/
  after : p'.Drained
  upstream : p'.upstream = []
  handler : p'.fetch.front.fetch1.pc = p.world.core.csrFile.readSys csrMtvec
  fetches : p'.fetch.front.fetch1.jumpWait = false

theorem Reachable.interrupts (hp : Reachable p) (hc : p.Cycle inp r d f) {cause : RiscvInterrupt}
    (hcause : inp.cycle.commit.lines.getCause p.world.core.csrFile = some cause)
    (hrob : Fifo.customerIsEmpty p.world.core.rob p.world.core.rob = true)
    (hfifo : p.decodeRename ≠ []) : ∃ pc, Interrupted p (p.act inp r d f) cause pc := by
  obtain ⟨g, hw⟩ := hp.execution.held.1.world.holds
  have hearly := early_sameWindow p.world.core inp.cycle
  have hnext := Reachable.cycle inp r d f hp hc
  have hflight : p.world.flight = [] := by
    rw [← hw.flight]
    refine hw.inv.flight_nil hearly ?_
    rw [hearly.rob]
    exact hrob
  obtain ⟨q, rest, hdr⟩ := List.exists_cons_of_ne_nil hfifo
  have hdrfifo : inp.cycle.commit.decodeRenameFifo = q.decoded :: rest.map FetchOpInfo.decoded := by
    rw [hc.fifo, hdr]
    rfl
  obtain ⟨hret, htrap, hmcause⟩ := commitRun_interrupt hcause (hearly.rob ▸ hrob) hdrfifo
    (Core.cycle_eq_some hc.execution.core).commit
  obtain ⟨pc, hprecise⟩ := hp.precise
  -- with nothing in flight the path is at the front of the fifo
  have hpc : q.pc = pc := by
    have htrail := hprecise.pipeline.trail
    rw [waypoints, hflight, upstream, hdr] at htrail
    exact htrail.1
  have hsaved : q.decoded.pc = pc := (decode_pc _).trans hpc
  rw [hsaved] at htrap
  have hf : (p.machine.frontInput inp.machine r).flush = true := by
    show (r.commit.feedback.flush || r.bru.flush || r.sau.flush) = true
    rw [htrap.flush]
    rfl
  have hcsr : (p.act inp r d f).world.core.csrFile = r.commit.new.csrFile :=
    cycle_csrFile hc.execution.core
  obtain ⟨hhandler, hfetches⟩ := cycle_commitFlush hc.fetch htrap.flush fun _ => .inl htrap.hasException
  have htarget : r.commit.feedback.target = p.world.core.csrFile.readSys csrMtvec := by
    rw [CommitFeedback.target, htrap.hasException, if_pos rfl, htrap.exceptionPc]
  have hempty : (p.act inp r d f).world.flight = [] := by
    show p.world.flightAfter r _ = []
    rw [World.flightAfter, if_pos htrap.flush]
  refine ⟨pc, hprecise, hp.drained hflight, ⟨q, rest, hdr, hpc⟩, ?_, ?_, ?_, hnext.drained hempty,
    hc.upstream_flushed hf, hhandler.trans htarget, hfetches⟩
  · exact congrArg (p.log ++ ·) (events_traps (l := []) (m := []) hflight hret htrap)
  · rw [hcsr]
    exact htrap.mepc
  · rw [hcsr]
    exact hmcause

/-- **Every interrupt is precise**, whatever was predicted, sent back or held before it. -/
theorem interrupted (hp : Reachable p) (hc : p.Cycle inp r d f) {cause : RiscvInterrupt}
    (hcause : inp.cycle.commit.lines.getCause p.world.core.csrFile = some cause)
    (hrob : Fifo.customerIsEmpty p.world.core.rob p.world.core.rob = true)
    (hfifo : p.decodeRename ≠ []) : ∃ pc, Interrupted p (p.act inp r d f) cause pc :=
  hp.interrupts hc hcause hrob hfifo

/-- `csrrwi x0, mstatus, 8` and `csrrwi x0, mie, 8`, and additions behind them. -/
def enableInterrupts (i : Fin fetchWidth) : Word :=
  if i.val = 0 then 0x30045073 else if i.val = 1 then 0x30445073 else 0x00500093

/-- The interrupts are enabled, two additions retire, and four more have been decoded. -/
def enabledScript : List Beat :=
  { words := some enableInterrupts } :: List.replicate 4 ({} : Beat)
    ++ List.replicate 4 { stall := true } ++ [({} : Beat)] ++ List.replicate 4 { stall := true }
    ++ List.replicate 3 ({} : Beat) ++ { words := some fun _ => 0x00500093 }
      :: List.replicate 2 ({} : Beat)

def enabled : Processor := (play blindly enabledScript init).getD init

theorem enabled_reachable : Reachable enabled := by
  obtain ⟨p, hp⟩ : ∃ p, play blindly enabledScript init = some p :=
    Option.isSome_iff_exists.mp (by decide +kernel)
  rw [enabled, hp, Option.getD_some]
  exact Reachable.play _ .init hp

/-- The cycle in which the line of the software interrupt is set. -/
def softwareInterrupt : Beat := { lines := { msip := true }, rests := true }

theorem enabled_cause : (enabled.beat softwareInterrupt {}).cycle.commit.lines.getCause
    enabled.world.core.csrFile = some .machineSoftware := by
  decide +kernel

theorem enabled_cycle : ∃ r d f, enabled.Cycle (enabled.beat softwareInterrupt {}) r d f := by
  obtain ⟨p', hp'⟩ :
      ∃ p', enabled.step true (enabled.beat softwareInterrupt {}) = some p' :=
    Option.isSome_iff_exists.mp (by decide +kernel)
  obtain ⟨r, d, f, hc, -⟩ := enabled_reachable.beat (b := softwareInterrupt) hp'
  exact ⟨r, d, f, hc⟩

/-- It is taken in front of the instruction behind the additions. -/
theorem interrupted_enabled : ∃ r d f pc, enabled.Cycle (enabled.beat softwareInterrupt {}) r d f
    ∧ Interrupted enabled (enabled.act (enabled.beat softwareInterrupt {}) r d f)
      .machineSoftware pc := by
  obtain ⟨r, d, f, hc⟩ := enabled_cycle
  obtain ⟨pc, h⟩ := interrupted enabled_reachable hc enabled_cause (by decide +kernel)
    (by decide +kernel)
  exact ⟨r, d, f, pc, hc, h⟩

/-! ## Going on behind it -/

/-- **The processors that runs from reset reach**, when every cycle of the run meets `P`. -/
inductive Run (P : Processor → Input → Prop) : Processor → Prop where
  | init : Run P Processor.init
  | cycle {p : Processor} (inp : Input) (r : CycleResult) (d : Dispatch) (f : FrontResult) :
      Run P p → p.Cycle inp r d f → P p inp → Run P (p.act inp r d f)

theorem Run.reachable {P : Processor → Input → Prop} (h : Run P p) : Reachable p := by
  induction h with
  | init => exact .init
  | cycle inp r d f _ hc _ ih => exact .cycle inp r d f ih hc

/-- In this cycle commit takes no exception on an entry that was given a physical register. -/
def Keeps (p : Processor) (inp : Input) : Prop :=
  p.world.core.leaks inp.cycle.commit.writeAck = false

/-- Then no register is lost. -/
theorem Run.conserved (h : Run Keeps p) : p.world.core.Conserved := by
  have hworld : DreamCore.Run (fun w inp => w.core.leaks inp.commit.writeAck = false) p.world := by
    induction h with
    | init => exact .init
    | cycle inp r d f hp hc hkeeps ih =>
      exact .cycle inp.cycle r ih (hc.legal hp.reachable).cycle hkeeps hc.execution.core
  obtain ⟨g, hw, hcount⟩ := DreamCore.Run.conserved hworld
  exact hw.inv.conserved_iff.mpr hcount

/-- **The program can go on behind the interrupt** as if there had been none. -/
structure Resumes (p p' : Processor) (cause : RiscvInterrupt) (pc : Word) : Prop extends
    Interrupted p p' cause pc where
  loadQueue : p.world.core.loadQueue.ring.contents = []
  storeBuffer : p.world.core.storeBuffer.ring.contents = []
  /-- What holds no register of the program is free. -/
  free : ∀ x < phyRegNum, (∀ a, IsReg a → p.world.core.retireRat.maps a x = false) →
    x ∈ p.world.core.phyIdFreeList.contents
  returns : p'.world.core.csrFile.readSys csrMepc = pc

/-- Where nothing is in flight, nothing has an entry in one of the two queues. -/
theorem Reachable.queues_empty (hp : Reachable p) (h : p.world.flight = []) :
    p.world.core.loadQueue.ring.contents = [] ∧ p.world.core.storeBuffer.ring.contents = [] := by
  obtain ⟨g, hw⟩ := hp.execution.held.1.world.holds
  have htip : g.tip = g.base := by
    rw [Ghost.tip, hw.flight.trans h]
    rfl
  have hlq := hw.inv.lq.contents_eq (by decide)
  have hsb := hw.inv.sb.contents_eq (by decide)
  rw [htip] at hlq hsb
  exact ⟨hlq.trans (slots_self ..), hsb.trans (slots_self ..)⟩

/-- **What is conserved and not in flight** is free, or holds a register of the program. -/
theorem Reachable.free_of_unmapped (hp : Reachable p) (h : p.world.flight = [])
    (hcon : p.world.core.Conserved) {x : Nat} (hx : x < phyRegNum)
    (hno : ∀ a, IsReg a → p.world.core.retireRat.maps a x = false) :
    x ∈ p.world.core.phyIdFreeList.contents := by
  obtain ⟨g, hw⟩ := hp.execution.held.1.world.holds
  have hempty : p.world.core.inFlightRegs = [] := by
    have hrob := hw.inv.rob.contents_eq (by decide)
    rw [Ghost.tip, hw.flight.trans h] at hrob
    rw [Core.inFlightRegs, hrob.trans (slots_self ..)]
    rfl
  have hmem : x ∈ p.world.core.registers :=
    List.count_pos_iff.mp (by rw [hcon x hx]; exact Nat.one_pos)
  rw [Core.registers, hempty, List.append_nil, List.mem_append] at hmem
  refine hmem.resolve_right fun hvalid => ?_
  obtain ⟨-, hvalid⟩ := List.mem_filter.mp hvalid
  obtain ⟨a, ha, he⟩ := (hw.inv.retire.valid x hx).mp hvalid
  have hmaps := (hw.inv.retire.maps_iff hx ha).mpr he
  rw [hno a ha] at hmaps
  cases hmaps

/-- **Resuming behind an interrupt repeats and skips nothing**, as long as no register has been lost
and the next instruction stands where `mepc` can point to. -/
theorem interrupt_resumes (h : Run Keeps p) (hc : p.Cycle inp r d f) {cause : RiscvInterrupt}
    (hcause : inp.cycle.commit.lines.getCause p.world.core.csrFile = some cause)
    (hrob : Fifo.customerIsEmpty p.world.core.rob p.world.core.rob = true)
    (hfifo : p.decodeRename ≠ []) (haligned : ∀ q ∈ p.decodeRename.head?, savedPc q.pc = q.pc) :
    ∃ pc, Resumes p (p.act inp r d f) cause pc := by
  have hp := h.reachable
  obtain ⟨pc, hint⟩ := hp.interrupts hc hcause hrob hfifo
  obtain ⟨q, rest, hdr, rfl⟩ := hint.front
  obtain ⟨hlq, hsb⟩ := hp.queues_empty hint.before.flight
  exact ⟨q.pc, hint, hlq, hsb,
    fun x hx hno => hp.free_of_unmapped hint.before.flight h.conserved hx hno,
    hint.mepc.trans (haligned q (by rw [hdr]; rfl))⟩

/-- A script, as long as every cycle meets `P`. -/
def playWhile (P : Processor → Input → Bool) (reading : Processor → Reading) :
    List Beat → Processor → Option Processor
  | [], p => some p
  | b :: script, p =>
      if P p (p.beat b (reading p)) then
        (p.step b.rests (p.beat b (reading p))).bind (playWhile P reading script)
      else none

/-- **It is a run**, and ends where the script does. -/
theorem Run.playWhile {P : Processor → Input → Bool} {Q : Processor → Input → Prop}
    {reading : Processor → Reading} (hPQ : ∀ p inp, P p inp = true → Q p inp) (script : List Beat)
    {p p' : Processor} (hp : Run Q p) (h : playWhile P reading script p = some p') :
    Run Q p' ∧ play reading script p = some p' := by
  induction script generalizing p with
  | nil =>
    obtain rfl := Option.some.inj h
    exact ⟨hp, rfl⟩
  | cons b script ih =>
    unfold Processor.playWhile at h
    split at h
    · rename_i hP
      obtain ⟨p₁, h₁, h⟩ := Option.bind_eq_some_iff.mp h
      obtain ⟨r, d, f, hc, rfl⟩ := hp.reachable.beat h₁
      obtain ⟨hrun, hplay⟩ := ih (.cycle _ r d f hp hc (hPQ _ _ hP)) h
      refine ⟨hrun, ?_⟩
      unfold play
      rw [h₁]
      exact hplay
    · cases h

/-- Behind the two additions the program goes on. -/
theorem interrupt_resumes_enabled : ∃ r d f pc,
    Resumes enabled (enabled.act (enabled.beat softwareInterrupt {}) r d f) .machineSoftware pc := by
  obtain ⟨p, hp⟩ : ∃ p, playWhile (fun p inp => !p.world.core.leaks inp.cycle.commit.writeAck)
      blindly enabledScript init = some p := Option.isSome_iff_exists.mp (by decide +kernel)
  obtain ⟨hrun, hplay⟩ :=
    Run.playWhile (Q := Keeps) (fun p inp h => by simpa [Keeps] using h) _ .init hp
  have henabled : enabled = p := by
    rw [enabled, hplay]
    rfl
  rw [← henabled] at hrun
  obtain ⟨r, d, f, hc⟩ := enabled_cycle
  obtain ⟨pc, h⟩ := interrupt_resumes hrun hc enabled_cause (by decide +kernel) (by decide +kernel)
    (by decide +kernel)
  exact ⟨r, d, f, pc, h⟩

/-- `lui x5, 0x80001`, `csrrw x0, mtvec, x5` and `csrrs x1, 0x123, x0`, which asks for a register
there is not. -/
def askForNone (i : Fin fetchWidth) : Word :=
  if i.val = 0 then 0x800012B7 else if i.val = 1 then 0x30529073
  else if i.val = 2 then 0x123020F3 else 0x00500093

/-- The last of them is taken as an exception, and the handler enables the interrupts. -/
def lossScript : List Beat :=
  { words := some askForNone } :: List.replicate 5 ({} : Beat) ++ List.replicate 8 { stall := true }
    ++ [({} : Beat)] ++ List.replicate 4 { stall := true } ++ { rests := true } :: enabledScript

/-- Every register reads as the address of the handler. -/
def readingHandler (_ : Processor) : Reading := { operands := fun _ => (0x80001000, 0) }

def lost : Processor := (play readingHandler lossScript init).getD init

/-- **The register that the faulting instruction was given is not free** when the interrupt is
taken, though it holds nothing. -/
theorem lost_missing : ¬ ∀ p inp r d f cause, Reachable p → p.Cycle inp r d f →
    inp.cycle.commit.lines.getCause p.world.core.csrFile = some cause →
    Fifo.customerIsEmpty p.world.core.rob p.world.core.rob = true → p.decodeRename ≠ [] →
    ∃ pc, Resumes p (p.act inp r d f) cause pc := by
  intro hall
  obtain ⟨p, hp⟩ : ∃ p, play readingHandler lossScript init = some p :=
    Option.isSome_iff_exists.mp (by decide +kernel)
  have hreach : Reachable lost := by
    rw [lost, hp, Option.getD_some]
    exact Reachable.play _ .init hp
  obtain ⟨p', hp'⟩ : ∃ p', lost.step true (lost.beat softwareInterrupt {}) = some p' :=
    Option.isSome_iff_exists.mp (by decide +kernel)
  obtain ⟨r, d, f, hc, -⟩ := hreach.beat (b := softwareInterrupt) hp'
  obtain ⟨pc, h⟩ := hall _ _ r d f .machineSoftware hreach hc (by decide +kernel)
    (by decide +kernel) (by decide +kernel)
  have hmissing : ∃ x < phyRegNum, (∀ a < archRegNum, lost.world.core.retireRat.maps a x = false)
      ∧ x ∉ lost.world.core.phyIdFreeList.contents := by
    decide +kernel
  obtain ⟨x, hx, hno, hnot⟩ := hmissing
  exact hnot (h.free x hx fun a ha => hno a ha.2)

end Processor

end DreamCore
