import DreamCore.Frontend.JumpWait
import DreamCore.Machine.Processor

/-!
# The path of the program

What retires is what the program does: an instruction retires only where the one
before it has really gone, or where the handler of a trap begins, and a trap saves
the place of the first instruction that has not retired.

Predictions are only guesses at that, so what is in the pipeline need not be on the
path. It is on a path of its own: every instruction stands where the one before it
leads, as far as that is known — where it was predicted to go, or, for a branch the
branch unit has looked at and could have recovered, where it has turned out to go.
What commit retires is then where it has really gone, whenever commit does not send
fetch somewhere else itself.
-/

namespace DreamCore

open Ring

/-! ## The log -/

/-- Where something has happened, as far as the log says it. -/
def LogEntry.pc : LogEntry → Word
  | .retired info _ => info.pc
  | .trap mepc _ => mepc

/-- Where something happens, if it happens at `pc`. -/
def LogEntry.At : LogEntry → Word → Prop
  | .retired info _, pc => info.pc = pc
  | .trap mepc _, pc => mepc = savedPc pc

/-- Where the program goes on behind it. -/
def LogEntry.next : LogEntry → Word
  | .retired _ item => if item.bruOp then item.bruNextPc else item.pc + 4
  | .trap _ handler => handler

/-- **The log is true**: what has retired was fetched, its entry is about it, and a branch went
where the branch unit can send it. -/
def LogEntry.Sound : LogEntry → Prop
  | .retired info item => info.Fetched ∧ item.pc = info.pc ∧ item.bruOp = (info.opUnit == .bru)
      ∧ (item.bruOp = true → info.Resolves item.bruJump item.bruNextPc)
  | .trap _ _ => True

/-! ## Waypoints -/

/-- An instruction on its way, as far as the path goes: where it stands, where it leads, and
whether fetch waits to learn that. -/
structure Waypoint where
  pc : Word
  goes : Word
  stops : Bool

/-- Where an instruction is predicted to go on. -/
def DecodeRenamePack.followPc (rev : DecodeRenamePack) : Word :=
  if rev.branchPredictorInfoPack.predicted && rev.branchPredictorInfoPack.jump then
    rev.branchPredictorInfoPack.nextPc
  else rev.pc + 4

/-- An instruction that has been fetched. -/
def FetchOpInfo.waypoint (q : FetchOpInfo) : Waypoint := ⟨q.pc, q.followPc, q.stops⟩

namespace Processor

/-- Where an instruction in flight leads, as far as is known: a branch with a checkpoint where it
has turned out to go, any other instruction where it was predicted to. -/
def leadsTo (p : Processor) (fl : Flight) : Word :=
  if fl.info.opUnit == .bru && fl.info.hasCheckpoint then (p.wentTo fl).getD fl.info.followPc
  else fl.info.followPc

/-- An instruction in flight. -/
def waypoint (p : Processor) (fl : Flight) : Waypoint where
  pc := fl.info.pc
  goes := p.leadsTo fl
  stops := fl.info.opUnit == .bru && !fl.info.branchPredictorInfoPack.predicted

/-- What has been fetched and not renamed, oldest first. -/
def upstream (p : Processor) : List FetchOpInfo :=
  p.decodeRename ++ p.fetch2Decode ++ p.fetch.front.pending

/-- **The pipeline in program order.** -/
def waypoints (p : Processor) : List Waypoint :=
  p.world.flight.map p.waypoint ++ p.upstream.map FetchOpInfo.waypoint

/-- **The pipeline is on its path from `pc` on**, and fetch goes on at its end. -/
structure OnPath (p : Processor) (pc : Word) : Prop where
  trail : Trail (fun s pc => s.pc = pc) Waypoint.goes pc p.waypoints p.fetch.front.fetch1.pc
  halts : Halts Waypoint.stops p.waypoints p.fetch.front.fetch1.jumpWait

end Processor

/-! ## What decode and rename make of a waypoint -/

/-- No case of the switch touches the program counter. -/
theorem decodeSwitch_pc (w : Word) (p : DecodeRenamePack) : (decodeSwitch w p).pc = p.pc := by
  unfold decodeSwitch
  split
  case h_5 => unfold decodeBranch; dsimp only; split <;> rfl
  case h_6 => unfold decodeLoad; dsimp only; split <;> rfl
  case h_7 => unfold decodeStore; dsimp only; split <;> rfl
  case h_8 => unfold decodeOpImm; dsimp only; split <;> rfl
  case h_9 => unfold decodeOpReg; dsimp only; split <;> rfl
  case h_10 => unfold decodeFence; split <;> (try split) <;> rfl
  case h_11 => unfold decodeSystem; split <;> (try split) <;> (try split) <;> rfl
  all_goals rfl

theorem decode_pc (q : Fetch2DecodePack) : (decode q).pc = q.pc := by
  have hpc := decodeSwitch_pc q.value (decodeStart q)
  unfold decode
  dsimp only
  split <;> exact hpc

/-- An instruction decode calls one for the branch unit is a legal branch. -/
theorem decode_legalBranch (q : Fetch2DecodePack) :
    q.legalBranch = ((decode q).opUnit == .bru) := by
  unfold Fetch2DecodePack.legalBranch
  cases hu : (decode q).opUnit == .bru with
  | false => exact Bool.and_false _
  | true =>
    have hne : (decode q).opUnit ≠ .alu := by
      rw [beq_iff_eq.mp hu]
      decide
    have hvalid := decode_unit hne
    rw [(Bool.and_eq_true_iff.mp hvalid).1]
    rfl

/-- **Renaming moves nothing.** -/
theorem OpInfo.Sends.waypoint {info : OpInfo} {q : FetchOpInfo} (h : info.Sends q.decoded) :
    info.pc = q.pc ∧ info.followPc = q.followPc
      ∧ (info.opUnit == .bru && !info.branchPredictorInfoPack.predicted) = q.stops := by
  have hpack := decode_pack q.toFetch2DecodePack
  have hpc : info.pc = q.pc := (congrArg DecodeRenamePack.pc h).trans (decode_pc _)
  have hpred : info.branchPredictorInfoPack.predicted = q.branchPredictorInfoPack.predicted := by
    rw [← hpack]
    exact congrArg (·.branchPredictorInfoPack.predicted) h
  have hjump : info.branchPredictorInfoPack.jump = q.branchPredictorInfoPack.jump := by
    rw [← hpack]
    exact congrArg (·.branchPredictorInfoPack.jump) h
  have hnext : info.branchPredictorInfoPack.nextPc = q.branchPredictorInfoPack.nextPc := by
    rw [← hpack]
    exact congrArg (·.branchPredictorInfoPack.nextPc) h
  have hunit : info.opUnit = q.decoded.opUnit :=
    (congrArg DecodeRenamePack.opUnit h).trans rfl
  refine ⟨hpc, ?_, ?_⟩
  · rw [DecodeRenamePack.followPc, FetchOpInfo.followPc, hpred, hjump, hnext, hpc]
  · rw [FetchOpInfo.stops, decode_legalBranch, hunit, hpred]
    rfl


/-! ## Where a branch leads -/

namespace Processor

variable {p : Processor} {inp : Input} {r : CycleResult} {d : Dispatch} {f : FrontResult}

/-- Only branches are predicted. -/
theorem Reachable.unpredicted (hp : Reachable p) {fl : Flight} (hfl : fl ∈ p.world.flight)
    (hu : fl.info.opUnit ≠ .bru) : fl.info.branchPredictorInfoPack.predicted = false := by
  obtain ⟨rev, hok, hsend⟩ := hp.execution.held.1.world.decoded fl hfl
  rw [Bool.eq_false_iff]
  intro hpred
  have hrev : rev.branchPredictorInfoPack.predicted = true := by
    rw [← decode_pack, ← hpred]
    exact (congrArg (·.branchPredictorInfoPack.predicted) hsend).symm
  exact hu ((congrArg DecodeRenamePack.opUnit hsend).trans (hok.predicted hrev).2)

/-- Only predicted branches have a checkpoint to go back to. -/
theorem Reachable.checkpoint (hp : Reachable p) {fl : Flight} (hfl : fl ∈ p.world.flight)
    (hu : fl.info.opUnit = .bru) (hck : fl.info.hasCheckpoint = true) :
    fl.info.branchPredictorInfoPack.predicted = true := by
  obtain ⟨g, hw⟩ := hp.execution.held.1.world.holds
  rw [← hw.flight] at hfl
  obtain ⟨l₁, l₂, hl⟩ := List.append_of_mem hfl
  rcases (hw.inv.entry hl).shaped.checkpoint hck with ⟨-, hpred⟩ | hlu
  · exact hpred
  · rw [hu] at hlu
    cases hlu

/-- A branch that does not jump goes on behind itself. -/
theorem resolves_inline {info : OpInfo} {jump : Bool} {nextPc : Word} (hu : info.opUnit = .bru)
    (h : info.Resolves jump nextPc) (hj : jump = false) : nextPc = info.pc + 4 := by
  obtain ⟨csr, op, hex, hen, rfl, rfl⟩ := h
  have hop : op.opUnit = .bru := (hex.unit_iff (by decide) (by decide)).mpr hu
  have hissue := hex.toIssue (by rw [hop]; rfl) hen
  rw [bruCompute_inline hj, show op.pc = info.toIssue.pc from congrArg (·.pc) hissue,
    OpInfo.toIssue, if_neg (by rw [hu]; decide)]

/-- **Where an instruction leads is where it goes on when it retires**, unless fetch is told of
another place then. -/
theorem Reachable.leadsTo_retired (hp : Reachable p) {fl : Flight} (hfl : fl ∈ p.world.flight)
    (hfin : (p.world.core.entry fl).finish = true)
    (hs : (p.world.core.entry fl).settled = true) :
    p.leadsTo fl = LogEntry.next (.retired fl.info (p.world.core.entry fl)) := by
  obtain ⟨g, hw⟩ := hp.execution.held.1.world.holds
  obtain ⟨σ, htracks⟩ := hw.tracks hfl
  have hop : (p.world.core.entry fl).bruOp = (fl.info.opUnit == .bru) := htracks.bruOp
  have hpc := hp.entry_pc fl hfl
  rw [LogEntry.next, hop, hpc, leadsTo]
  by_cases hu : fl.info.opUnit = .bru
  · have hpack : (p.world.core.entry fl).branchPredictorInfoPack
        = fl.info.branchPredictorInfoPack := by
      refine (htracks.pack hfin).trans ?_
      rw [OpInfo.toIssue, if_neg (by rw [hu]; decide)]
    rw [hu]
    show (if fl.info.hasCheckpoint = true then _ else _) = (p.world.core.entry fl).bruNextPc
    rw [RobItem.settled, hop, hu, hpack] at hs
    obtain ⟨hpred, hs⟩ := Bool.and_eq_true_iff.mp ((Bool.false_or _).symm.trans hs)
    by_cases hck : fl.info.hasCheckpoint = true
    · rw [if_pos hck, wentTo, if_pos hfin]
      rfl
    · -- nothing could be recovered, and the prediction was right
      rw [if_neg hck]
      have hhit : (p.world.core.entry fl).hit = true := by
        rcases Bool.or_eq_true_iff.mp hs with hhit | hck'
        · exact hhit
        · exact absurd hck' hck
      rw [RobItem.hit, Bool.and_eq_true, beq_iff_eq, beq_iff_eq, hpack] at hhit
      rw [DecodeRenamePack.followPc, hpred, Bool.true_and, ← hhit.1, ← hhit.2]
      cases hj : (p.world.core.entry fl).bruJump with
      | true => rfl
      | false => exact (resolves_inline hu (hp.resolved fl hfl hu hfin) hj).symm
  · rw [beq_false_of_ne hu, DecodeRenamePack.followPc, hp.unpredicted hfl hu]
    rfl

/-! ## What the branch unit says of a branch -/

/-- **What the branch unit does not send back was predicted rightly.** -/
theorem Cycle.predicted_rightly (hp : Reachable p) (hc : p.Cycle inp r d f)
    (hfl : r.commit.feedback.flush = false) {rev : ReadregExecutePack} {fl : Flight}
    (hrev : inp.cycle.bru = some rev) (hres : p.Resolving rev fl)
    (hck : fl.info.hasCheckpoint = true) (hb : r.bru.flush = false) :
    (bruCompute p.world.core.csrFile rev).bruNextPc = fl.info.followPc := by
  obtain ⟨g, hw⟩ := hp.execution.held.1.world.holds
  have hpred := hp.checkpoint hres.flight hres.unit hck
  have hcop := bruCompute_copied p.world.core.csrFile rev
  have hinfo : rev.branchPredictorInfoPack = fl.info.branchPredictorInfoPack :=
    congrArg (·.branchPredictorInfoPack) hres.operation
  have hvalid : (rev.valid && !rev.hasException) = true := by
    obtain ⟨dec, -, hsend⟩ := hp.execution.held.1.world.decoded fl hres.flight
    rw [show rev.valid = fl.info.valid from congrArg (·.valid) hres.operation,
      show rev.hasException = fl.info.hasException from congrArg (·.hasException) hres.operation]
    exact hsend.unit_valid (by rw [hres.unit]; decide)
  have hbru := ((Core.cycle_eq_some hc.execution.core).feedbacks hw).2
  rw [hfl, if_neg Bool.false_ne_true] at hbru
  have hfb : (bruFeedback (bruCompute p.world.core.csrFile rev)).flush = false := by
    rw [← hb, hbru, CycleInput.bruFb, show inp.execution.pipe.cycle.bru = some rev from hrev]
    rfl
  rw [bruFeedback, hcop.enable, hcop.valid, bruCompute_hasException, hres.enable, Bool.true_and,
    hvalid, bruCompute_pack, hinfo, show fl.info.branchPredictorInfoPack.checkpointIdValid = true
    from hck, Bool.and_true, Bool.true_and, Bool.or_eq_false_iff] at hfb
  have hjump := bne_eq_false_iff_eq.mp hfb.1
  have hnext := bne_eq_false_iff_eq.mp hfb.2
  rw [DecodeRenamePack.followPc, hpred, Bool.true_and, hjump, hnext]
  cases hj : (bruCompute p.world.core.csrFile rev).bruJump with
  | true => rfl
  | false =>
    rw [bruCompute_inline hj, show rev.pc = fl.info.pc from congrArg (·.pc) hres.operation]
    rfl

end Processor

namespace Processor

variable {p : Processor} {inp : Input} {r : CycleResult} {d : Dispatch} {f : FrontResult}

/-- A flush of the branch unit is one of the branch it works on. -/
structure Recovers (p : Processor) (inp : Input) (r : CycleResult) (rev : ReadregExecutePack)
    (fl : Flight) : Prop where
  commit : r.commit.feedback.flush = false
  given : inp.cycle.bru = some rev
  resolving : p.Resolving rev fl
  robId : r.bru.robId = fl.info.robId
  nextPc : r.bru.nextPc = (bruCompute p.world.core.csrFile rev).bruNextPc
  hasCheckpoint : fl.info.hasCheckpoint = true

theorem Cycle.recovers (hp : Reachable p) (hc : p.Cycle inp r d f) (hb : r.bru.flush = true) :
    ∃ rev fl, p.Recovers inp r rev fl := by
  obtain ⟨g, hw⟩ := hp.execution.held.1.world.holds
  have hbru := ((Core.cycle_eq_some hc.execution.core).feedbacks hw).2
  have hfl : r.commit.feedback.flush = false := by
    rw [Bool.eq_false_iff]
    intro hfl
    rw [hbru, hfl, if_pos rfl] at hb
    cases hb
  rw [hfl, if_neg Bool.false_ne_true, CycleInput.bruFb] at hbru
  cases hrev : inp.execution.pipe.cycle.bru with
  | none =>
    rw [hrev] at hbru
    rw [hbru] at hb
    cases hb
  | some rev =>
    rw [hrev] at hbru
    have hbru : r.bru = bruFeedback (bruCompute p.world.core.csrFile rev) := hbru
    obtain ⟨fl, hres⟩ := hc.resolving hp hrev
    refine ⟨rev, fl, hfl, hrev, hres, ?_, by rw [hbru]; rfl, ?_⟩
    · rw [hbru, bruFeedback, (bruCompute_copied p.world.core.csrFile rev).robId]
      exact congrArg (·.robId) hres.operation
    · rw [hbru, bruFeedback, Bool.and_eq_true, bruCompute_pack] at hb
      rw [← hb.2]
      exact congrArg (·.branchPredictorInfoPack.checkpointIdValid) hres.operation.symm

end Processor

namespace Processor

variable {p : Processor} {inp : Input} {r : CycleResult} {d : Dispatch} {f : FrontResult}
  {pc : Word}

/-- **An instruction that stays leads where it did**, unless the branch unit goes back to it. -/
theorem Cycle.leadsTo_kept (hp : Reachable p) (hc : p.Cycle inp r d f)
    (hfl : r.commit.feedback.flush = false) {fl : Flight} (hmem : fl ∈ p.world.survivors r)
    (hb : r.bru.flush = true → r.bru.robId ≠ fl.info.robId) :
    (p.act inp r d f).leadsTo fl = p.leadsTo fl := by
  rw [leadsTo, leadsTo]
  split
  · rename_i hck
    rw [Bool.and_eq_true, beq_iff_eq] at hck
    rw [hc.wentTo_kept hp hfl hmem hck.1]
    cases hrev : inp.cycle.bru with
    | none => rw [Option.filter_none, Option.map_none, Option.or_none]
    | some rev =>
      rw [Option.filter_some]
      split
      · rename_i hid
        obtain ⟨fl', hres⟩ := hc.resolving hp hrev
        obtain ⟨g, hw⟩ := hp.execution.held.1.world.holds
        have hsame : fl' = fl := List.inj_on_of_nodup_map hw.slots_nodup hres.flight
          (mem_of_survivors hmem) (by
            rw [← beq_iff_eq.mp hid]
            exact congrArg (·.robId.id) hres.operation.symm)
        subst hsame
        have hquiet : r.bru.flush = false := by
          rw [Bool.eq_false_iff]
          intro hflush
          obtain ⟨rev', fl₂, hrec⟩ := hc.recovers hp hflush
          obtain rfl := Option.some.inj (hrec.given.symm.trans hrev)
          refine hb hflush (hrec.robId.trans ?_)
          exact (congrArg (·.robId) hrec.resolving.operation).symm.trans
            (congrArg (·.robId) hres.operation)
        rw [hres.wentTo, Option.none_or, Option.map_some, Option.getD_some, Option.getD_none,
          hc.predicted_rightly hp hfl hrev hres hck.2 hquiet]
      · rw [Option.map_none, Option.or_none]
  · rfl

end Processor

/-! ## What retires -/

namespace Processor

variable {p : Processor} {inp : Input} {r : CycleResult} {d : Dispatch} {f : FrontResult}
  {pc : Word}

/-- What the log says of an instruction that retires. -/
def logged (p : Processor) (fl : Flight) : LogEntry := .retired fl.info (p.world.core.entry fl)

/-- **What a cycle retires without a trap.** -/
theorem events_retires {l m : List Flight} (hflight : p.world.flight = l ++ m)
    (hret : r.commit.Retires p.world.core l) (hex : r.commit.feedback.hasException = false) :
    p.events r = l.map p.logged := by
  rw [events, hret.retired, List.length_map, hflight, List.take_left, hex,
    if_neg Bool.false_ne_true, List.append_nil]
  rfl

/-- **What a cycle retires in front of a trap**, and the trap. -/
theorem events_traps {l m : List Flight} (hflight : p.world.flight = l ++ m)
    (hret : r.commit.Retires p.world.core l) (htrap : r.commit.Traps p.world.core pc) :
    p.events r = l.map p.logged
      ++ [.trap (savedPc pc) (p.world.core.csrFile.readSys csrMtvec)] := by
  rw [events, hret.retired, List.length_map, hflight, List.take_left, htrap.hasException,
    if_pos rfl, htrap.mepc, htrap.exceptionPc]
  rfl

/-- A finished entry can be logged. -/
theorem Reachable.sound (hp : Reachable p) {fl : Flight} (hfl : fl ∈ p.world.flight)
    (hfin : (p.world.core.entry fl).finish = true) : (p.logged fl).Sound := by
  obtain ⟨g, hw⟩ := hp.execution.held.1.world.holds
  obtain ⟨σ, htracks⟩ := hw.tracks hfl
  refine ⟨(machineInv_reachable hp.machine).flight fl hfl, hp.entry_pc fl hfl, htracks.bruOp,
    fun hop => ?_⟩
  have hu : fl.info.opUnit = .bru := beq_iff_eq.mp (htracks.bruOp.symm.trans hop)
  exact hp.resolved fl hfl hu hfin

theorem Cycle.sound (hp : Reachable p) (hc : p.Cycle inp r d f) : ∀ e ∈ p.events r, e.Sound := by
  obtain ⟨g, hw⟩ := hp.execution.held.1.world.holds
  intro e he
  rcases List.mem_append.mp he with he | he
  · obtain ⟨fl, hmem, rfl⟩ := List.mem_map.mp he
    exact hp.sound (List.mem_of_mem_take hmem) (retired_plain hw hc.execution.core hmem).1
  · split at he
    · rw [List.mem_singleton.mp he]
      trivial
    · cases he

/-- **What retires is on the path**, and leads to what does not. -/
theorem OnPath.retires (h : p.OnPath pc) (hp : Reachable p) {l l' : List Flight}
    (hflight : p.world.flight = l ++ l') (hfin : ∀ fl ∈ l, (p.world.core.entry fl).finish = true)
    (hs : ∀ fl ∈ l, (p.world.core.entry fl).settled = true) :
    ∃ c, Trail LogEntry.At LogEntry.next pc (l.map p.logged) c
      ∧ Trail (fun s pc => s.pc = pc) Waypoint.goes c
        (l'.map p.waypoint ++ p.upstream.map FetchOpInfo.waypoint) p.fetch.front.fetch1.pc
      ∧ Halts Waypoint.stops (l'.map p.waypoint ++ p.upstream.map FetchOpInfo.waypoint)
        p.fetch.front.fetch1.jumpWait := by
  have htrail := h.trail
  have hhalts := h.halts
  rw [waypoints, hflight, List.map_append, List.append_assoc] at htrail hhalts
  obtain ⟨c, hl, hl'⟩ := Trail.append_iff.mp htrail
  refine ⟨c, hl.transfer (fun fl _ b hb => hb) fun fl hmem => ?_, hl', hhalts.of_append⟩
  have hin : fl ∈ p.world.flight := hflight ▸ List.mem_append_left _ hmem
  exact (hp.leadsTo_retired hin (hfin fl hmem) (hs fl hmem)).symm

/-! ## What is renamed -/

/-- Nothing is known yet of an instruction that has just been renamed. -/
theorem Cycle.wentTo_renamed (hp : Reachable p) (hc : p.Cycle inp r d f)
    (hfl : r.commit.feedback.flush = false) (hb : r.bru.flush = false) {i : Flight}
    (hmem : i ∈ flights (p.world.released ++ releasedIds r.commit.retired).length r.rename.turns) :
    (p.act inp r d f).wentTo i = none := by
  have hq := hp.execution.held.2
  obtain ⟨g₀, hw⟩ := hp.execution.held.1.world.holds
  obtain ⟨g, hw'⟩ := (Reachable.cycle inp r d f hp hc).execution.held.1.world.holds
  have hlegal := (hq.pipe hc.execution).legal.cycle
  have hflight := act_flight hw hlegal hc.execution.core hfl
  have hfresh := cycle_fresh hw hlegal hc.execution.core hw' i hmem
    (hflight ▸ List.mem_append_right _ hmem)
  have hfin : ((p.act inp r d f).world.core.entry i).finish = false := hfresh.finish
  rw [wentTo, hfin, if_neg Bool.false_ne_true, hc.bruPort_eq hp hfl, Option.map_eq_none_iff,
    Option.filter_eq_none_iff]
  intro rev hrev hid
  obtain ⟨op, hop, rfl⟩ := Option.map_eq_some_iff.mp hrev
  -- the branch the unit works on stays, so that it has another cell
  obtain ⟨fl', hres⟩ := hc.resolving hp hop
  have hstays : fl' ∈ p.world.survivors r := by
    refine mem_survivors hw hc.execution.core hfl hres.flight ?_ ?_
    · show ¬ (p.world.core.entry fl').finish = true
      rw [hres.finish]
      exact Bool.false_ne_true
    · rw [FlushFeedback.squashes, hb]
      rfl
  have hsame : fl'.info.robId = i.info.robId := by
    rw [← congrArg (·.robId) hres.operation, ← beq_iff_eq.mp hid]
    exact (bruCompute_copied p.world.core.csrFile op).robId.symm
  have hnd := hw'.slots_nodup
  rw [show (p.act inp r d f).execution.pipe.world.flight = _ from hflight, List.map_append,
    List.nodup_append] at hnd
  exact hnd.2.2 _ (List.mem_map_of_mem hstays) _ (List.mem_map_of_mem hmem)
    (congrArg Ptr.id hsame)

/-- **Rename keeps the path.** -/
theorem Cycle.waypoints_renamed (hp : Reachable p) (hc : p.Cycle inp r d f)
    (hfl : r.commit.feedback.flush = false) (hb : r.bru.flush = false) :
    (flights (p.world.released ++ releasedIds r.commit.retired).length r.rename.turns).map
        (p.act inp r d f).waypoint
      = (p.decodeRename.take r.rename.turns.length).map FetchOpInfo.waypoint := by
  have hsends : List.Forall₂ (fun t q => t.1.Sends q.decoded) r.rename.turns
    (p.decodeRename.take r.rename.turns.length) := (hc.legal hp).renamed hc.execution.core
  have hnone := fun fl hmem => hc.wentTo_renamed hp hfl hb (i := fl) hmem
  generalize p.decodeRename.take r.rename.turns.length = l at hsends
  generalize r.rename.turns = turns at hsends hnone
  induction hsends with
  | nil => rfl
  | @cons t q turns l hsend _ ih =>
    refine List.cons_eq_cons.mpr ⟨?_, ih fun fl hmem => hnone fl (List.mem_cons_of_mem _ hmem)⟩
    obtain ⟨hpc, hfollow, hstops⟩ := hsend.waypoint
    have hwent := hnone _ (List.mem_cons_self ..)
    rw [waypoint, leadsTo, hwent, Option.getD_none, ite_self, FetchOpInfo.waypoint]
    rw [Waypoint.mk.injEq]
    exact ⟨hpc, hfollow, hstops⟩

end Processor

/-! ## A cycle -/

namespace Processor

variable {p : Processor} {inp : Input} {r : CycleResult} {d : Dispatch} {f : FrontResult}
  {pc c : Word}

theorem Cycle.upstream_flushed (hc : p.Cycle inp r d f)
    (hf : (p.machine.frontInput inp.machine r).flush = true) :
    (p.act inp r d f).upstream = [] :=
  Machine.upstream_flushed hc.fetch hf

theorem upstream_moved (hf : (p.machine.frontInput inp.machine r).flush = false) :
    (p.act inp r d f).upstream = p.decodeRename.drop r.rename.turns.length ++ p.fetch2Decode
      ++ (f.fetch2.pushed ++ f.next.pending) :=
  Machine.upstream_moved hf

/-- **After a flush of commit** nothing is left, and the path goes on where fetch is sent. -/
theorem Cycle.onPath_dropped (hc : p.Cycle inp r d f) (hfl : r.commit.feedback.flush = true)
    (htarget : r.commit.feedback.hasException = true
      ∨ (r.commit.feedback.jumpEnable = true ∧ r.commit.feedback.jump = true)) :
    (p.act inp r d f).OnPath r.commit.feedback.target := by
  have hf : (p.machine.frontInput inp.machine r).flush = true := by
    show (r.commit.feedback.flush || r.bru.flush || r.sau.flush) = true
    rw [hfl]
    rfl
  obtain ⟨hpc, -⟩ := cycle_commitFlush hc.fetch hfl fun _ => htarget
  have hflight : (p.act inp r d f).world.flight = [] := by
    show p.world.flightAfter r _ = []
    rw [World.flightAfter, if_pos hfl]
  have hpoints : (p.act inp r d f).waypoints = [] := by
    rw [waypoints, hflight, hc.upstream_flushed hf]
    rfl
  refine ⟨?_, ?_⟩
  · rw [hpoints]
    exact hpc
  · rw [hpoints]
    exact Halts.nil

/-- **After a flush of the branch unit** the path ends with the branch, and goes on where it has
turned out to go. -/
theorem Cycle.onPath_recovered (hp : Reachable p) (hc : p.Cycle inp r d f)
    (hb : r.bru.flush = true) {l l' : List Flight} (hflight : p.world.flight = l ++ l')
    (hret : r.commit.Retires p.world.core l)
    (htrail : Trail (fun s pc => s.pc = pc) Waypoint.goes c
      (l'.map p.waypoint ++ p.upstream.map FetchOpInfo.waypoint) p.fetch.front.fetch1.pc)
    (hhalts : Halts Waypoint.stops (l'.map p.waypoint ++ p.upstream.map FetchOpInfo.waypoint)
      p.fetch.front.fetch1.jumpWait) : (p.act inp r d f).OnPath c := by
  obtain ⟨g, hw⟩ := hp.execution.held.1.world.holds
  have hlegal := (hp.execution.held.2.pipe hc.execution).legal.cycle
  obtain ⟨rev, b, hrec⟩ := hc.recovers hp hb
  have hfl := hrec.commit
  have hf : (p.machine.frontInput inp.machine r).flush = true := by
    show (r.commit.feedback.flush || r.bru.flush || r.sau.flush) = true
    rw [hb, Bool.or_true, Bool.true_or]
  -- the branch is not finished, so that it is behind what retires
  have hbehind : b ∈ l' := by
    have hmem := hrec.resolving.flight
    rw [hflight] at hmem
    rcases List.mem_append.mp hmem with hmem | hmem
    · have hfin := hret.finished b hmem
      rw [hrec.resolving.finish] at hfin
      cases hfin
    · exact hmem
  obtain ⟨s, t, rfl⟩ := List.append_of_mem hbehind
  have hsurvivors : p.world.survivors r = s ++ [b] := by
    have hkept : (p.world.flight.filter fun i => !r.bru.squashes i.info.robId) = l ++ s ++ [b] := by
      rw [← hw.flight]
      have hwindow : g.flight = (l ++ s) ++ b :: t := by
        rw [hw.flight, hflight, List.append_assoc]
      exact hw.inv.filter_squashes hwindow hb hrec.robId
    have hold : ∀ i ∈ l, r.bru.squashes i.info.robId = false := by
      intro i hi
      have hmem : i ∈ p.world.flight.filter fun i => !r.bru.squashes i.info.robId := by
        rw [hkept, List.append_assoc]
        exact List.mem_append_left _ hi
      simpa using (List.mem_filter.mp hmem).2
    rw [World.survivors, hfl, hret.retired, List.length_map, hflight, List.drop_left]
    rw [hflight, List.filter_append, List.append_assoc] at hkept
    rw [List.filter_eq_self.mpr fun i hi => by rw [hold i hi]; rfl] at hkept
    exact List.append_cancel_left hkept
  have hturns : r.rename.turns = [] := by
    obtain ⟨s', -, hren⟩ := (Core.cycle_eq_some hc.execution.core).execute
    rw [hb, Bool.or_true, Bool.true_or] at hren
    exact ((renameRun_port hren).1 rfl).2
  have hflight' : (p.act inp r d f).world.flight = s ++ [b] := by
    rw [show (p.act inp r d f).world.flight = _ from act_flight hw hlegal hc.execution.core hfl,
      hsurvivors, hturns]
    exact List.append_nil _
  obtain ⟨hpc, -⟩ := cycle_bruFlush hc.fetch hfl hb
  rw [List.map_append, List.map_cons, List.append_assoc] at htrail hhalts
  obtain ⟨c', hs, hat, -⟩ := Trail.append_iff.mp htrail
  -- in front of the branch nothing has changed
  have hsame : s.map (p.act inp r d f).waypoint = s.map p.waypoint := by
    refine List.map_congr_left fun i hi => ?_
    have hi' : i ∈ p.world.survivors r := hsurvivors ▸ List.mem_append_left _ hi
    rw [waypoint, waypoint, hc.leadsTo_kept hp hfl hi' fun _ hid => ?_]
    have hnd := hw.slots_nodup
    rw [hflight, List.map_append, List.nodup_append, List.map_append, List.map_cons,
      List.nodup_append] at hnd
    refine hnd.2.1.2.2 _ (List.mem_map_of_mem hi) _ (List.mem_cons_self ..) ?_
    rw [← hid, hrec.robId]
  have hleads : (p.act inp r d f).leadsTo b = r.bru.nextPc := by
    have hb' : b ∈ p.world.survivors r := hsurvivors ▸ by simp
    rw [leadsTo, hrec.resolving.unit, hrec.hasCheckpoint,
      hc.wentTo_kept hp hfl hb' hrec.resolving.unit, hrec.resolving.wentTo, hrec.given,
      Option.filter_some, if_pos (beq_iff_eq.mpr (congrArg (·.robId) hrec.resolving.operation)),
      hrec.nextPc]
    rfl
  have hpoints : (p.act inp r d f).waypoints
      = s.map p.waypoint ++ [(p.act inp r d f).waypoint b] := by
    rw [waypoints, hflight', hc.upstream_flushed hf, List.map_append, hsame]
    exact List.append_nil _
  refine ⟨?_, ?_⟩
  · rw [hpoints]
    exact Trail.concat_iff.mpr ⟨c', hs, hat, hpc.trans hleads.symm⟩
  · rw [hpoints]
    refine Halts.of_none fun a ha => ?_
    rcases List.mem_append.mp ha with ha | ha
    · exact hhalts.before a ha
    · rw [List.mem_singleton.mp ha, waypoint, hp.checkpoint hrec.resolving.flight
        hrec.resolving.unit hrec.hasCheckpoint]
      exact Bool.and_false _

end Processor

/-! ## Fetch -/

/-- **Fetch goes on where the path has come to**, with a group or with nothing; a redirect of the
second level is a change of where a branch is predicted to go. -/
theorem FrontInv.onPath {w : FrontWorld} {finp : FrontInput} {fr : FrontResult} {l : List Waypoint}
    {c : Word} (hi : FrontInv w) (h : w.front.cycle finp = some fr) (hf : finp.flush = false)
    (hj : finp.commit.jumpEnable = false)
    (htrail : Trail (fun s pc => s.pc = pc) Waypoint.goes c
      (l ++ w.front.pending.map FetchOpInfo.waypoint) w.front.fetch1.pc)
    (hhalts : Halts Waypoint.stops (l ++ w.front.pending.map FetchOpInfo.waypoint)
      w.front.fetch1.jumpWait) :
    Trail (fun s pc => s.pc = pc) Waypoint.goes c
        (l ++ (fr.fetch2.pushed ++ fr.next.pending).map FetchOpInfo.waypoint) fr.next.fetch1.pc
      ∧ Halts Waypoint.stops (l ++ (fr.fetch2.pushed ++ fr.next.pending).map FetchOpInfo.waypoint)
        fr.next.fetch1.jumpWait := by
  have hstay : w.front.fetch1.resolve finp.commit = w.front.fetch1 := by
    rw [Fetch1.resolve, hj, Bool.and_false, if_neg Bool.false_ne_true]
  cases hredirect : fr.fetch2.feedback.pcRedirect with
  | false =>
    obtain ⟨st, new, hc, -⟩ := cycle_plain h hf hredirect
    obtain ⟨hwait, hgo⟩ := cycle_waits h hf hredirect
    have hgroup := hc.fetched.follows
    rw [hstay] at hgroup hwait
    rw [hc.handed] at hgo
    rw [hc.moved, List.map_append, ← List.append_assoc]
    constructor
    · refine htrail.append ?_
      have hgroup := hgroup.trail
      rw [← List.map_id new] at hgroup
      rw [hc.fetch1]
      refine hgroup.transfer ?_ ?_
      · exact fun q _ b hb => hb
      · exact fun q _ => rfl
    · cases hjw : w.front.fetch1.jumpWait with
      | true =>
        rw [hc.wait hjw, hwait hjw, List.map_nil, List.append_nil]
        exact hhalts
      | false =>
        rw [hjw] at hhalts
        exact hhalts.append (Halts.map_iff.mpr (hgo hjw)) fun hw => by cases hw
  | true =>
    obtain ⟨hb, pre, q, post, hport, -, hdiff, hmoved, hpc, -⟩ := cycle_redirect h hf hredirect
    have hpending : w.front.pending = pre ++ q :: post := by
      rw [Front.pending, hb, hport]
      rfl
    obtain ⟨hrecorded, hfollow⟩ := level2Change_follows hdiff
      (hi.about pre.length q (by rw [hport]; simp)) (hi.recorded q (by rw [hpending]; simp))
    rw [hpending, List.map_append, List.map_cons, ← List.append_assoc] at htrail hhalts
    rw [hmoved, List.map_append, List.map_singleton, ← List.append_assoc]
    obtain ⟨mid, hpre, hat, -⟩ := Trail.append_iff.mp htrail
    constructor
    · exact Trail.concat_iff.mpr ⟨mid, hpre, hat, hpc.trans hfollow.symm⟩
    · refine Halts.of_none fun a ha => ?_
      rcases List.mem_append.mp ha with ha | ha
      · exact hhalts.before a ha
      · -- what the second level changes is predicted
        simp only [level2Differs, Bool.and_eq_true] at hdiff
        have hpred : (level2Change w.front.predictors.biMode pre.length
          q).branchPredictorInfoPack.predicted = true := hdiff.1.1.1
        rw [List.mem_singleton.mp ha]
        show (_ && !_) = false
        rw [hpred]
        exact Bool.and_false _

namespace Processor

variable {p : Processor} {inp : Input} {r : CycleResult} {d : Dispatch} {f : FrontResult}
  {pc c : Word}

/-- **What a cycle without a flush has in the pipeline**: what has not retired, and what fetch
has added. -/
theorem Cycle.waypoints_moved (hp : Reachable p) (hc : p.Cycle inp r d f)
    (hfl : r.commit.feedback.flush = false) (hb : r.bru.flush = false) {l m : List Flight}
    (hflight : p.world.flight = l ++ m) (hret : r.commit.Retires p.world.core l) :
    (p.machine.frontInput inp.machine r).flush = false ∧ (p.act inp r d f).waypoints
      = m.map p.waypoint ++ (p.decodeRename ++ p.fetch2Decode).map FetchOpInfo.waypoint
        ++ (f.fetch2.pushed ++ f.next.pending).map FetchOpInfo.waypoint := by
  obtain ⟨g, hw⟩ := hp.execution.held.1.world.holds
  have hlegal := (hp.execution.held.2.pipe hc.execution).legal.cycle
  have hsau := ((Core.cycle_eq_some hc.execution.core).feedbacks hw).1
  have hf : (p.machine.frontInput inp.machine r).flush = false := by
    show (r.commit.feedback.flush || r.bru.flush || r.sau.flush) = false
    rw [hfl, hb, hsau]
    rfl
  have hsurvivors : p.world.survivors r = m := by
    rw [World.survivors, hfl, hret.retired, List.length_map, hflight, List.drop_left]
    refine List.filter_eq_self.mpr fun i _ => ?_
    rw [FlushFeedback.squashes, hb]
    rfl
  have hkept : m.map (p.act inp r d f).waypoint = m.map p.waypoint := by
    refine List.map_congr_left fun i hi => ?_
    rw [waypoint, waypoint, hc.leadsTo_kept hp hfl (hsurvivors ▸ hi) fun hflush => by
      rw [hb] at hflush
      cases hflush]
  have hrename : (p.decodeRename.take r.rename.turns.length).map FetchOpInfo.waypoint
      ++ (p.decodeRename.drop r.rename.turns.length).map FetchOpInfo.waypoint
      = p.decodeRename.map FetchOpInfo.waypoint := by
    rw [← List.map_append, List.take_append_drop]
  refine ⟨hf, ?_⟩
  rw [waypoints, show (p.act inp r d f).world.flight = _ from
    act_flight hw hlegal hc.execution.core hfl, hsurvivors, List.map_append, hkept,
    hc.waypoints_renamed hp hfl hb, upstream_moved hf]
  simp only [List.map_append, ← hrename, List.append_assoc]

/-- The path goes on in a cycle without a flush. -/
theorem Cycle.onPath_onward (hp : Reachable p) (hc : p.Cycle inp r d f)
    (hfl : r.commit.feedback.flush = false) (hb : r.bru.flush = false)
    (hj : r.commit.feedback.jumpEnable = false) {l l' : List Flight}
    (hflight : p.world.flight = l ++ l') (hret : r.commit.Retires p.world.core l)
    (htrail : Trail (fun s pc => s.pc = pc) Waypoint.goes c
      (l'.map p.waypoint ++ p.upstream.map FetchOpInfo.waypoint) p.fetch.front.fetch1.pc)
    (hhalts : Halts Waypoint.stops (l'.map p.waypoint ++ p.upstream.map FetchOpInfo.waypoint)
      p.fetch.front.fetch1.jumpWait) : (p.act inp r d f).OnPath c := by
  obtain ⟨hf, hpoints⟩ := hc.waypoints_moved hp hfl hb hflight hret
  rw [upstream, List.map_append, ← List.append_assoc] at htrail hhalts
  obtain ⟨htrail', hhalts'⟩ := (frontInv_reachable hp.machine.fetch).onPath hc.fetch hf hj htrail
    hhalts
  exact ⟨hpoints ▸ htrail', hpoints ▸ hhalts'⟩

/-- **The jump fetch waits for** is the last of the pipeline; when it retires, fetch goes on where
it goes. -/
theorem Cycle.onPath_jumped (hp : Reachable p) (hc : p.Cycle inp r d f) {l l' : List Flight}
    {b : Flight} (hon : p.OnPath pc) (hflight : p.world.flight = l ++ b :: l')
    (hret : r.commit.Retires p.world.core (l ++ [b])) (hfl : r.commit.feedback.flush = false)
    (hop : (p.world.core.entry b).bruOp = true)
    (hpred : (p.world.core.entry b).branchPredictorInfoPack.predicted = false)
    (hj : r.commit.feedback.jumpEnable = true)
    (hjump : r.commit.feedback.jump = (p.world.core.entry b).bruJump)
    (hnext : r.commit.feedback.jumpNextPc = if (p.world.core.entry b).bruJump then
      (p.world.core.entry b).bruNextPc else (p.world.core.entry b).pc + 4) :
    (p.act inp r d f).OnPath (p.world.core.entry b).bruNextPc := by
  obtain ⟨g, hw⟩ := hp.execution.held.1.world.holds
  have hmem : b ∈ p.world.flight := by rw [hflight]; simp
  obtain ⟨σ, htracks⟩ := hw.tracks hmem
  have hfin := hret.finished b (by simp)
  have hu : b.info.opUnit = .bru := beq_iff_eq.mp (htracks.bruOp.symm.trans hop)
  have hunpred : b.info.branchPredictorInfoPack.predicted = false := by
    rw [← hpred, show (p.world.core.entry b).branchPredictorInfoPack = _ from htracks.pack hfin,
      OpInfo.toIssue, if_neg (by rw [hu]; decide)]
  have hstops : (p.waypoint b).stops = true := by
    rw [waypoint, hu, hunpred]
    rfl
  -- nothing is behind it, and fetch waits
  have htrail := hon.trail
  have hhalts := hon.halts
  rw [waypoints, hflight, List.map_append, List.map_cons, List.append_assoc, List.cons_append]
    at htrail hhalts
  obtain ⟨hnil, hwait⟩ := hhalts.last hstops
  rw [List.append_eq_nil_iff, List.map_eq_nil_iff, List.map_eq_nil_iff] at hnil
  obtain ⟨hl', hup⟩ := hnil
  rw [upstream, List.append_eq_nil_iff, List.append_eq_nil_iff] at hup
  obtain ⟨⟨hdr, hf2d⟩, hpending⟩ := hup
  subst hl'
  have hb : r.bru.flush = false := by
    rw [Bool.eq_false_iff]
    intro hb
    obtain ⟨rev, fl, hrec⟩ := hc.recovers hp hb
    have hdone := hret.finished fl (hflight ▸ hrec.resolving.flight)
    rw [hrec.resolving.finish] at hdone
    cases hdone
  obtain ⟨hf, hpoints⟩ := hc.waypoints_moved hp hfl hb (l := l ++ [b]) (m := [])
    (by rw [hflight, List.append_nil]) hret
  have hredirect : f.fetch2.feedback.pcRedirect = false := by
    rw [Bool.eq_false_iff]
    intro hredirect
    obtain ⟨hbusy, pre, q, post, hport, -⟩ := cycle_redirect hc.fetch hf hredirect
    have hcons : p.fetch.front.pending = pre ++ q :: post := by
      rw [Front.pending, show p.fetch.front.fetch2.busy = false from hbusy,
        show p.fetch.front.port = _ from hport]
      rfl
    rw [hpending] at hcons
    simp at hcons
  obtain ⟨st, new, hplain, -⟩ := cycle_plain hc.fetch hf hredirect
  have hmoved : f.fetch2.pushed ++ f.next.pending = [] := by
    rw [hplain.moved, hplain.wait hwait]
    exact (List.append_nil _).trans hpending
  rw [hmoved, hdr, hf2d] at hpoints
  have hfetch1 := (cycle_waits hc.fetch hf hredirect).1 hwait
  have hpc : f.next.fetch1.pc = (p.world.core.entry b).bruNextPc := by
    rw [hfetch1, Fetch1.resolve]
    show (if p.fetch.front.fetch1.jumpWait && r.commit.feedback.jumpEnable then _
      else _ : Fetch1).pc = _
    rw [hwait, hj, Bool.and_self, if_pos rfl]
    show (if r.commit.feedback.jump then r.commit.feedback.jumpNextPc else p.fetch.front.fetch1.pc)
      = _
    rw [hjump, hnext]
    cases hgo : (p.world.core.entry b).bruJump with
    | true => rfl
    | false =>
      -- fetch has stopped behind a branch that turns out not to jump
      obtain ⟨c', -, -, hend⟩ := Trail.append_iff.mp htrail
      have hend : p.fetch.front.fetch1.pc = p.leadsTo b := by
        rw [upstream, hdr, hf2d, hpending] at hend
        exact hend
      have hck : b.info.hasCheckpoint = false := by
        rw [Bool.eq_false_iff]
        intro hck
        rw [hp.checkpoint hmem hu hck] at hunpred
        cases hunpred
      rw [if_neg Bool.false_ne_true, hend, leadsTo, hck, Bool.and_false,
        if_neg Bool.false_ne_true, DecodeRenamePack.followPc, hunpred,
        resolves_inline hu (hp.resolved b hmem hu hfin) hgo]
      rfl
  refine ⟨?_, ?_⟩
  · rw [hpoints]
    exact hpc
  · rw [hpoints]
    exact Halts.nil

end Processor

/-! ## A run -/

namespace Processor

variable {p : Processor} {inp : Input} {r : CycleResult} {d : Dispatch} {f : FrontResult}
  {pc : Word}

/-- **One cycle of the path**: what retires goes from where the path is to where it goes on. -/
theorem Cycle.onPath (hp : Reachable p) (hc : p.Cycle inp r d f) (h : p.OnPath pc) :
    ∃ pc', Trail LogEntry.At LogEntry.next pc (p.events r) pc' ∧ (p.act inp r d f).OnPath pc' := by
  obtain ⟨g, hw⟩ := hp.execution.held.1.world.holds
  have hplain : ∀ l : List Flight, (∀ i ∈ l, (p.world.core.entry i).bruOp = false) →
      ∀ i ∈ l, (p.world.core.entry i).settled = true := by
    intro l hno i hi
    rw [RobItem.settled, hno i hi]
    rfl
  cases cycle_steers hw hc.execution.core with
  | onward l l' hflight hret hfl hex hj hs =>
    obtain ⟨c, hl, htrail, hhalts⟩ := h.retires hp hflight hret.finished hs
    rw [events_retires hflight hret hex]
    refine ⟨c, hl, ?_⟩
    cases hb : r.bru.flush with
    | true => exact hc.onPath_recovered hp hb hflight hret htrail hhalts
    | false => exact hc.onPath_onward hp hfl hb hj hflight hret htrail hhalts
  | jumped l b l' hflight hret hfl hex hno hop hpred hj hjump hnext =>
    obtain ⟨c, hl, ⟨hat, -⟩, -⟩ := h.retires hp hflight
      (fun i hi => hret.finished i (List.mem_append_left _ hi)) (hplain l hno)
    rw [events_retires (m := l') (by rw [hflight, List.append_assoc]; rfl) hret hex,
      List.map_append]
    refine ⟨(p.world.core.entry b).bruNextPc, Trail.concat_iff.mpr ⟨c, hl, hat, ?_⟩,
      hc.onPath_jumped hp h hflight hret hfl hop hpred hj hjump hnext⟩
    rw [logged, LogEntry.next, if_pos hop]
  | late l b l' hflight hret hno hop hto =>
    obtain ⟨c, hl, ⟨hat, -⟩, -⟩ := h.retires hp hflight
      (fun i hi => hret.finished i (List.mem_append_left _ hi)) (hplain l hno)
    have hon := hc.onPath_dropped hto.flush (.inr ⟨hto.jumpEnable, hto.jump⟩)
    rw [CommitFeedback.target, hto.hasException, if_neg Bool.false_ne_true, hto.jumpNextPc] at hon
    rw [events_retires (m := l') (by rw [hflight, List.append_assoc]; rfl) hret hto.hasException,
      List.map_append]
    refine ⟨_, Trail.concat_iff.mpr ⟨c, hl, hat, ?_⟩, hon⟩
    rw [logged, LogEntry.next, if_pos hop]
  | conflict l b l' hflight hret hno hto =>
    obtain ⟨c, hl, ⟨hat, -⟩, -⟩ := h.retires hp hflight hret.finished (hplain l hno)
    have hon := hc.onPath_dropped hto.flush (.inr ⟨hto.jumpEnable, hto.jump⟩)
    rw [CommitFeedback.target, hto.hasException, if_neg Bool.false_ne_true, hto.jumpNextPc,
      hp.entry_pc b (by rw [hflight]; simp)] at hon
    rw [events_retires hflight hret hto.hasException]
    exact ⟨_, hl, hat ▸ hon⟩
  | exception l b l' hflight hret hno htrap =>
    obtain ⟨c, hl, ⟨hat, -⟩, -⟩ := h.retires hp hflight hret.finished (hplain l hno)
    have hon := hc.onPath_dropped htrap.flush (.inl htrap.hasException)
    rw [CommitFeedback.target, htrap.hasException, if_pos rfl] at hon
    rw [events_traps hflight hret htrap, hp.entry_pc b (by rw [hflight]; simp)]
    refine ⟨_, Trail.concat_iff.mpr ⟨c, hl, ?_, htrap.exceptionPc⟩, hon⟩
    exact congrArg savedPc hat
  | interrupt q rest hflight hfifo hret htrap =>
    have hon := hc.onPath_dropped htrap.flush (.inl htrap.hasException)
    rw [CommitFeedback.target, htrap.hasException, if_pos rfl] at hon
    rw [events_traps (l := []) (m := []) hflight hret htrap]
    refine ⟨_, ⟨?_, htrap.exceptionPc⟩, hon⟩
    -- rename has taken nothing of what decode has left for it
    have htrail := h.trail
    rw [hc.fifo] at hfifo
    obtain ⟨q', rest', hdr, rfl, -⟩ := List.map_eq_cons_iff.mp hfifo
    rw [waypoints, hflight, upstream, hdr] at htrail
    rw [LogEntry.At, FetchOpInfo.decoded, decode_pc]
    exact congrArg savedPc htrail.1

/-- **The path of a run.** What has retired, and the traps in between, lead from the first `pc` to
where the pipeline is: to its oldest instruction, or to where fetch goes on. -/
structure Precise (p : Processor) (pc : Word) : Prop where
  log : Trail LogEntry.At LogEntry.next initPc p.log pc
  sound : ∀ e ∈ p.log, e.Sound
  pipeline : p.OnPath pc

/-- The step and the run: a cycle takes the path on to where it has retired to. -/
theorem Reachable.precise (h : Reachable p) : ∃ pc, p.Precise pc := by
  induction h with
  | init => exact ⟨initPc, rfl, (fun e he => by cases he), rfl, Halts.nil⟩
  | cycle inp r d f hp hc ih =>
    obtain ⟨pc, hlog, hsound, hon⟩ := ih
    obtain ⟨pc', hevents, hon'⟩ := hc.onPath hp hon
    refine ⟨pc', hlog.append hevents, fun e he => ?_, hon'⟩
    rcases List.mem_append.mp he with he | he
    · exact hsound e he
    · exact hc.sound hp e he

/-- **Every run follows its path**: from the first `pc` through what has retired and the traps in
between to the oldest instruction in the pipeline, or to where fetch goes on. -/
theorem precise_reachable (h : Reachable p) :
    ∃ pc, Trail LogEntry.At LogEntry.next initPc p.log pc ∧ (∀ e ∈ p.log, e.Sound)
      ∧ p.OnPath pc := by
  obtain ⟨pc, hprecise⟩ := h.precise
  exact ⟨pc, hprecise.log, hprecise.sound, hprecise.pipeline⟩

/-- The addition has retired, and the trap has saved where the word behind it stands. -/
theorem precise_trapTaken : trapTaken.log.map LogEntry.pc = [0x80000000, 0x80000004]
    ∧ ∃ pc, Trail LogEntry.At LogEntry.next initPc trapTaken.log pc
      ∧ (∀ e ∈ trapTaken.log, e.Sound) ∧ trapTaken.OnPath pc :=
  ⟨by decide +kernel, precise_reachable trapTaken_reachable⟩

end Processor

end DreamCore
