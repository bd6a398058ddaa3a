import DreamCore.Backend.StoreParts

/-!
# Results in runs of the core and the LSU

The core joined with the LSU from its issue queue to its ports, with the load unit
that makes the queues replay, and with the integer queue that wakes what waits in the
other. The parts of the stores are what the two store units make of what the queue has
issued; the results of the other units and what the buses and the stores answer a load
are left open, and dispatch hands each instruction to the LSU queue once.

No result is lost in a run in which every cycle is kind to it in two ways. Of the
results that reach one entry together, the last says all that is new; and an address
that register read drops in a replay is one the queue takes back. The second fails when
an address goes out with the vector of a load the data waits for, and that load is
issued anew in the same cycle: then the store completes without its address.
-/

namespace DreamCore

open Ring

/-- The core, the LSU, and what a run remembers. -/
structure Reporting where
  world : World
  lsu : LsuPipe
  /-- The load unit. -/
  lu : LuState
  /-- The integer queue, and what is behind it. -/
  integer : IntegerPipe
  /-- Dispatch has handed the instruction of the slot to the queue of the LSU. -/
  handed : Nat → Bool
  /-- The results that have reached the slot since rename wrote it. -/
  reports : Nat → List ExecuteWbPack

/-- What the rest of the machine brings into a cycle. -/
structure ReportingInput where
  /-- The decoder, the other units and the bus. -/
  cycle : CycleInput := {}
  /-- The feedback of the units and dispatch, as either queue sees them. -/
  lsu : LsuIssueInput := {}
  integer : IntegerPipeInput := {}
  /-- What the bus shows the load in the second level of its unit. -/
  busValue : Option Word := none
  /-- What the two store buffers say of the load that enters the unit. -/
  feedback : Option (Word × Word) := some (0, 0)
  retiredFeedback : Word × Word := (0, 0)

namespace Reporting

/-- After reset. -/
def init : Reporting := ⟨World.init, {}, {}, {}, fun _ => false, fun _ => []⟩

/-- The core sees what the store units are given, and behind the results of the other units those
of the store units. -/
def coreInput (q : Reporting) (inp : ReportingInput) : CycleInput :=
  { inp.cycle with
    commit := { inp.cycle.commit with
      executeCommitPort := inp.cycle.commit.executeCommitPort ++ [q.lsu.sau, q.lsu.sdu] }
    sau := q.lsu.hdff .sau
    sdu := q.lsu.hdff .sdu }

/-- What the load unit does in the cycle. -/
def luResult (q : Reporting) (inp : ReportingInput) (r : CycleResult) : LuResult :=
  luRun q.lu
    { bru := r.bru
      sau := r.sau
      commitFlush := r.commit.feedback.flush
      rev := q.lsu.hdff .lu
      feedback := inp.feedback
      retiredFeedback := inp.retiredFeedback } inp.busValue

/-- The integer queue sees the flushes of the cycle, the load unit, and the register file. -/
def integerSees (q : Reporting) (inp : ReportingInput) (r : CycleResult) : IntegerPipeInput :=
  { inp.integer with
    bru := r.bru
    sau := r.sau
    lu := (q.luResult inp r).feedback
    commitFlush := r.commit.feedback.flush
    phyRegfile := q.world.core.phyRegfile }

/-- So does the LSU, which also sees what the integer queue wakes. -/
def lsuInput (q : Reporting) (inp : ReportingInput) (r : CycleResult) : LsuIssueInput :=
  { inp.lsu with
    bru := r.bru
    lu := (q.luResult inp r).feedback
    sau := r.sau
    commitFlush := r.commit.feedback.flush
    integer := q.integer.wakes (q.integerSees inp r)
    phyRegfile := q.world.core.phyRegfile }

/-- What the LSU queue wakes is seen by the integer queue. -/
def integerInput (q : Reporting) (inp : ReportingInput) (r : CycleResult) : IntegerPipeInput :=
  { q.integerSees inp r with lsu := q.lsu.wakes (q.lsuInput inp r) }

/-- After a cycle that has come to `r` in the core, to `lsu` in the LSU and to `integer` in the
integer pipeline. -/
def act (q : Reporting) (inp : ReportingInput) (r : CycleResult) (lsu : LsuPipe)
    (integer : IntegerPipe) : Reporting where
  world := q.world.act r
  lsu := lsu
  lu := (q.luResult inp r).next
  integer := integer
  handed slot :=
    if slot ∈ r.rename.turns.map fun t => t.1.robId.id then false
    else q.handed slot || q.lsu.hands inp.lsu slot
  reports slot :=
    if slot ∈ r.rename.turns.map fun t => t.1.robId.id then []
    else q.reports slot ++ resultsAt (q.coreInput inp).commit.executeCommitPort slot

/-- What a cycle can be asked to do. Only the LSU has results for a store. -/
structure Legal (q : Reporting) (inp : ReportingInput) : Prop where
  decoded : ∀ p ∈ inp.cycle.commit.decodeRenameFifo,
    ∃ rev : Fetch2DecodePack, rev.FetchOk ∧ p = decode rev
  results : ∀ rev ∈ inp.cycle.commit.executeCommitPort, rev.enable = true →
    ∃ f ∈ q.world.flight, ResultOf f.info rev ∧ f.info.opUnit ≠ .sdu
  bru : ∀ rev, inp.cycle.bru = some rev →
    ∃ f ∈ q.world.flight, OperandsOf f.info rev ∧ rev.opUnit = .bru
  lu : ∀ rev, inp.cycle.lu = some rev →
    ∃ f ∈ q.world.flight, OperandsOf f.info rev ∧ rev.opUnit = .lu
  pack : q.lsu.issue.busy = false → ∀ op ∈ enabled inp.lsu.pack, ∃ f ∈ q.world.flight,
    (f.info.opUnit = .lu ∨ f.info.opUnit = .sdu) ∧ q.handed f.info.robId.id = false ∧
      op = f.info.toIssue
  once : q.lsu.issue.busy = false → (enabled inp.lsu.pack).Pairwise fun a b => a.robId ≠ b.robId

/-- **Every entry in flight absorbs what reaches it in a cycle.** -/
def Absorbs (q : Reporting) (inp : ReportingInput) : Prop :=
  ∀ f ∈ q.world.flight, (q.world.core.rob.buffer f.info.robId.id).Absorbs
    (resultsAt (q.coreInput inp).commit.executeCommitPort f.info.robId.id)

/-- **A cycle in which no result is lost**, in the ROB or on the way there. -/
structure Safe (q : Reporting) (inp : ReportingInput) (r : CycleResult) : Prop where
  absorbs : q.Absorbs inp
  agrees : r.commit.feedback.flush = false → q.lsu.Agrees (q.lsuInput inp r)

/-- The states that runs from reset reach, when every cycle of the run meets `P`. -/
inductive Run (P : Reporting → ReportingInput → CycleResult → Prop) : Reporting → Prop where
  | init : Run P Reporting.init
  | cycle {q : Reporting} (inp : ReportingInput) (r : CycleResult) (lsu : LsuPipe)
      (integer : IntegerPipe) : Run P q → q.Legal inp → P q inp r →
      q.world.core.cycle (q.coreInput inp) = some r →
      q.lsu.cycle (q.lsuInput inp r) = some lsu →
      q.integer.cycle (q.integerInput inp r) = some integer → Run P (q.act inp r lsu integer)

/-- **The entry of `f` is what its results have made of it**, one after another. -/
structure Entered (q : Reporting) (f : Flight) : Prop where
  fresh : (f.after.rob.buffer f.info.robId.id).Fresh f.info
  entry : q.world.core.rob.buffer f.info.robId.id
    = (f.after.rob.buffer f.info.robId.id).applyAll (q.reports f.info.robId.id)
  finish : (q.world.core.rob.buffer f.info.robId.id).finish = true
    ↔ ∃ rev ∈ q.reports f.info.robId.id, rev.lastUop = true
  fault : (q.world.core.rob.buffer f.info.robId.id).fault
    = (f.after.rob.buffer f.info.robId.id).fault.or
      ((q.reports f.info.robId.id).findSome? ExecuteWbPack.fault)

/-- The record of the stores. -/
def record (q : Reporting) : StoreRecord := ⟨q.world.flight.map Flight.info, q.handed, q.reports⟩

/-- The two queues and register read keep pace with the load unit. -/
structure InStep (q : Reporting) : Prop where
  busy : q.lsu.readreg.busy = q.lu.l2Stall
  apart : q.lu.l2Stall = true → q.lu.l2LastLastStall = false
  paced : q.lsu.Paced q.lu.l2LastLastStall
  close : q.integer.issue.Close q.lu.l2Stall q.lu.l2LastLastStall

/-- The results say of every entry in flight what is in it, and the parts of the stores come in
their order. -/
structure Sound (q : Reporting) : Prop where
  entered : ∀ f ∈ q.world.flight, q.Entered f
  orderly : q.lsu.Orderly q.record
  inStep : q.InStep
  plain : ∀ f ∈ q.world.flight, f.info.opUnit = .lu ∨ f.info.opUnit = .sdu →
    f.info.valid = true ∧ f.info.hasException = false

variable {q : Reporting} {inp : ReportingInput} {cinp : CycleInput} {r : CycleResult}
  {lsu : LsuPipe} {integer : IntegerPipe} {g₀ g : Ghost}

/-! ## A cycle of the core -/

/-- The two equations about the entry follow from what it is. -/
theorem Entered.of_entry {f : Flight} (hfresh : (f.after.rob.buffer f.info.robId.id).Fresh f.info)
    (h : q.world.core.rob.buffer f.info.robId.id
      = (f.after.rob.buffer f.info.robId.id).applyAll (q.reports f.info.robId.id)) :
    q.Entered f where
  fresh := hfresh
  entry := h
  finish := by rw [h, RobItem.applyAll_finish, hfresh.finish, Bool.false_or, List.any_eq_true]
  fault := by rw [h, RobItem.applyAll_fault]

/-- **An instruction in flight after a cycle is new, or none of the new ones has its slot.** -/
theorem renamed_or_kept (hw : q.world.Holds g₀) (hl : cinp.Legal q.world)
    (h : q.world.core.cycle cinp = some r) (hnext : (q.world.act r).Holds g) {f : Flight}
    (hf : f ∈ (q.world.act r).flight) :
    (∃ t ∈ r.rename.turns, f.info = t.1 ∧ f.after = t.2) ∨
      (f ∈ q.world.flight ∧ r.bru.squashes f.info.robId = false ∧
        f.info.robId.id ∉ r.rename.turns.map fun t => t.1.robId.id) := by
  by_cases hslot : f.info.robId.id ∈ r.rename.turns.map fun t => t.1.robId.id
  · obtain ⟨t, ht, hid⟩ := List.mem_map.mp hslot
    obtain ⟨-, f', hf', hi, ha⟩ := mem_flight_of_turn hw hl h ht
    have hsame : f = f' := by
      refine List.inj_on_of_nodup_map hnext.slots_nodup hf hf' ?_
      rw [hi]
      exact hid.symm
    exact .inl ⟨t, ht, by rw [hsame]; exact hi, by rw [hsame]; exact ha⟩
  · simp only [World.act, World.flightAfter] at hf
    split at hf
    · cases hf
    · rcases List.mem_append.mp hf with hf | hf
      · obtain ⟨hdrop, hsq⟩ := List.mem_filter.mp hf
        rw [Bool.and_eq_true, Bool.not_eq_true'] at hsq
        exact .inr ⟨List.mem_of_mem_drop hdrop, hsq.1, hslot⟩
      · obtain ⟨t, ht, rfl⟩ := List.mem_map.mp hf
        exact absurd (List.mem_map_of_mem ht) hslot

/-- **What is not finished and not squashed stays in flight**, and keeps its slot. -/
theorem unfinished_kept (hw : q.world.Holds g₀) (h : q.world.core.cycle cinp = some r)
    (hnext : (q.world.act r).Holds g) (hfl : r.commit.feedback.flush = false) {f : Flight}
    (hf : f ∈ q.world.flight)
    (hfin : ¬ (q.world.core.rob.buffer f.info.robId.id).finish = true)
    (hbru : r.bru.squashes f.info.robId = false)
    (hsau : r.sau.squashesEqual f.info.robId = false) :
    f ∈ (q.world.act r).flight ∧ f.info.robId.id ∉ r.rename.turns.map fun t => t.1.robId.id := by
  have hdrop : f ∈ q.world.flight.drop r.commit.retired.length := by
    rw [← List.take_append_drop r.commit.retired.length q.world.flight] at hf
    exact (List.mem_append.mp hf).resolve_left fun htake => hfin (retired_plain hw h htake).1
  have hmem := List.mem_filter (p := fun f : Flight => !r.bru.squashes f.info.robId
    && !r.sau.squashesEqual f.info.robId).mpr ⟨hdrop, by rw [hbru, hsau]; rfl⟩
  have hslots := hnext.slots_nodup
  simp only [World.act, World.flightAfter, hfl, Bool.false_eq_true, if_false] at hslots ⊢
  refine ⟨List.mem_append_left _ hmem, fun hslot => ?_⟩
  rw [List.map_append, List.map_map] at hslots
  exact (List.disjoint_of_nodup_append hslots) (List.mem_map_of_mem hmem) hslot

/-- The entry of an instruction that has just been renamed. -/
theorem renamed_fresh (hw : q.world.Holds g₀) (hl : cinp.Legal q.world)
    (h : q.world.core.cycle cinp = some r) (hnext : (q.world.act r).Holds g) {t : OpInfo × Core}
    (ht : t ∈ r.rename.turns) : (r.next.rob.buffer t.1.robId.id).Fresh t.1 := by
  obtain ⟨hnf, -⟩ := mem_flight_of_turn hw hl h ht
  have hnew := List.mem_map_of_mem
    (f := fun t => (⟨t.1, t.2, (q.world.released ++ releasedIds r.commit.retired).length⟩ : Flight))
    ht
  refine cycle_fresh hw hl h hnext _ hnew ?_
  simp only [World.act, World.flightAfter, hnf, Bool.false_eq_true, if_false]
  exact List.mem_append_right _ hnew

/-- What the decoder sends to the LSU is valid, and has no exception. -/
theorem renamed_plain (hl : cinp.Legal q.world) (h : q.world.core.cycle cinp = some r)
    {t : OpInfo × Core} (ht : t ∈ r.rename.turns) (hu : t.1.opUnit = .lu ∨ t.1.opUnit = .sdu) :
    t.1.valid = true ∧ t.1.hasException = false := by
  obtain ⟨s, -, hren⟩ := (Core.cycle_eq_some h).execute
  obtain ⟨rev, hrev, hsends⟩ :=
    mem_left_of_forall₂ (renameRun_sends (fun p hp => (hl.shaped p hp).enable) hren) ht
  have hunit : t.1.opUnit = rev.opUnit := congrArg (·.opUnit) hsends
  have hvalid : t.1.valid = rev.valid := congrArg (·.valid) hsends
  have hex : t.1.hasException = rev.hasException := congrArg (·.hasException) hsends
  rw [hvalid, hex]
  refine (hl.shaped rev (List.mem_of_mem_take hrev)).lsu ?_
  rw [← hunit]
  rcases hu with hu | hu <;> rw [hu] <;> rfl

/-! ## A cycle of the core and the LSU -/

/-- The result of a store is that of an instruction in flight. -/
theorem partResult_resultOf {info : OpInfo} {rev : ExecuteWbPack} (h : info.PartResult rev)
    (hu : info.opUnit = .sdu) : ResultOf info rev := by
  have hpack : info.toIssue.branchPredictorInfoPack = {} := by
    simp [OpInfo.toIssue, hu, OpUnit.isLsu, OpInfo.toLsu]
  cases h with
  | address op hop _ _ _ =>
    have hsame := LsuPipe.sauCompute_samePart op
    refine ⟨hsame.robId.trans hop.robId, ?_, ?_⟩
    · rw [hpack]
      unfold sauCompute
      dsimp only
      split <;> rfl
    · rw [hsame.opUnit]
      exact hop.bru
  | data op hop _ _ _ => exact ⟨hop.robId, by rw [hpack]; rfl, hop.bru⟩

/-- **The core is given what it can be given.** -/
theorem Sound.core_legal (hq : q.Sound) (hl : q.Legal inp) :
    (q.coreInput inp).Legal q.world := by
  have hflight {info : OpInfo} {robId : Ptr} (hi : q.record.Handed info robId) :
      ∃ f ∈ q.world.flight, f.info = info := List.mem_map.mp hi.flight
  have hunit : ∀ unit pack, (unit = .sau ∨ unit = .sdu) → q.lsu.hdff unit = some pack →
      LsuReadreg.unitOf pack.opUnit = some unit ∧ ∃ f ∈ q.world.flight, OperandsOf f.info pack := by
    intro unit pack hunit hpack
    obtain ⟨hu, -, info, hi, hsplits⟩ := hq.orderly.sourced.handshake unit pack hunit hpack
    obtain ⟨f, hf, rfl⟩ := hflight hi
    exact ⟨hu, f, hf, hsplits.operands hi.unit⟩
  refine ⟨hl.decoded, fun rev hrev hen => ?_, hl.bru, fun rev hrev => ?_, fun rev hrev => ?_, hl.lu⟩
  · rcases List.mem_append.mp hrev with hrev | hrev
    · obtain ⟨f, hf, hres, -⟩ := hl.results rev hrev hen
      exact ⟨f, hf, hres⟩
    · obtain ⟨info, hi, hres⟩ := hq.orderly.sourced.port rev (by simpa using hrev) hen
      obtain ⟨f, hf, rfl⟩ := hflight hi
      exact ⟨f, hf, partResult_resultOf hres hi.unit⟩
  · obtain ⟨hu, f, hf, hop⟩ := hunit .sau rev (.inl rfl) hrev
    exact ⟨f, hf, hop, LsuPipe.unitOf_eq_sau hu⟩
  · obtain ⟨hu, f, hf, hop⟩ := hunit .sdu rev (.inr rfl) hrev
    exact ⟨f, hf, hop, LsuPipe.unitOf_eq_sdu hu⟩

/-- What reaches a store in a cycle is what stands in the ports of its units. -/
theorem resultsAt_store (hw : q.world.Holds g₀) (hl : q.Legal inp) {f : Flight}
    (hf : f ∈ q.world.flight) (hu : f.info.opUnit = .sdu) :
    resultsAt (q.coreInput inp).commit.executeCommitPort f.info.robId.id
      = resultsAt [q.lsu.sau, q.lsu.sdu] f.info.robId.id := by
  have hnone : resultsAt inp.cycle.commit.executeCommitPort f.info.robId.id = [] := by
    refine List.filter_eq_nil_iff.mpr fun rev hrev hat => ?_
    rw [Bool.and_eq_true, beq_iff_eq] at hat
    obtain ⟨f', hf', hres, hne⟩ := hl.results rev hrev hat.1
    have hsame : f' = f :=
      List.inj_on_of_nodup_map hw.slots_nodup hf' hf (by rw [← hres.robId]; exact hat.2)
    exact hne (hsame ▸ hu)
  rw [resultsAt, coreInput, List.filter_append, ← resultsAt, ← resultsAt, hnone, List.nil_append]

/-- **The core does in a cycle what the stores rely on.** -/
theorem Sound.passes (hq : q.Sound) (integer : IntegerPipe) (hw : q.world.Holds g₀)
    (hl : q.Legal inp) (hs : q.Safe inp r) (h : q.world.core.cycle (q.coreInput inp) = some r)
    (hlsu : q.lsu.cycle (q.lsuInput inp r) = some lsu)
    (hnext : (q.world.act r).Holds g) (hfl : r.commit.feedback.flush = false) :
    q.lsu.Passes (q.lsuInput inp r) lsu q.record (q.act inp r lsu integer).record := by
  have hsau := ((Core.cycle_eq_some h).feedbacks hw).1
  have hequal (robId : Ptr) : r.sau.squashesEqual robId = false := by
    rw [FlushFeedback.squashesEqual, hsau]
    rfl
  have hsquash (robId : Ptr) :
      (q.lsuInput inp r).squashes robId = r.bru.squashes robId := by
    change (r.bru.squashes robId || r.sau.squashesEqual robId) = _
    rw [hequal, Bool.or_false]
  have hcarried {f : Flight} (hf : f ∈ q.world.flight) (hu : f.info.opUnit = .sdu)
      (hbru : r.bru.squashes f.info.robId = false)
      (hslot : f.info.robId.id ∉ r.rename.turns.map fun t => t.1.robId.id) :
      q.lsu.Carried (q.lsuInput inp r) q.record (q.act inp r lsu integer).record f.info.robId := by
    refine ⟨(hsquash _).trans hbru, if_neg hslot, ?_⟩
    rw [← resultsAt_store hw hl hf hu]
    exact if_neg hslot
  refine ⟨hlsu, hfl, hsau, hs.agrees hfl, ⟨_, hq.inStep.paced⟩, fun a ha b hb hid => ?_,
    fun hbusy op hop => ?_, hl.once, fun info hinfo hu => ?_, fun info hinfo hu hkeep hlast => ?_⟩
  · obtain ⟨f, hf, rfl⟩ := List.mem_map.mp ha
    obtain ⟨f', hf', rfl⟩ := List.mem_map.mp hb
    rw [List.inj_on_of_nodup_map hw.slots_nodup hf hf' hid]
  · obtain ⟨f, hf, hlsuOp, hno, rfl⟩ := hl.pack hbusy op hop
    obtain ⟨hvalid, hplain⟩ := hq.plain f hf hlsuOp
    refine ⟨⟨?_, ?_, ?_⟩, fun hu => ⟨f.info, List.mem_map_of_mem hf, ?_, hno, rfl⟩⟩
    · rw [OpInfo.toIssue_opUnit]
      exact hlsuOp
    · rw [OpInfo.toIssue_valid]
      exact hvalid
    · rw [OpInfo.toIssue_hasException]
      exact hplain
    · rw [OpInfo.toIssue_opUnit] at hu
      exact hu
  · obtain ⟨f, hf, rfl⟩ := List.mem_map.mp hinfo
    rcases renamed_or_kept hw (hq.core_legal hl) h hnext hf with ⟨t, ht, hi, -⟩ | ⟨hold, hbru, hslot⟩
    · have hslot : f.info.robId.id ∈ r.rename.turns.map fun t => t.1.robId.id :=
        List.mem_map.mpr ⟨t, ht, by rw [hi]⟩
      exact .inr ⟨if_pos hslot, if_pos hslot⟩
    · exact .inl ⟨List.mem_map_of_mem hold, hcarried hold hu hbru hslot⟩
  · obtain ⟨f, hf, rfl⟩ := List.mem_map.mp hinfo
    have hbru := (hsquash _).symm.trans hkeep
    have hfin : ¬ (q.world.core.rob.buffer f.info.robId.id).finish = true := fun hfin => by
      obtain ⟨rev, hrev, hl⟩ := (hq.entered f hf).finish.mp hfin
      rw [hlast rev hrev] at hl
      cases hl
    obtain ⟨hmem, hslot⟩ := unfinished_kept hw h hnext hfl hf hfin hbru (hequal _)
    exact ⟨List.mem_map_of_mem hmem, hcarried hf hu hbru hslot⟩

/-- **A cycle keeps pace.** -/
theorem Sound.inStep_next (hq : q.Sound) (hw : q.world.Holds g₀) (hl : q.Legal inp)
    (hs : q.Safe inp r) (h : q.world.core.cycle (q.coreInput inp) = some r)
    (hlsu : q.lsu.cycle (q.lsuInput inp r) = some lsu)
    (hinteger : q.integer.cycle (q.integerInput inp r) = some integer)
    (hnext : (q.world.act r).Holds g) : (q.act inp r lsu integer).InStep := by
  obtain ⟨hbusy, hapart, hpaced, hclose⟩ := hq.inStep
  have hstall : (q.luResult inp r).next.l2Stall = (q.lsuInput inp r).lu.stall := luRun_stalls
  have hlate : (q.luResult inp r).next.l2LastLastStall
      = (!(q.lsuInput inp r).lu.stall && q.lsu.readreg.busy) := by
    rw [hbusy]
    exact luRun_late
  have happart : (q.luResult inp r).next.l2Stall = true →
      (q.luResult inp r).next.l2LastLastStall = false := fun hs => by
    rw [hlate, ← hstall, hs]
    rfl
  cases hfl : r.commit.feedback.flush with
  | false =>
    have hlu : (q.lsuInput inp r).lu.Paced q.lsu.readreg.busy q.lu.l2LastLastStall := by
      rw [hbusy]
      exact luRun_paced hapart _ _
    have hqueue := (hq.orderly.turn
      (hq.passes integer hw hl hs h hlsu hnext hfl)).queue
    refine ⟨(LsuPipe.cycle_busy hlsu hfl).trans hstall.symm, happart, ?_, ?_⟩
    · change lsu.Paced (q.luResult inp r).next.l2LastLastStall
      rw [hlate]
      exact hpaced.next hlsu hfl hqueue hlu (IntegerPipe.wakes_close hclose)
    · change integer.issue.Close (q.luResult inp r).next.l2Stall
        (q.luResult inp r).next.l2LastLastStall
      rw [hstall, hlate]
      rw [← hbusy] at hclose
      exact IntegerPipe.cycle_close hclose hinteger hfl hlu (hpaced.wakes hqueue)
  | true =>
    -- the load unit does not stall, and nothing is left in the queue
    have hempty := LsuPipe.cycle_flushed hlsu hfl
    refine ⟨?_, happart, fun j hv => ?_, IntegerPipe.cycle_flushed hinteger hfl⟩
    · refine hempty.busy.trans (Eq.symm ?_)
      change (luRun q.lu _ inp.busValue).next.l2Stall = false
      rw [luRun_stalls, luStalls, luAlive, LuInput.squashes, hfl]
      simp
    · change lsu.issue.valid j = true at hv
      rw [hempty.slot j] at hv
      cases hv

/-- **A safe cycle keeps the results sound.** -/
theorem Sound.step (hq : q.Sound) (hw : q.world.Holds g₀) (hl : q.Legal inp) (hs : q.Safe inp r)
    (h : q.world.core.cycle (q.coreInput inp) = some r)
    (hlsu : q.lsu.cycle (q.lsuInput inp r) = some lsu)
    (hinteger : q.integer.cycle (q.integerInput inp r) = some integer)
    (hnext : (q.world.act r).Holds g) : (q.act inp r lsu integer).Sound := by
  have hlc := hq.core_legal hl
  refine ⟨fun f hf => ?_, ?_, hq.inStep_next hw hl hs h hlsu hinteger hnext, fun f hf hu => ?_⟩
  · rcases renamed_or_kept hw hlc h hnext hf with ⟨t, ht, hi, ha⟩ | ⟨hold, -, hslot⟩
    · have hslot : f.info.robId.id ∈ r.rename.turns.map fun t => t.1.robId.id :=
        List.mem_map.mpr ⟨t, ht, by rw [hi]⟩
      have hreports : (q.act inp r lsu integer).reports f.info.robId.id = [] := if_pos hslot
      have hcell : r.next.rob.buffer f.info.robId.id = f.after.rob.buffer f.info.robId.id := by
        rw [hi, ha]
        exact cycle_recorded hw hlc h hnext ht
      have hfresh : (r.next.rob.buffer f.info.robId.id).Fresh f.info := by
        rw [hi]
        exact renamed_fresh hw hlc h hnext ht
      refine .of_entry (hcell ▸ hfresh) ?_
      rw [hreports]
      exact hcell
    · have he := hq.entered f hold
      have hreports : (q.act inp r lsu integer).reports f.info.robId.id = q.reports f.info.robId.id
          ++ resultsAt (q.coreInput inp).commit.executeCommitPort f.info.robId.id := if_neg hslot
      refine .of_entry he.fresh ?_
      rw [hreports]
      have hcell : r.next.rob.buffer f.info.robId.id
          = q.world.core.merged (q.coreInput inp).commit.executeCommitPort f.info.robId.id := by
        cases cycle_survives hw hlc h hnext f hf with
        | kept _ _ hc => exact hc
        | renamed t ht hi _ => exact absurd (List.mem_map.mpr ⟨t, ht, by rw [hi]⟩) hslot
      change r.next.rob.buffer f.info.robId.id = _
      rw [hcell, Core.merged_applyAll (hs.absorbs f hold), he.entry]
      exact (List.foldl_append ..).symm
  · cases hfl : r.commit.feedback.flush with
    | false => exact hq.orderly.next (hq.passes integer hw hl hs h hlsu hnext hfl)
    | true =>
      refine (LsuPipe.cycle_flushed hlsu hfl).orderly ?_
      simp [record, act, World.act, World.flightAfter, hfl]
  · rcases renamed_or_kept hw hlc h hnext hf with ⟨t, ht, hi, -⟩ | ⟨hold, -, -⟩
    · rw [hi] at hu ⊢
      exact renamed_plain hlc h ht hu
    · exact hq.plain f hold hu

theorem sound_init : Reporting.init.Sound where
  entered := by simp [Reporting.init, World.init]
  orderly := LsuPipe.empty_init.orderly rfl
  inStep := by
    refine ⟨rfl, fun _ => rfl, fun j hv => ?_, fun j hv => ?_⟩ <;> cases hv
  plain := by simp [Reporting.init, World.init]

/-- **The results are sound in every run of safe cycles.** -/
theorem sound_reachable (h : Run Safe q) : Reachable q.world ∧ q.Sound := by
  induction h with
  | init => exact ⟨.init, sound_init⟩
  | cycle inp r lsu integer hrun hl hs hr hlsu hinteger ih =>
    obtain ⟨hw, hq⟩ := ih
    have hlc := hq.core_legal hl
    have hnext := DreamCore.Run.cycle _ r hw hlc trivial hr
    obtain ⟨g₀, hholds⟩ := Reachable.holds hw
    obtain ⟨g, hholds'⟩ := Reachable.holds hnext
    exact ⟨hnext, hq.step hholds hl hs hr hlsu hinteger hholds'⟩

/-! ## Stores with a misaligned address -/

/-- The address part of a store has been reported, and its address does not fit its size. -/
def Misaligned (q : Reporting) (f : Flight) : Prop :=
  ∃ part ∈ q.reports f.info.robId.id, part.opUnit = .sau ∧ part.misaligned = true

/-- **A store with a misaligned address goes no further than the front of the ROB**: it is not
finished before its address part has come, at the front it raises its exception, and no such store
retires. The retired store buffer takes nothing but the store that retires as the oldest
instruction. -/
structure KeepsOut (q : Reporting) (r : CycleResult) : Prop where
  addressed : ∀ f ∈ q.world.flight, f.info.takesStoreBuffer = true →
    (q.world.core.rob.buffer f.info.robId.id).finish = true →
    ∃ part ∈ q.reports f.info.robId.id, part.opUnit = .sau
  raises : ∀ f rest, q.world.flight = f :: rest → f.info.takesStoreBuffer = true →
    q.Misaligned f → (q.world.core.rob.buffer f.info.robId.id).finish = true →
    r.commit.feedback.hasException = true ∧ r.commit.retired = [] ∧
      ∃ part ∈ q.reports f.info.robId.id, part.opUnit = .sau ∧ part.misaligned = true
        ∧ r.commit.new.csrFile = ((q.world.core.csrFile.writeSys csrMepc
          (q.world.core.rob.buffer f.info.robId.id).pc).writeSys csrMtval
            part.effectiveAddr).writeSys csrMcause RiscvException.storeAmoAddressMisaligned.toWord
  retires : ∀ f ∈ q.world.flight.take r.commit.retired.length, f.info.takesStoreBuffer = true →
    ¬ q.Misaligned f
  enters : r.commit.new.retiredStoreBuffer ≠ q.world.core.retiredStoreBuffer →
    ∃ f rest, q.world.flight = f :: rest ∧ f.info.takesStoreBuffer = true
      ∧ 0 < r.commit.retired.length

/-- What the address unit copies. -/
theorem sauCompute_copies (op : ReadregExecutePack) : (sauCompute op).opUnit = op.opUnit
    ∧ (sauCompute op).effectiveAddr = op.effectiveAddr
    ∧ (sauCompute op).misaligned = op.misaligned := by
  unfold sauCompute
  dsimp only
  split <;> exact ⟨rfl, rfl, rfl⟩

/-- What the address unit reports. -/
theorem sauCompute_reports {op : ReadregExecutePack} (hen : op.enable = true)
    (hex : op.hasException = false) : (sauCompute op).hasException = op.misaligned
      ∧ (sauCompute op).exceptionValue = op.effectiveAddr
      ∧ (op.misaligned = true → (sauCompute op).exceptionId = .storeAmoAddressMisaligned) := by
  unfold sauCompute
  dsimp only
  rw [hen, hex, if_pos (by rfl)]
  refine ⟨rfl, rfl, fun hm => if_neg ?_⟩
  simpa [ReadregExecutePack.misaligned] using hm

/-- **What the two parts say about an exception.** -/
theorem part_fault {info : OpInfo} {rev : ExecuteWbPack} (h : info.PartResult rev)
    (hinfo : info.hasException = false) :
    rev.fault = if rev.opUnit = .sau ∧ rev.misaligned = true then
      some (.storeAmoAddressMisaligned, rev.effectiveAddr) else none := by
  cases h with
  | address op _ hu hen hex =>
    rw [hinfo] at hex
    obtain ⟨hunit, haddr, hmis⟩ := sauCompute_copies op
    obtain ⟨hraise, hvalue, hid⟩ := sauCompute_reports hen hex
    rw [hunit, haddr, hmis, ExecuteWbPack.fault, hraise, hvalue]
    cases hm : op.misaligned with
    | false => simp
    | true =>
      rw [hid hm, if_pos rfl, if_pos ⟨hu, rfl⟩]
  | data op _ hu _ hex =>
    rw [hinfo] at hex
    have hsdu : (sduCompute op).opUnit = .sdu := hu
    rw [if_neg (by rw [hsdu]; simp)]
    unfold sduCompute ExecuteWbPack.fault ExecuteWbPack.copy
    rw [hex]
    rfl

theorem Sound.hasException (hq : q.Sound) {f : Flight} (hf : f ∈ q.world.flight)
    (hu : f.info.opUnit = .sdu) : f.info.hasException = false := (hq.plain f hf (.inr hu)).2

/-- What has been reported of the parts of a store. -/
theorem Sound.results (hq : q.Sound) {f : Flight} (hf : f ∈ q.world.flight)
    (hu : f.info.opUnit = .sdu) : ∀ rev ∈ q.reports f.info.robId.id, f.info.PartResult rev :=
  hq.orderly.results f.info (List.mem_map_of_mem hf) hu

/-- **A store whose last part has been reported** has reported its address. -/
theorem Sound.whole (hq : q.Sound) {f : Flight} (hf : f ∈ q.world.flight)
    (hu : f.info.opUnit = .sdu) {rev : ExecuteWbPack} (hrev : rev ∈ q.reports f.info.robId.id)
    (hlast : rev.lastUop = true) : ∃ part ∈ q.reports f.info.robId.id, part.opUnit = .sau := by
  have hat : q.lsu.PartAt (q.reports f.info.robId.id) f.info.robId 3 rev.toOpInfo :=
    ⟨List.mem_map_of_mem hrev, (hq.results hf hu rev hrev).isPart⟩
  obtain ⟨n, op, hn, ⟨hop, -⟩, hsau⟩ :=
    (hq.orderly.ordered f.info (List.mem_map_of_mem hf) hu).first 3 rev.toOpInfo hat hlast
  match n with
  | 3 =>
    obtain ⟨part, hpart, rfl⟩ := List.mem_map.mp hop
    exact ⟨part, hpart, hsau⟩
  | n + 4 => cases hop
  | 0 | 1 | 2 => omega

/-- **The exceptions among the reports of a store** are those of its misaligned address parts. -/
theorem Sound.findSome?_fault (hq : q.Sound) {f : Flight} (hf : f ∈ q.world.flight)
    (hu : f.info.opUnit = .sdu) {x : RiscvException × Word}
    (hx : (q.reports f.info.robId.id).findSome? ExecuteWbPack.fault = some x) :
    ∃ part ∈ q.reports f.info.robId.id, part.opUnit = .sau ∧ part.misaligned = true
      ∧ x = (.storeAmoAddressMisaligned, part.effectiveAddr) := by
  obtain ⟨part, hpart, hfault⟩ := List.exists_of_findSome?_eq_some hx
  rw [part_fault (hq.results hf hu part hpart) (hq.hasException hf hu)] at hfault
  split at hfault
  · rename_i hm
    exact ⟨part, hpart, hm.1, hm.2, (Option.some.inj hfault).symm⟩
  · cases hfault

/-- **A misaligned address part leaves its exception in the entry.** -/
theorem Sound.store_exception (hq : q.Sound) {f : Flight} (hf : f ∈ q.world.flight)
    (hu : f.info.opUnit = .sdu) (hm : q.Misaligned f) :
    ∃ part ∈ q.reports f.info.robId.id, part.opUnit = .sau ∧ part.misaligned = true
      ∧ (q.world.core.rob.buffer f.info.robId.id).hasException = true
      ∧ (q.world.core.rob.buffer f.info.robId.id).exceptionId = .storeAmoAddressMisaligned
      ∧ (q.world.core.rob.buffer f.info.robId.id).exceptionValue = part.effectiveAddr := by
  have he := hq.entered f hf
  have hnone : (f.after.rob.buffer f.info.robId.id).fault = none := by
    rw [RobItem.fault, he.fresh.hasException, hq.hasException hf hu]
    rfl
  have hfault := he.fault
  rw [hnone, Option.none_or] at hfault
  cases hx : (q.reports f.info.robId.id).findSome? ExecuteWbPack.fault with
  | none =>
    obtain ⟨part, hpart, hsau, hmis⟩ := hm
    have hno := List.findSome?_eq_none_iff.mp hx part hpart
    rw [part_fault (hq.results hf hu part hpart) (hq.hasException hf hu),
      if_pos ⟨hsau, hmis⟩] at hno
    cases hno
  | some x =>
    obtain ⟨part, hpart, hsau, hmis, rfl⟩ := hq.findSome?_fault hf hu hx
    rw [hx, RobItem.fault] at hfault
    split at hfault
    · rename_i hex
      rw [Option.some.injEq, Prod.mk.injEq] at hfault
      exact ⟨part, hpart, hsau, hmis, hex, hfault.1, hfault.2⟩
    · cases hfault

/-- What has an entry in the store buffer is for the data unit. -/
theorem opUnit_of_takesStoreBuffer {f : Flight} (hs : f.info.takesStoreBuffer = true) :
    f.info.opUnit = .sdu := by
  simp only [DecodeRenamePack.takesStoreBuffer, Bool.and_eq_true, beq_iff_eq] at hs
  tauto

/-- The early run leaves the CSRs alone. -/
theorem early_csrFile (cur : Core) (inp : CycleInput) : (inp.early cur).csrFile = cur.csrFile := by
  unfold CycleInput.early
  cases inp.sau with
  | none => rfl
  | some rev =>
    simp only [Option.map_some, Option.getD_some, sauWrite]
    split
    · split <;> rfl
    · rfl

/-- **With sound results a misaligned store is kept out.** -/
theorem Sound.keepsOut (hq : q.Sound) (hw : q.world.Holds g)
    (h : q.world.core.cycle cinp = some r) : q.KeepsOut r where
  addressed := by
    intro f hf hs hfin
    obtain ⟨rev, hrev, hlast⟩ := (hq.entered f hf).finish.mp hfin
    exact hq.whole hf (opUnit_of_takesStoreBuffer hs) hrev hlast
  raises := by
    intro f rest hf hs hm hfin
    have hmem : f ∈ q.world.flight := by
      rw [hf]
      exact List.mem_cons_self ..
    obtain ⟨part, hpart, hu, hmis, hex, hid, hvalue⟩ := hq.store_exception hmem (opUnit_of_takesStoreBuffer hs) hm
    have hfront := hw.front (early_sameWindow q.world.core cinp)
    rw [hf, List.head?_cons, Option.map_some] at hfront
    obtain ⟨hfb, hret, hcsr⟩ := commitRun_raises hfront hfin hex (Core.cycle_eq_some h).commit
    refine ⟨hfb, hret, part, hpart, hu, hmis, ?_⟩
    rw [hcsr, hid, hvalue, early_csrFile]
  retires := by
    intro f hf hs hm
    obtain ⟨-, hex⟩ := retired_plain hw h hf
    obtain ⟨-, -, -, -, hexc, -⟩ :=
      hq.store_exception (List.mem_of_mem_take hf) (opUnit_of_takesStoreBuffer hs) hm
    rw [hexc] at hex
    cases hex
  enters := by
    intro hne
    obtain ⟨-, hrsb⟩ := early_waits q.world.core cinp
    cases cycle_storeEffect hw h with
    | quiet _ hs _ => exact absurd (hs.retired.trans hrsb) hne
    | asked _ _ _ _ _ _ _ hnew _ => exact absurd (hnew.trans hrsb) hne
    | waits _ _ _ _ hs => exact absurd (hs.retired.trans hrsb) hne
    | answered _ _ _ _ _ _ _ _ hnew _ => exact absurd (hnew.trans hrsb) hne
    | failed _ _ _ _ hnew _ => exact absurd (hnew.trans hrsb) hne
    | pushed id item l ring hret _ hv _ _ _ _ _ _ _ =>
      have hslots := retired_slots hw h
      rw [hret] at hslots
      cases hf : q.world.flight with
      | nil =>
        rw [hf] at hslots
        simp at hslots
      | cons f rest =>
        rw [hf, List.length_cons, List.take_succ_cons, List.map_cons, List.map_cons] at hslots
        have hmem : f ∈ q.world.flight := by
          rw [hf]
          exact List.mem_cons_self ..
        obtain ⟨hitem, -⟩ := commitRun_plain (Core.cycle_eq_some h).commit (id, item)
          (by rw [hret]; exact List.mem_cons_self ..)
        obtain ⟨σ, ht⟩ := hw.tracks hmem
        refine ⟨f, rest, rfl, ?_, by rw [hret]; exact Nat.succ_pos _⟩
        rw [← ht.storeBuffer, ← (List.cons.inj hslots).1, ← hitem]
        exact hv

/-- **No result is lost** in a run of safe cycles: an entry is what its results make of it one after
another, and a store with a misaligned address is kept out. -/
theorem results_kept (h : Run Safe q) : (∀ f ∈ q.world.flight, q.Entered f)
    ∧ ∀ inp r, q.world.core.cycle inp = some r → q.KeepsOut r := by
  obtain ⟨hw, hq⟩ := sound_reachable h
  obtain ⟨g, hw⟩ := hw.holds
  exact ⟨hq.entered, fun inp r hr => hq.keepsOut hw hr⟩

/-! ## Programs -/

/-- A cycle of a program: what is fetched, each instruction with its pc, and what the rest of the
machine does. -/
structure Beat where
  code : List (Word × Word) := []
  /-- The pcs of what dispatch hands to the integer queue. -/
  computes : List Word := []
  /-- The other units report what has not finished. -/
  finishes : Bool := false
  /-- A register the value of which comes out of a unit. -/
  executed : Option Nat := none
  busValue : Option Word := none
  feedback : Option (Word × Word) := some (0, 0)

/-- What dispatch has not yet handed to the queue of the LSU. -/
def waiting (q : Reporting) : List OpInfo :=
  (q.world.flight.filter fun f => (f.info.opUnit == .lu || f.info.opUnit == .sdu)
    && !q.handed f.info.robId.id).map fun f => f.info.toIssue

/-- What the other units have not finished. -/
def unfinished (q : Reporting) : List Flight :=
  q.world.flight.filter fun f => f.info.opUnit != .sdu
    && !(q.world.core.rob.buffer f.info.robId.id).finish

def Beat.input (b : Beat) (q : Reporting) : ReportingInput where
  cycle.commit.decodeRenameFifo := b.code.map fun c => decode (plainPack c.1 c.2)
  cycle.commit.executeCommitPort :=
    if b.finishes then q.unfinished.map fun f => .copy f.info.operands else []
  lsu.execute := fun j => if j = 0 then
    { enable := b.executed.isSome, phyId := b.executed.getD 0 } else {}
  integer.pack := (q.world.flight.filter fun f => f.info.pc ∈ b.computes).map Flight.info
  lsu.pack := q.waiting.pwFilter fun a b => a.robId ≠ b.robId
  busValue := b.busValue
  feedback := b.feedback

/-- One cycle. -/
def play (P : Reporting → ReportingInput → CycleResult → Prop)
    [∀ q inp r, Decidable (P q inp r)] (q : Reporting) (b : Beat) : Option Reporting := do
  let r ← q.world.core.cycle (q.coreInput (b.input q))
  guard (P q (b.input q) r)
  let lsu ← q.lsu.cycle (q.lsuInput (b.input q) r)
  let integer ← q.integer.cycle (q.integerInput (b.input q) r)
  return q.act (b.input q) r lsu integer

theorem Beat.input_legal (b : Beat) (q : Reporting) : q.Legal (b.input q) where
  decoded p hp := by
    obtain ⟨c, -, rfl⟩ := List.mem_map.mp hp
    exact ⟨plainPack c.1 c.2, plainPack_ok c.1 c.2, rfl⟩
  results rev hrev _ := by
    simp only [Beat.input] at hrev
    split at hrev
    · obtain ⟨f, hf, rfl⟩ := List.mem_map.mp hrev
      obtain ⟨hf, hopen⟩ := List.mem_filter.mp hf
      rw [Bool.and_eq_true, bne_iff_ne] at hopen
      exact ⟨f, hf, resultOf_operands f.info, hopen.1⟩
    · cases hrev
  bru rev hrev := by cases hrev
  lu rev hrev := by cases hrev
  pack _ op hop := by
    have hmem := List.pwFilter_subset _ (List.mem_of_mem_filter hop)
    obtain ⟨f, hf, rfl⟩ := List.mem_map.mp hmem
    obtain ⟨hf, hwaits⟩ := List.mem_filter.mp hf
    rw [Bool.and_eq_true, Bool.or_eq_true, beq_iff_eq, beq_iff_eq, Bool.not_eq_true'] at hwaits
    exact ⟨f, hf, hwaits.1, hwaits.2, rfl⟩
  once _ := (List.pairwise_pwFilter _).filter _

instance (item : RobItem) (revs : List ExecuteWbPack) : Decidable (item.Absorbs revs) :=
  inferInstanceAs (Decidable (∀ rev ∈ revs.dropLast, _ ∧ _))

instance (q : Reporting) (inp : ReportingInput) : Decidable (q.Absorbs inp) :=
  inferInstanceAs (Decidable (∀ f ∈ q.world.flight, _))

instance (q : Reporting) (inp : ReportingInput) (r : CycleResult) : Decidable (q.Safe inp r) :=
  decidable_of_iff (_ ∧ _) ⟨fun h => ⟨h.1, h.2⟩, fun h => ⟨h.absorbs, h.agrees⟩⟩

/-- Where a program comes to. -/
def after (P : Reporting → ReportingInput → CycleResult → Prop)
    [∀ q inp r, Decidable (P q inp r)] (beats : List Beat) : Reporting :=
  (beats.foldlM (play P) init).getD init

theorem run_after {P : Reporting → ReportingInput → CycleResult → Prop}
    [∀ q inp r, Decidable (P q inp r)] {beats : List Beat}
    (h : (beats.foldlM (play P) init).isSome) : Run P (after P beats) := by
  obtain ⟨q, hq⟩ := Option.isSome_iff_exists.mp h
  rw [after, hq, Option.getD_some]
  refine Loops.foldlM_invariant (P := Run P) hq .init fun b _ q q' hrun hplay => ?_
  obtain ⟨r, hr, hplay⟩ := Option.bind_eq_some_iff.mp hplay
  obtain ⟨_, hP, hplay⟩ := Option.bind_eq_some_iff.mp hplay
  obtain ⟨lsu, hlsu, hplay⟩ := Option.bind_eq_some_iff.mp hplay
  obtain ⟨integer, hinteger, hplay⟩ := Option.bind_eq_some_iff.mp hplay
  obtain rfl := Option.some.inj hplay
  exact .cycle _ r lsu integer hrun (b.input_legal q) (by simpa [guard] using hP) hr hlsu hinteger

/-- `addi x1, x0, 0` and `sw x1, -1(x0)`: the data part waits for the addition. -/
def apart : Reporting := after Safe
  [{ code := [(0x80000000, 0x00000093), (0x80000004, 0xFE102FA3)] }, { computes := [0x80000000] },
    {}, {}, { finishes := true }, {}, {}]

/-- Here the exception of the address part is raised. -/
theorem results_kept_apart : (∀ f ∈ apart.world.flight, apart.Entered f)
    ∧ ∃ r, apart.world.core.cycle {} = some r ∧ apart.KeepsOut r
      ∧ r.commit.feedback.hasException = true := by
  obtain ⟨hentered, hout⟩ := results_kept (q := apart) (run_after (by decide +kernel))
  obtain ⟨r, hr⟩ : ∃ r, apart.world.core.cycle {} = some r :=
    Option.isSome_iff_exists.mp (by decide +kernel)
  have hraised : (apart.world.core.cycle {}).map (fun r => r.commit.feedback.hasException)
      = some true := by
    decide +kernel
  rw [hr, Option.map_some, Option.some.injEq] at hraised
  exact ⟨hentered, r, hr, hout {} r hr, hraised⟩

/-- `sw x0, -1(x0)`, the two parts of which go out together. -/
def together : Reporting := after
  (fun q inp r => r.commit.feedback.flush = false → q.lsu.Agrees (q.lsuInput inp r))
  ({ code := [(0x80000000, 0xFE002FA3)] } :: List.replicate 5 {})

/-- **The exception of the address part is lost** where the entry does not absorb the results, and
the store retires. -/
theorem together_loses : Run (fun q inp r => r.commit.feedback.flush = false →
      q.lsu.Agrees (q.lsuInput inp r)) together
    ∧ (∃ f ∈ together.world.flight, together.Misaligned f ∧ ¬ together.Entered f)
    ∧ ∃ r, together.world.core.cycle {} = some r ∧ ¬ together.KeepsOut r := by
  obtain ⟨f, hf⟩ : ∃ f, together.world.flight = [f] :=
    List.length_eq_one_iff.mp (by decide +kernel)
  have hparts : (together.world.flight.map fun f =>
      ((together.world.core.rob.buffer f.info.robId.id).hasException, f.info.takesStoreBuffer,
        (together.reports f.info.robId.id).map fun rev =>
          (rev.hasException, rev.opUnit, rev.misaligned)))
      = [(false, true, [(true, .sau, true), (false, .sdu, true)])] := by
    decide +kernel
  rw [hf, List.map_singleton, List.singleton_inj, Prod.mk.injEq, Prod.mk.injEq] at hparts
  obtain ⟨hno, hs, hreports⟩ := hparts
  obtain ⟨sau, revs, hrevs, hsau, -⟩ := List.map_eq_cons_iff.mp hreports
  rw [Prod.mk.injEq, Prod.mk.injEq] at hsau
  have hmis : together.Misaligned f :=
    ⟨sau, by rw [hrevs]; exact List.mem_cons_self .., hsau.2.1, hsau.2.2⟩
  have hmem : f ∈ together.world.flight := by
    rw [hf]
    exact List.mem_singleton_self f
  obtain ⟨r, hr⟩ : ∃ r, together.world.core.cycle {} = some r :=
    Option.isSome_iff_exists.mp (by decide +kernel)
  have hone : (together.world.core.cycle {}).map (fun r => r.commit.retired.length) = some 1 := by
    decide +kernel
  rw [hr, Option.map_some, Option.some.injEq] at hone
  refine ⟨run_after (by decide +kernel), ⟨f, hmem, hmis, fun he => ?_⟩, r, hr, fun hk => ?_⟩
  · have hfault := he.fault
    have hraised : sau.fault = some (sau.exceptionId, sau.exceptionValue) := if_pos hsau.1
    rw [RobItem.fault, hno, hrevs, List.findSome?_cons, hraised] at hfault
    cases hfirst : (f.after.rob.buffer f.info.robId.id).fault <;> simp [hfirst] at hfault
  · refine hk.retires f ?_ hs hmis
    rw [hone, hf]
    exact List.mem_singleton_self f

/-- Three loads and a division, then `sw x1, -1(x7)`, which takes its data from the third load and
its address from the division. The first load stalls until that is done; the second meets a store
without data, and makes the third load issue anew in the cycle in which the address goes out. -/
def stale : Reporting := after (fun q inp _ => q.Absorbs inp)
  ({ code := [(0x80000000, 0x00002283), (0x80000004, 0x00402303), (0x80000008, 0x0002A083),
      (0x8000000C, 0x020043B3)] }
    :: { code := [(0x80000010, 0xFE13AFA3)], computes := [0x8000000C] }
    :: List.replicate 3 ({} : Beat) ++ List.replicate 6 { feedback := none }
    ++ { executed := some 34, busValue := some 0, feedback := none }
    :: List.replicate 6 { busValue := some 0 })

/-- **The address itself is lost** where the queue does not take it back: the store is finished, and
no address has been reported. -/
theorem stale_loses : Run (fun q inp _ => q.Absorbs inp) stale ∧ ∀ r, ¬ stale.KeepsOut r := by
  refine ⟨run_after (by decide +kernel), fun r hk => ?_⟩
  have hlast : (stale.world.flight.map fun f => (f.info.takesStoreBuffer,
      (stale.world.core.rob.buffer f.info.robId.id).finish,
        (stale.reports f.info.robId.id).map fun rev => rev.opUnit)).getLast?
      = some (true, true, [.sdu]) := by
    decide +kernel
  rw [List.getLast?_map] at hlast
  obtain ⟨f, hf, hlast⟩ := Option.map_eq_some_iff.mp hlast
  rw [Prod.mk.injEq, Prod.mk.injEq] at hlast
  obtain ⟨part, hpart, hu⟩ := hk.addressed f (List.mem_of_getLast? hf) hlast.1 hlast.2.1
  have hunit := List.mem_map_of_mem (f := fun rev : ExecuteWbPack => rev.opUnit) hpart
  rw [hlast.2.2, List.mem_singleton, hu] at hunit
  cases hunit

end Reporting

end DreamCore
