import DreamCore.Backend.IssueStep
import DreamCore.Backend.LsuQueue
import DreamCore.Pipeline.LsuReadreg

/-!
# One cycle of the LSU pipeline

What stands before register read, in the handshakes of the two store units and in
their ports, and where a cycle moves it: forward by one place, unless it is
squashed, or register read drops it for a replay, or holds it back for a stall.

The queue is looked at by the slot. A slot that is taken after a cycle has been
taken before, or belongs to an instruction that has just entered.
-/

namespace DreamCore

open Ring

/-! ## Register read -/

namespace LsuReadreg

variable {inp : LsuIssueInput} {ops : List IntegerIssueOp} {new new' : Handshakes LsuUnit}

theorem readPack_toOpInfo (inp : LsuIssueInput) (info : OpInfo) :
    (readPack inp info).toOpInfo = info := by
  unfold readPack
  dsimp only
  split <;> rfl

theorem send_eq_some {op : IntegerIssueOp} (h : send inp new op = some new') :
    (op.enable && !skips inp op) = false ∧ new' = new ∨
      (op.enable && !skips inp op) = true ∧ ∃ unit, unitOf op.opUnit = some unit ∧ new unit = none ∧
        new' = Function.update new unit (some (readPack inp op.toOpInfo)) := by
  unfold send at h
  split at h
  · rename_i hgoes
    obtain ⟨unit, hunit, h⟩ := Option.bind_eq_some_iff.mp h
    unfold Handshakes.push at h
    split at h
    · cases h
    · rename_i hempty
      exact .inr ⟨hgoes, unit, hunit, by simpa using hempty, (Option.some.inj h).symm⟩
  · rename_i hstays
    exact .inl ⟨Bool.eq_false_iff.mpr hstays, (Option.some.inj h).symm⟩

/-- What is in a handshake stays there. -/
theorem sends_kept (h : ops.foldlM (send inp) new = some new') {unit : LsuUnit}
    {pack : ReadregExecutePack} (hpack : new unit = some pack) : new' unit = some pack := by
  refine Loops.foldlM_invariant (P := fun hdff => hdff unit = some pack) h hpack
    fun op _ hdff hdff' hkept hsend => ?_
  rcases send_eq_some hsend with ⟨-, rfl⟩ | ⟨-, u, -, hfree, rfl⟩
  · exact hkept
  · have hne : unit ≠ u := by
      rintro rfl
      rw [hfree] at hkept
      cases hkept
    rw [Function.update_of_ne hne, hkept]

/-- **What the loop of register read sends on** is what it does not skip, each to its unit. -/
theorem sends_spec (h : ops.foldlM (send inp) new = some new') (unit : LsuUnit) :
    (∀ pack, new' unit = some pack → new unit = some pack ∨ ∃ op ∈ ops, op.enable = true ∧
      skips inp op = false ∧ unitOf op.opUnit = some unit ∧ pack = readPack inp op.toOpInfo) ∧
    ∀ op ∈ ops, op.enable = true → skips inp op = false → unitOf op.opUnit = some unit →
      new' unit = some (readPack inp op.toOpInfo) := by
  induction ops generalizing new with
  | nil =>
    obtain rfl := Option.some.inj h
    exact ⟨fun _ hpack => .inl hpack, fun _ hop => by cases hop⟩
  | cons op ops ih =>
    rw [List.foldlM_cons] at h
    obtain ⟨mid, hmid, h⟩ := Option.bind_eq_some_iff.mp h
    obtain ⟨hfrom, hto⟩ := ih h
    refine ⟨fun pack hpack => ?_, fun a ha hen hskip hunit => ?_⟩
    · rcases hfrom pack hpack with hold | ⟨a, ha, hrest⟩
      · rcases send_eq_some hmid with ⟨-, rfl⟩ | ⟨hgoes, u, hu, -, rfl⟩
        · exact .inl hold
        · by_cases hne : unit = u
          · rw [hne, Function.update_self] at hold
            rw [Bool.and_eq_true, Bool.not_eq_true'] at hgoes
            exact .inr ⟨op, List.mem_cons_self .., hgoes.1, hgoes.2, hne ▸ hu,
              (Option.some.inj hold).symm⟩
          · rw [Function.update_of_ne hne] at hold
            exact .inl hold
      · exact .inr ⟨a, List.mem_cons_of_mem _ ha, hrest⟩
    · rcases List.mem_cons.mp ha with rfl | ha
      · rcases send_eq_some hmid with ⟨hstays, -⟩ | ⟨-, u, hu, -, rfl⟩
        · rw [hen, hskip] at hstays
          cases hstays
        · rw [hunit] at hu
          obtain rfl := Option.some.inj hu
          exact sends_kept h (Function.update_self ..)
      · exact hto a ha hen hskip hunit

end LsuReadreg

/-! ## Where the parts of stores are -/

/-- A part of the store `robId`: the work of one of the two store units. -/
def OpInfo.IsPart (op : OpInfo) (robId : Ptr) : Prop :=
  op.enable = true ∧ op.opUnit.isStorePart = true ∧ op.robId = robId

/-- The same part, further on. -/
structure OpInfo.SamePart (op op' : OpInfo) : Prop where
  enable : op'.enable = op.enable
  robId : op'.robId = op.robId
  opUnit : op'.opUnit = op.opUnit
  lastUop : op'.lastUop = op.lastUop

theorem OpInfo.SamePart.isPart {op op' : OpInfo} (h : op.SamePart op') {robId : Ptr} :
    op'.IsPart robId ↔ op.IsPart robId := by
  unfold IsPart
  rw [h.enable, h.opUnit, h.robId]

namespace LsuPipe

/-- What register read looks at in the next cycle. -/
def rev (s : LsuPipe) : List IntegerIssueOp :=
  (List.range lsuIssueWidth).map fun i => (s.readreg.revPack s.port).getD i {}

/-- What is at a place: before register read, in the handshakes of the store units, in their
ports. -/
def parts (s : LsuPipe) : Nat → List OpInfo
  | 0 => s.rev.map IntegerIssueOp.toOpInfo
  | 1 => [LsuUnit.sau, .sdu].filterMap fun unit => (s.hdff unit).map fun pack => pack.toOpInfo
  | 2 => [s.sau.toOpInfo, s.sdu.toOpInfo]
  | _ => []

variable {s s' : LsuPipe} {inp : LsuIssueInput} {op op' : OpInfo}

theorem cycle_eq_some (h : s.cycle inp = some s') :
    s.readreg.run inp s.port s.hdff (s.taken inp) = some (s'.readreg, s'.hdff) ∧
      s.issue.cycle (s.sees inp) = some s'.issue ∧
      s'.port = (s.issue.runOutput (s.sees inp)).2.1 ∧
      s'.sau = s.sauPort inp ∧ s'.sdu = s.sduPort inp := by
  unfold cycle at h
  obtain ⟨⟨readreg, hdff⟩, hread, h⟩ := Option.bind_eq_some_iff.mp h
  obtain ⟨issue, hissue, h⟩ := Option.bind_eq_some_iff.mp h
  obtain rfl := Option.some.inj h
  exact ⟨hread, hissue, rfl, rfl, rfl⟩

/-! ### The ports -/

theorem mem_parts_one :
    op ∈ s.parts 1 ↔ ∃ unit, (unit = .sau ∨ unit = .sdu) ∧
      ∃ pack, s.hdff unit = some pack ∧ pack.toOpInfo = op := by
  simp only [parts, List.mem_filterMap, List.mem_cons, List.not_mem_nil, or_false,
    Option.map_eq_some_iff]

theorem mem_parts_two : op ∈ s.parts 2 ↔ op = s.sau.toOpInfo ∨ op = s.sdu.toOpInfo := by
  unfold parts
  simp only [List.mem_cons, List.not_mem_nil, or_false]

theorem sauCompute_samePart (rev : ReadregExecutePack) :
    rev.toOpInfo.SamePart (sauCompute rev).toOpInfo := by
  unfold sauCompute
  dsimp only
  split <;> exact ⟨rfl, rfl, rfl, rfl⟩

theorem sduCompute_samePart (rev : ReadregExecutePack) :
    rev.toOpInfo.SamePart (sduCompute rev).toOpInfo := ⟨rfl, rfl, rfl, rfl⟩

/-- **What is in the port of the address unit** was in its handshake. -/
theorem sau_from (h : s.cycle inp = some s') (hen : s'.sau.enable = true) :
    ∃ rev, s.hdff .sau = some rev ∧ inp.bru.squashes rev.robId = false
      ∧ s'.sau = sauCompute rev := by
  obtain ⟨-, -, -, hsau, -⟩ := cycle_eq_some h
  rw [hsau, sauPort] at hen ⊢
  split at hen
  · rename_i rev _ hrev
    split at hen
    · cases hen
    · rename_i hkeep
      rw [if_neg hkeep]
      exact ⟨rev, hrev, Bool.eq_false_iff.mpr hkeep, rfl⟩
  · cases hen

/-- **What is in the port of the data unit** was in its handshake. -/
theorem sdu_from (h : s.cycle inp = some s') (hen : s'.sdu.enable = true) :
    ∃ rev, s.hdff .sdu = some rev ∧ inp.bru.squashes rev.robId = false
      ∧ s'.sdu = sduCompute rev := by
  obtain ⟨-, -, -, -, hsdu⟩ := cycle_eq_some h
  rw [hsdu, sduPort] at hen ⊢
  split at hen
  · rename_i rev _ hrev
    split at hen
    · cases hen
    · rename_i hkeep
      rw [if_neg hkeep]
      rw [LsuIssueInput.squashes, Bool.not_eq_true, Bool.or_eq_false_iff] at hkeep
      exact ⟨rev, hrev, hkeep.1, rfl⟩
  · cases hen

/-- What is in a port was in a handshake. -/
theorem port_from (h : s.cycle inp = some s') (hop : op' ∈ s'.parts 2) (hen : op'.enable = true) :
    ∃ op ∈ s.parts 1, op.SamePart op' ∧ inp.bru.squashes op.robId = false := by
  rcases mem_parts_two.mp hop with rfl | rfl
  · obtain ⟨rev, hrev, hkeep, hsau⟩ := sau_from h hen
    rw [hsau]
    exact ⟨_, mem_parts_one.mpr ⟨.sau, .inl rfl, rev, hrev, rfl⟩, sauCompute_samePart rev, hkeep⟩
  · obtain ⟨rev, hrev, hkeep, hsdu⟩ := sdu_from h hen
    rw [hsdu]
    exact ⟨_, mem_parts_one.mpr ⟨.sdu, .inr rfl, rev, hrev, rfl⟩, sduCompute_samePart rev, hkeep⟩

/-- What a handshake holds and no flush squashes goes to a port. -/
theorem port_to (h : s.cycle inp = some s') (hflush : inp.commitFlush = false)
    (hop : op ∈ s.parts 1) (hkeep : inp.squashes op.robId = false) :
    ∃ op' ∈ s'.parts 2, op.SamePart op' := by
  obtain ⟨-, -, -, hsau, hsdu⟩ := cycle_eq_some h
  obtain ⟨unit, hunit, pack, hpack, rfl⟩ := mem_parts_one.mp hop
  have hbru : inp.bru.squashes pack.robId = false := by
    rw [LsuIssueInput.squashes, Bool.or_eq_false_iff] at hkeep
    exact hkeep.1
  rcases hunit with rfl | rfl
  · refine ⟨s'.sau.toOpInfo, mem_parts_two.mpr (.inl rfl), ?_⟩
    rw [hsau, sauPort, hflush, hpack]
    dsimp only
    rw [hbru, if_neg (by decide)]
    exact sauCompute_samePart pack
  · refine ⟨s'.sdu.toOpInfo, mem_parts_two.mpr (.inr rfl), ?_⟩
    rw [hsdu, sduPort, hflush, hpack]
    dsimp only
    rw [hkeep, if_neg (by decide)]
    exact sduCompute_samePart pack

/-! ### The handshakes -/

/-- What `lsu_readreg::run` does without a flush of commit. -/
theorem run_cases (h : s.cycle inp = some s') (hflush : inp.commitFlush = false) :
    inp.lu.stall = true ∧ s'.readreg = ⟨true, (List.range lsuIssueWidth).map fun i =>
        LsuReadreg.hold inp (s.readreg.holdRevPack.getD i {})
          ((s.readreg.revPack s.port).getD i {})⟩ ∧
        s'.hdff = s.hdff.dropSquashed (s.taken inp) inp.squashes ∨
      inp.lu.stall = false ∧ s'.readreg.busy = false ∧
        s.rev.foldlM (LsuReadreg.send inp) (s.hdff.dropSquashed (s.taken inp) inp.squashes)
          = some s'.hdff := by
  obtain ⟨hread, -⟩ := cycle_eq_some h
  unfold LsuReadreg.run at hread
  rw [if_neg (by rw [hflush]; decide)] at hread
  dsimp only at hread
  cases hstall : inp.lu.stall with
  | true =>
    rw [hstall, if_pos rfl] at hread
    obtain ⟨hr, hh⟩ := Prod.mk.inj (Option.some.inj hread)
    exact .inl ⟨rfl, hr.symm, hh.symm⟩
  | false =>
    rw [hstall, if_neg (by decide)] at hread
    obtain ⟨hdff, hsends, hread⟩ := Option.bind_eq_some_iff.mp hread
    obtain ⟨hr, hh⟩ := Prod.mk.inj (Option.some.inj hread)
    exact .inr ⟨rfl, by rw [← hr], hh ▸ hsends⟩

/-- The store units have taken what was there. -/
theorem dropSquashed_taken (hflush : inp.commitFlush = false) {unit : LsuUnit}
    (hunit : unit = .sau ∨ unit = .sdu) :
    s.hdff.dropSquashed (s.taken inp) inp.squashes unit = none := by
  have htaken : s.taken inp unit = none := by
    unfold taken
    rw [hflush]
    rcases hunit with rfl | rfl <;> rfl
  unfold Handshakes.dropSquashed
  rw [htaken]
  split
  · exact ite_self none
  · rfl

theorem unitOf_part {unit : OpUnit} (h : unit.isStorePart = true) :
    ∃ u, LsuReadreg.unitOf unit = some u ∧ (u = .sau ∨ u = .sdu) := by
  cases unit with
  | sau => exact ⟨.sau, rfl, .inl rfl⟩
  | sdu => exact ⟨.sdu, rfl, .inr rfl⟩
  | _ => cases h

/-- **What is in a handshake** stood before register read, and was not skipped. -/
theorem handshake_from (h : s.cycle inp = some s') (hflush : inp.commitFlush = false)
    {unit : LsuUnit} (hunit : unit = .sau ∨ unit = .sdu) {pack : ReadregExecutePack}
    (hpack : s'.hdff unit = some pack) : inp.lu.stall = false ∧ ∃ a ∈ s.rev, a.enable = true ∧
      LsuReadreg.skips inp a = false ∧ LsuReadreg.unitOf a.opUnit = some unit ∧
      pack.toOpInfo = a.toOpInfo := by
  rcases run_cases h hflush with ⟨-, -, hhdff⟩ | ⟨hstall, -, hsends⟩
  · rw [hhdff, dropSquashed_taken hflush hunit] at hpack
    cases hpack
  · refine ⟨hstall, ?_⟩
    rcases (LsuReadreg.sends_spec hsends unit).1 pack hpack with hold | ⟨a, ha, hen, hskip, hu, rfl⟩
    · rw [dropSquashed_taken hflush hunit] at hold
      cases hold
    · exact ⟨a, ha, hen, hskip, hu, LsuReadreg.readPack_toOpInfo inp a.toOpInfo⟩

/-- What register read does not skip goes to the handshake of its unit. -/
theorem handshake_to (h : s.cycle inp = some s') (hflush : inp.commitFlush = false)
    (hstall : inp.lu.stall = false) {a : IntegerIssueOp} (ha : a ∈ s.rev) (hen : a.enable = true)
    (hpart : a.opUnit.isStorePart = true) (hskip : LsuReadreg.skips inp a = false) :
    a.toOpInfo ∈ s'.parts 1 := by
  rcases run_cases h hflush with ⟨hn, -⟩ | ⟨-, -, hsends⟩
  · rw [hstall] at hn
    cases hn
  · obtain ⟨unit, hunit, hstore⟩ := unitOf_part hpart
    exact mem_parts_one.mpr ⟨unit, hstore, _,
      (LsuReadreg.sends_spec hsends unit).2 a ha hen hskip hunit,
      LsuReadreg.readPack_toOpInfo inp a.toOpInfo⟩

/-! ### Before register read -/

theorem mem_rev {a : IntegerIssueOp} : a ∈ s.rev ↔
    ∃ i, i < lsuIssueWidth ∧ (s.readreg.revPack s.port).getD i {} = a := by
  simp only [rev, List.mem_map, List.mem_range]

/-- What a stall leaves before register read. -/
theorem mem_rev_stalled (h : s.cycle inp = some s') (hflush : inp.commitFlush = false)
    (hstall : inp.lu.stall = true) {a : IntegerIssueOp} : a ∈ s'.rev ↔
      ∃ i, i < lsuIssueWidth ∧ LsuReadreg.hold inp (s.readreg.holdRevPack.getD i {})
        ((s.readreg.revPack s.port).getD i {}) = a := by
  rcases run_cases h hflush with ⟨-, hreadreg, -⟩ | ⟨hn, -⟩
  · rw [mem_rev, hreadreg, LsuReadreg.revPack, if_pos rfl]
    refine exists_congr fun i => and_congr_right fun hi => ?_
    rw [List.getD_eq_getElem?_getD, List.getElem?_map, List.getElem?_range hi, Option.map_some,
      Option.getD_some]
  · rw [hstall] at hn
    cases hn

/-- **During a stall** register read keeps what it does not skip. -/
theorem rev_stalled (h : s.cycle inp = some s') (hflush : inp.commitFlush = false)
    (hstall : inp.lu.stall = true) {a : IntegerIssueOp} (hen : a.enable = true) :
    a ∈ s'.rev ↔ a ∈ s.rev ∧ LsuReadreg.skips inp a = false := by
  rw [mem_rev_stalled h hflush hstall, mem_rev]
  constructor
  · rintro ⟨i, hi, hold⟩
    unfold LsuReadreg.hold at hold
    split at hold
    · rw [← hold] at hen
      cases hen
    · rename_i hkeep
      rw [hold, hen, Bool.true_and] at hkeep
      exact ⟨⟨i, hi, hold⟩, Bool.eq_false_iff.mpr hkeep⟩
  · rintro ⟨⟨i, hi, rfl⟩, hskip⟩
    refine ⟨i, hi, ?_⟩
    rw [LsuReadreg.hold, hskip, Bool.and_false, if_neg (by decide)]

/-- The queue may issue. -/
def issues (s : LsuPipe) (inp : LsuIssueInput) : Bool :=
  !inp.commitFlush && !s.readreg.busy && !inp.lu.stall

theorem runOutput_port (s : LsuPipe) (inp : LsuIssueInput) :
    (s.issue.runOutput (s.sees inp)).2.1 = if s.issues inp then
      (List.range lsuIssueWidth).map (s.issue.sent (s.sees inp))
    else List.replicate lsuIssueWidth {} := by
  unfold LsuIssue.runOutput issues sees
  dsimp only
  cases inp.commitFlush <;> cases s.readreg.busy <;> cases inp.lu.stall <;> rfl

/-- **Without a stall** what stands before register read has just been issued. -/
theorem rev_issued (h : s.cycle inp = some s') (hflush : inp.commitFlush = false)
    (hstall : inp.lu.stall = false) {a : IntegerIssueOp} (hen : a.enable = true) :
    a ∈ s'.rev ↔ s.issues inp = true ∧
      ∃ i, i < lsuIssueWidth ∧ s.issue.sent (s.sees inp) i = a := by
  have hport := (cycle_eq_some h).2.2.1
  rw [runOutput_port] at hport
  rcases run_cases h hflush with ⟨hn, -⟩ | ⟨-, hbusy, -⟩
  · rw [hstall] at hn
    cases hn
  · rw [mem_rev, LsuReadreg.revPack, hbusy, if_neg (by decide), hport]
    cases s.issues inp with
    | true =>
      rw [if_pos rfl]
      simp only [true_and]
      refine exists_congr fun i => and_congr_right fun hi => ?_
      rw [List.getD_eq_getElem?_getD, List.getElem?_map, List.getElem?_range hi, Option.map_some,
        Option.getD_some]
    | false =>
      rw [if_neg (by decide)]
      refine iff_of_false ?_ fun hn => by cases hn.1
      rintro ⟨i, hi, rfl⟩
      rw [List.getD_eq_getElem?_getD, List.getElem?_replicate, if_pos hi, Option.getD_some] at hen
      cases hen

end LsuPipe

/-! ## The queue -/

namespace LsuIssue

variable {s new : LsuIssue} {inp : LsuIssueInput} {ops : List OpInfo} {op : OpInfo} {i j k : Nat}

/-- Slot `j` holds the store `robId`. -/
structure HoldsStore (s : LsuIssue) (j : Nat) (robId : Ptr) : Prop where
  valid : s.valid j = true
  isStore : (s.entry j).isStore = true
  robId : (s.entry j).robId = robId

/-- An instruction that dispatch sends to the queue. -/
structure IsLsu (op : OpInfo) : Prop where
  unit : op.opUnit = .lu ∨ op.opUnit = .sdu
  valid : op.valid = true
  plain : op.hasException = false

/-- An entry is as `run_input` has written it. -/
structure SlotFine (e : LsuEntry) : Prop where
  enable : e.item.enable = true
  unit : IsLsu e.item
  robId : e.item.robId = e.robId
  isStore : e.isStore = (e.item.opUnit == .sdu)
  lpv : e.lpv = if e.isStore then 0 else initLpv
  wakeupShift : e.wakeupShift = latencyToWakeupShift lsuLatency

/-- **The queue, and what is still to enter.** A store is there once. -/
structure Fine (s : LsuIssue) (ops : List OpInfo) : Prop where
  bound : ∀ j, s.valid j = true → j < lsuIssueQueueSize
  slot : ∀ j, s.valid j = true → SlotFine (s.entry j)
  unique : ∀ j k robId, s.HoldsStore j robId → s.HoldsStore k robId → j = k
  arriving : ∀ op ∈ enabled ops, IsLsu op
  apart : ∀ op ∈ enabled ops, op.opUnit = .sdu → ∀ j, ¬ s.HoldsStore j op.robId
  distinct : (enabled ops).Pairwise fun a b => a.opUnit = .sdu → b.opUnit = .sdu →
    a.robId ≠ b.robId

/-- Slot `j` is as it was. -/
structure Kept (new new' : LsuIssue) (j : Nat) : Prop where
  valid : new.valid j = true
  entry : new'.entry j = new.entry j
  issued : new'.issued j = new.issued j

/-- Slot `j` has been given to `op`. -/
structure Given (new' : LsuIssue) (j : Nat) (op : OpInfo) : Prop where
  slot : SlotFine (new'.entry j)
  item : (new'.entry j).item = op
  issued : new'.issued j = false
  parts : (new'.entry j).sauPartIssued = false ∧ (new'.entry j).sduPartIssued = false
  lpvs : (new'.entry j).src1.lpv = 0 ∧ (new'.entry j).src2.lpv = 0
  curLpv : (new'.entry j).curLpv = (new'.entry j).lpv

theorem entryOf_fine (inp : LsuIssueInput) (hen : op.enable = true) (hlsu : IsLsu op) :
    SlotFine (entryOf inp op) := by
  refine ⟨hen, hlsu, rfl, rfl, ?_, rfl⟩
  unfold entryOf
  rcases hlsu.unit with hu | hu <;> simp [hu]

/-- A source that an instruction enters with hangs on no load. -/
theorem entryOf_lpvs (inp : LsuIssueInput) (op : OpInfo) :
    (entryOf inp op).src1.lpv = 0 ∧ (entryOf inp op).src2.lpv = 0 := by
  have hfirst (needMap : Bool) (phyId : Nat) :
      (IntegerStage.firstSource inp.sources op needMap phyId).lpv = 0 := by
    unfold IntegerStage.firstSource
    dsimp only
    split
    · split <;> rfl
    · rfl
  refine ⟨hfirst _ _, ?_⟩
  unfold entryOf
  dsimp only
  split
  · exact hfirst _ _
  · rfl

/-- What one instruction changes as it enters. -/
theorem enter_slot (cur : LsuIssue) (inp : LsuIssueInput) {id : Nat} (hen : op.enable = true)
    (hlsu : IsLsu op) (hfree : new.newId = some id) :
    (∀ j, (cur.enter inp i id op new).valid j = true ↔ new.valid j = true ∨ j = id) ∧
    (∀ j, new.valid j = true → Kept new (cur.enter inp i id op new) j) ∧
    Given (cur.enter inp i id op new) id op := by
  obtain ⟨-, hempty⟩ := newId_eq_some hfree
  obtain ⟨hvalid, hissued, -⟩ := enter_registers cur inp i id op new
  obtain ⟨hother, hself⟩ := enter_plain cur inp i id new hlsu.valid hlsu.plain
  have hne {j : Nat} (hv : new.valid j = true) : j ≠ id := by
    rintro rfl
    rw [hempty] at hv
    cases hv
  refine ⟨fun j => ?_, fun j hv => ⟨hv, hother j (hne hv), ?_⟩, ?_⟩
  · rw [hvalid]
    by_cases hj : j = id
    · rw [hj, Function.update_self]
      exact iff_of_true rfl (.inr rfl)
    · rw [Function.update_of_ne hj]
      exact (or_iff_left hj).symm
  · rw [hissued, Function.update_of_ne (hne hv)]
  · have hentry := entryOf_fine inp hen hlsu
    refine ⟨?_, ?_, ?_, ?_, ?_, ?_⟩
    · rw [hself]
      exact ⟨hentry.enable, hentry.unit, hentry.robId, hentry.isStore, hentry.lpv,
        hentry.wakeupShift⟩
    · rw [hself]
      rfl
    · rw [hissued, Function.update_self]
    · rw [hself]
      exact ⟨rfl, rfl⟩
    · rw [hself]
      exact entryOf_lpvs inp op
    · rw [hself]
      rfl

theorem Kept.slotFine {new new' : LsuIssue} (h : Kept new new' j) (hf : SlotFine (new.entry j)) :
    SlotFine (new'.entry j) := h.entry ▸ hf

theorem Kept.holdsStore {new new' : LsuIssue} {robId : Ptr} (h : Kept new new' j)
    (hs : new'.HoldsStore j robId) : new.HoldsStore j robId :=
  ⟨h.valid, h.entry ▸ hs.isStore, h.entry ▸ hs.robId⟩

theorem Kept.trans {a b c : LsuIssue} (h : Kept a b j) (h' : Kept b c j) : Kept a c j :=
  ⟨h.valid, h'.entry.trans h.entry, h'.issued.trans h.issued⟩

theorem Given.keep {new new' : LsuIssue} (h : Given new j op) (hk : Kept new new' j) :
    Given new' j op := by
  obtain ⟨hslot, hitem, hissued, hparts, hlpvs, hcur⟩ := h
  rw [← hk.entry] at hslot hitem hparts hlpvs hcur
  exact ⟨hslot, hitem, hk.issued.trans hissued, hparts, hlpvs, hcur⟩

/-- A slot that has been given to a store holds that store. -/
theorem Given.holdsStore {new' : LsuIssue} {robId : Ptr} (h : Given new' j op)
    (hs : new'.HoldsStore j robId) : op.opUnit = .sdu ∧ op.robId = robId := by
  have hunit := hs.isStore
  rw [h.slot.isStore, h.item, beq_iff_eq] at hunit
  exact ⟨hunit, by rw [← h.item, h.slot.robId, hs.robId]⟩

theorem Fine.rest (h : new.Fine (op :: ops)) : new.Fine ops := by
  have hsub : (enabled ops).Sublist (enabled (op :: ops)) := (List.sublist_cons_self op ops).filter _
  exact ⟨h.bound, h.slot, h.unique, fun a ha => h.arriving a (hsub.subset ha),
    fun a ha => h.apart a (hsub.subset ha), h.distinct.sublist hsub⟩

/-- **One instruction enters.** -/
theorem Fine.enter (cur : LsuIssue) (h : new.Fine (op :: ops)) (hen : op.enable = true) {id : Nat}
    (hid : new.newId = some id) : (cur.enter inp i id op new).Fine ops := by
  have hops : enabled (op :: ops) = op :: enabled ops := by rw [enabled_cons, if_pos hen]
  have hmem : op ∈ enabled (op :: ops) := hops ▸ List.mem_cons_self ..
  obtain ⟨hvalid, hkept, hgiven⟩ :=
    enter_slot cur inp (i := i) hen (h.arriving op hmem) hid
  have hdistinct := h.distinct
  rw [hops] at hdistinct
  have hcases {j : Nat} {robId : Ptr} (hs : (cur.enter inp i id op new).HoldsStore j robId) :
      new.HoldsStore j robId ∨ j = id ∧ op.opUnit = .sdu ∧ op.robId = robId := by
    rcases (hvalid j).mp hs.valid with hv | rfl
    · exact .inl ((hkept j hv).holdsStore hs)
    · exact .inr ⟨rfl, hgiven.holdsStore hs⟩
  refine ⟨fun j hv => ?_, fun j hv => ?_, fun j k robId hj hk => ?_, h.rest.arriving,
    fun a ha hu j hs => ?_, (List.pairwise_cons.mp hdistinct).2⟩
  · rcases (hvalid j).mp hv with hv | rfl
    · exact h.bound j hv
    · exact (newId_eq_some hid).1
  · rcases (hvalid j).mp hv with hv | rfl
    · exact (hkept j hv).slotFine (h.slot j hv)
    · exact hgiven.slot
  · rcases hcases hj with hold | ⟨hjid, hu, hr⟩
    · rcases hcases hk with hold' | ⟨-, hu, hr⟩
      · exact h.unique j k robId hold hold'
      · exact absurd (hr ▸ hold) (h.apart op hmem hu j)
    · rcases hcases hk with hold | ⟨hkid, -, -⟩
      · exact absurd (hr ▸ hold) (h.apart op hmem hu k)
      · rw [hjid, hkid]
  · rcases hcases hs with hs | ⟨-, hu', hr⟩
    · exact h.rest.apart a ha hu j hs
    · exact (List.pairwise_cons.mp hdistinct).1 a ha hu' hu hr

theorem HoldsStore.congr {s' : LsuIssue} {robId : Ptr} (hvalid : s'.valid = s.valid)
    (hentry : s'.entry = s.entry) (h : s'.HoldsStore j robId) : s.HoldsStore j robId :=
  ⟨hvalid ▸ h.valid, hentry ▸ h.isStore, hentry ▸ h.robId⟩

/-- What is held back is no part of the queue. -/
theorem Fine.congr {s' : LsuIssue} (h : s.Fine ops) (hvalid : s'.valid = s.valid)
    (hentry : s'.entry = s.entry) : s'.Fine ops where
  bound j hv := h.bound j (hvalid ▸ hv)
  slot j hv := hentry ▸ h.slot j (hvalid ▸ hv)
  unique j k robId hj hk := h.unique j k robId (hj.congr hvalid hentry) (hk.congr hvalid hentry)
  arriving := h.arriving
  apart op hop hu j hs := h.apart op hop hu j (hs.congr hvalid hentry)
  distinct := h.distinct

/-- What `run_input` makes of the queue and the pack it is given. -/
structure Filled (new : LsuIssue) (ops : List OpInfo) (q : LsuIssue) : Prop where
  fine : q.Fine q.holdRevPack
  kept : ∀ j, new.valid j = true → Kept new q j
  given : ∀ j, q.valid j = true → new.valid j = true ∨ ∃ op ∈ enabled ops, Given q j op
  held : ∀ op ∈ enabled q.holdRevPack, op ∈ enabled ops

/-- **The loop that pushes a pack.** -/
theorem Fine.pushPack (cur : LsuIssue) (inp : LsuIssueInput) (h : new.Fine ops)
    (hheld : new.holdRevPack = []) (i : Nat) : Filled new ops (cur.pushPack inp i ops new) := by
  induction ops generalizing i new with
  | nil =>
    refine ⟨?_, fun j hv => ⟨hv, rfl, rfl⟩, fun j hv => .inl hv, fun op hop => ?_⟩
    · rw [LsuIssue.pushPack, hheld]
      exact h
    · rw [LsuIssue.pushPack, hheld] at hop
      cases hop
  | cons op ops ih =>
    unfold LsuIssue.pushPack
    split
    · rename_i hen
      have hops : enabled (op :: ops) = enabled ops := by
        rw [enabled_cons, if_neg (by simpa using hen)]
      obtain ⟨hfine, hkept, hgiven, hrest⟩ := ih h.rest hheld (i + 1)
      rw [← hops] at hgiven hrest
      exact ⟨hfine, hkept, hgiven, hrest⟩
    · rename_i hen
      have hen : op.enable = true := by simpa using hen
      have hops : enabled (op :: ops) = op :: enabled ops := by rw [enabled_cons, if_pos hen]
      have hmem : op ∈ enabled (op :: ops) := hops ▸ List.mem_cons_self ..
      split
      · rename_i id hid
        obtain ⟨hvalid, hstays, hentered⟩ :=
          enter_slot cur inp (i := i) hen (h.arriving op hmem) hid
        have hheld' : (cur.enter inp i id op new).holdRevPack = [] := by
          rw [(enter_registers cur inp i id op new).2.2, hheld]
        obtain ⟨hfine, hkept, hgiven, hrest⟩ := ih (h.enter cur hen hid) hheld' (i + 1)
        refine ⟨hfine, fun j hv => ?_, fun j hv => ?_, fun a ha => ?_⟩
        · exact (hstays j hv).trans (hkept j ((hvalid j).mpr (.inl hv)))
        · rcases hgiven j hv with hold | ⟨a, ha, hg⟩
          · rcases (hvalid j).mp hold with hold | rfl
            · exact .inl hold
            · exact .inr ⟨op, hmem, hentered.keep (hkept _ hold)⟩
          · exact .inr ⟨a, hops ▸ List.mem_cons_of_mem _ ha, hg⟩
        · exact hops ▸ List.mem_cons_of_mem _ (hrest a ha)
      · exact ⟨h.congr rfl rfl, fun j hv => ⟨hv, rfl, rfl⟩, fun j hv => .inl hv,
          fun a ha => ha⟩

/-! ### A cycle of the queue -/

/-- What is offered to the queue in a cycle: what it has held back, or the pack of the port. -/
def offered (s : LsuIssue) (inp : LsuIssueInput) : List OpInfo :=
  if s.busy then s.holdRevPack else inp.pack

theorem mem_revPack : op ∈ enabled (s.revPack inp) ↔
    op ∈ enabled (s.offered inp) ∧ inp.squashes op.robId = false := by
  unfold revPack
  rw [enabled_squashPack, enabled_squashPack, List.mem_filter, List.mem_filter,
    LsuIssueInput.squashes, Bool.or_eq_false_iff]
  simp only [Bool.not_eq_true', and_assoc]
  rfl

theorem revPack_sublist (s : LsuIssue) (inp : LsuIssueInput) :
    (enabled (s.revPack inp)).Sublist (enabled (s.offered inp)) := by
  unfold revPack
  rw [enabled_squashPack, enabled_squashPack]
  exact List.filter_sublist.trans List.filter_sublist

/-- Slot `j` was there before the cycle. -/
structure Stays (s : LsuIssue) (inp : LsuIssueInput) (s' : LsuIssue) (j : Nat) : Prop where
  valid : s.valid j = true
  item : (s'.entry j).item = (s.entry j).item
  robId : (s'.entry j).robId = (s.entry j).robId
  isStore : (s'.entry j).isStore = (s.entry j).isStore
  keeps : inp.squashes (s.entry j).item.robId = false
  /-- It has sent its address, and no replay takes that back. -/
  address : (s.entry j).isStore = true → (s'.entry j).sauPartIssued = true →
    ((s.entry j).sauPartIssued = true ∨ active inp = true ∧ s.selected inp 1 = some j) ∧
      (inp.lu.replay && (s.entry j).atRisk) = false
  /-- It has issued, and is not to be issued again. -/
  issued : s.issued j = true → s'.issued j = false → (s.entry j).replays inp.lu = true
  last : active inp = true → ∀ i, i = 1 ∨ i = 2 → s.selected inp i = some j →
    s.lastUop inp i j = true → s'.issued j = true
  rewritten : Rewritten s inp s' j

/-- What a cycle without a flush of commit makes of the queue. -/
structure Cycled (s : LsuIssue) (inp : LsuIssueInput) (s' : LsuIssue) : Prop where
  fine : s'.Fine s'.holdRevPack
  slot : ∀ j, s'.valid j = true → Stays s inp s' j ∨
    ∃ op ∈ enabled (s.offered inp), inp.squashes op.robId = false ∧ Given s' j op
  held : ∀ op ∈ enabled s'.holdRevPack,
    op ∈ enabled (s.offered inp) ∧ inp.squashes op.robId = false

theorem cycle_cycled {s' : LsuIssue} (inp : LsuIssueInput) (hs : s.Fine (s.offered inp))
    (h : s.cycle inp = some s') (hflush : inp.commitFlush = false) : Cycled s inp s' := by
  obtain ⟨new, hwoken, hinput⟩ := Option.map_eq_some_iff.mp h
  obtain ⟨hbusy, hheld⟩ := woken_held hwoken
  have hrev : new.revPack inp = s.revPack inp := by
    unfold revPack
    rw [hbusy, hheld]
  have hslot {j : Nat} (hv : new.valid j = true) : Woken s inp new j :=
    woken_slot hwoken hflush (hs.bound j (woken_valid hwoken hflush hv))
  have hstore {j : Nat} {robId : Ptr} (hj : new.HoldsStore j robId) : s.HoldsStore j robId := by
    have hw := hslot hj.valid
    exact ⟨(hw.valid hj.valid).1, hw.isStore ▸ hj.isStore, hw.robId ▸ hj.robId⟩
  have hnew : new.Fine (s.revPack inp) := by
    have hsub := revPack_sublist s inp
    refine ⟨fun j hv => hs.bound j ((hslot hv).valid hv).1, fun j hv => ?_,
      fun j k robId hj hk => hs.unique j k robId (hstore hj) (hstore hk),
      fun op hop => hs.arriving op (hsub.subset hop),
      fun op hop hu j hj => hs.apart op (hsub.subset hop) hu j (hstore hj),
      hs.distinct.sublist hsub⟩
    have hw := hslot hv
    have hf := hs.slot j (hw.valid hv).1
    refine ⟨?_, ?_, ?_, ?_, ?_, ?_⟩
    · rw [hw.item]
      exact hf.enable
    · rw [hw.item]
      exact hf.unit
    · rw [hw.item, hw.robId]
      exact hf.robId
    · rw [hw.item, hw.isStore]
      exact hf.isStore
    · rw [hw.lpv, hw.isStore]
      exact hf.lpv
    · rw [hw.wakeupShift]
      exact hf.wakeupShift
  rw [runInput, if_neg (by rw [hflush]; decide), hrev] at hinput
  have hopen : Fine { new with busy := false, holdRevPack := [] } (s.revPack inp) :=
    hnew.congr rfl rfl
  have hfilled := hopen.pushPack s inp rfl 0
  rw [hinput] at hfilled
  refine ⟨hfilled.fine, fun j hv => ?_, fun op hop => mem_revPack.mp (hfilled.held op hop)⟩
  rcases hfilled.given j hv with hold | ⟨op, hop, hg⟩
  · have hk := hfilled.kept j hold
    have hold : new.valid j = true := hold
    have hw := hslot hold
    obtain ⟨hvalid, hkeep⟩ := hw.valid hold
    have hbound := hs.bound j hvalid
    have he : s'.entry j = new.entry j := hk.entry
    have hissued : s'.issued j = new.issued j := hk.issued
    refine .inl ⟨hvalid, ?_, ?_, ?_, hkeep, fun hst haddr => ?_, fun hi hn => ?_,
      fun ha i hi hsel hlast => ?_, ?_⟩
    · rw [he]
      exact hw.item
    · rw [he]
      exact hw.robId
    · rw [he]
      exact hw.isStore
    · rw [he, woken_address hwoken hflush hbound hvalid hkeep hst, Bool.and_eq_true,
        Bool.not_eq_true', Bool.or_eq_true, Bool.and_eq_true, beq_iff_eq] at haddr
      exact haddr
    · rw [hissued] at hn
      rcases hw.reissues hold hn with hno | ⟨-, hrep⟩
      · rw [hi] at hno
        cases hno
      · exact hrep
    · rw [hissued]
      exact woken_issued hwoken hflush hbound hvalid hkeep ha hi hsel hlast
    · obtain ⟨hentry, hissues, hstays⟩ := woken_rewritten hwoken hflush hbound hvalid hkeep
      exact ⟨he ▸ hentry, hissued.trans hissues, fun hi hno _ => hstays hi hno hold⟩
  · obtain ⟨hmem, hkeep⟩ := mem_revPack.mp hop
    exact .inr ⟨op, hmem, hkeep, hg⟩

/-! ### What is issued -/

/-- A part of a store, as slot `j` issues it on port `i`. -/
structure SendsPart (s : LsuIssue) (inp : LsuIssueInput) (i j : Nat) : Prop where
  port : i = 1 ∨ i = 2
  selected : s.selected inp i = some j
  holds : s.HoldsStore j (s.sent inp i).robId
  unit : (s.sent inp i).opUnit = if i = 1 then .sau else .sdu
  lastUop : (s.sent inp i).lastUop = s.lastUop inp i j
  lpv : (s.sent inp i).lpv = (s.entry j).sentLpv

/-- What is selected on a port of the stores is a part of the store in the slot. -/
theorem selected_part (inp : LsuIssueInput) (hs : s.Fine ops) (hi : i = 1 ∨ i = 2)
    (hsel : s.selected inp i = some j) : SendsPart s inp i j := by
  have hcand := selected_candidate hsel
  have hawake := selected_awake hsel
  simp only [awake, Bool.and_eq_true] at hawake
  have hv : s.valid j = true := hawake.1.1.1.1.1
  have hslot := hs.slot j hv
  have hstore : (s.entry j).isStore = true := by
    rcases hi with rfl | rfl <;> simp only [candidate, Bool.and_eq_true] at hcand <;>
      exact hcand.1.1.2
  refine ⟨hi, hsel, ⟨hv, hstore, ?_⟩, ?_, ?_, ?_⟩
  · rw [sent, hsel]
    rcases hi with rfl | rfl <;> exact hslot.robId.symm
  · rw [sent, hsel]
    rcases hi with rfl | rfl
    · rfl
    · rw [hslot.isStore, beq_iff_eq] at hstore
      rw [if_neg (by decide)]
      exact hstore
  · rw [sent, hsel]
    rcases hi with rfl | rfl <;> rfl
  · rw [sent, hsel]

/-- **A part that is issued** comes from the slot of its store. -/
theorem sent_part (inp : LsuIssueInput) (hs : s.Fine ops) (hi : i < lsuIssueWidth)
    (hen : (s.sent inp i).enable = true) (hpart : (s.sent inp i).opUnit.isStorePart = true) : ∃ j, SendsPart s inp i j := by
  cases hsel : s.selected inp i with
  | none =>
    rw [sent, hsel] at hen
    cases hen
  | some j =>
    by_cases h0 : i = 0
    · -- what goes out on the port of the loads is a load
      subst h0
      have hawake := selected_awake hsel
      simp only [awake, Bool.and_eq_true] at hawake
      have hslot := hs.slot j hawake.1.1.1.1.1
      have hload := selected_zero hsel
      rw [hslot.isStore, beq_eq_false_iff_ne] at hload
      have hlu : (s.entry j).item.opUnit = .lu := hslot.unit.unit.resolve_right hload
      rw [sent, hsel] at hpart
      simp [hlu, OpUnit.isStorePart] at hpart
    · unfold lsuIssueWidth at hi
      exact ⟨j, selected_part inp hs (by omega) hsel⟩

theorem SendsPart.enable (h : SendsPart s inp i j) (hs : s.Fine ops) :
    (s.sent inp i).enable = true := by
  have hen := (hs.slot j h.holds.valid).enable
  rw [sent, h.selected]
  rcases h.port with rfl | rfl <;> exact hen

/-- What a part that is issued has to be: its slot has not issued, and is not squashed. -/
theorem SendsPart.awake (h : SendsPart s inp i j) : s.issued j = false ∧
    inp.squashes (s.entry j).robId = false ∧ (inp.lu.replay && (s.entry j).atRisk) = false := by
  have hawake := selected_awake h.selected
  simp only [LsuIssue.awake, Bool.and_eq_true, Bool.not_eq_true'] at hawake
  exact ⟨hawake.1.2, hawake.1.1.1.2, hawake.1.1.2⟩

end LsuIssue

/-! ## From place to place -/

namespace LsuPipe

variable {s s' : LsuPipe} {inp : LsuIssueInput} {op op' : OpInfo} {robId : Ptr} {n : Nat}

/-- Where what is at place `n` goes. From its port a result goes to commit, and stays there. -/
def next (inp : LsuIssueInput) : Nat → Nat
  | 0 => if inp.lu.stall then 0 else 1
  | 1 => 2
  | _ => 3

theorem next_mono (inp : LsuIssueInput) {m : Nat} (h : m ≤ n) : next inp m ≤ next inp n := by
  unfold next
  grind

/-- What is not squashed, and not dropped by register read, goes on. -/
theorem part_to (h : s.cycle inp = some s') (hflush : inp.commitFlush = false) (hn : n ≤ 1)
    (hop : op ∈ s.parts n) (hpart : op.IsPart robId) (hkeep : inp.squashes robId = false)
    (hpass : n = 0 → ∀ a ∈ s.rev, a.toOpInfo.IsPart robId →
      LsuReadreg.replayed inp.lu a = false) :
    ∃ op' ∈ s'.parts (next inp n), op.SamePart op' := by
  obtain ⟨hen, hunit, rfl⟩ := hpart
  have hn' : n = 0 ∨ n = 1 := by omega
  rcases hn' with rfl | rfl
  · obtain ⟨a, ha, rfl⟩ := List.mem_map.mp hop
    have hskip : LsuReadreg.skips inp a = false := by
      rw [LsuReadreg.skips, hkeep, hpass rfl a ha ⟨hen, hunit, rfl⟩]
      rfl
    cases hstall : inp.lu.stall with
    | true =>
      refine ⟨a.toOpInfo, ?_, rfl, rfl, rfl, rfl⟩
      rw [next, hstall, if_pos rfl]
      exact List.mem_map_of_mem ((rev_stalled h hflush hstall hen).mpr ⟨ha, hskip⟩)
    | false =>
      refine ⟨a.toOpInfo, ?_, rfl, rfl, rfl, rfl⟩
      rw [next, hstall, if_neg (by decide)]
      exact handshake_to h hflush hstall ha hen hunit hskip
  · exact port_to h hflush hop hkeep

/-- Where the part `op'` of the store `robId`, at place `n` after a cycle, has come from. -/
inductive PartFrom (s : LsuPipe) (inp : LsuIssueInput) (robId : Ptr) (n : Nat) (op' : OpInfo) :
    Prop where
  | moved (m : Nat) (op : OpInfo) : m ≤ 1 → n = next inp m → inp.squashes robId = false →
      op ∈ s.parts m → op.SamePart op' →
      (m = 0 → op' = op ∧ ∃ a ∈ s.rev, a.toOpInfo = op ∧ LsuReadreg.skips inp a = false) →
      PartFrom s inp robId n op'
  | issued (i : Nat) : n = 0 → s.issues inp = true → i < lsuIssueWidth →
      (s.issue.sent (s.sees inp) i).toOpInfo = op' → PartFrom s inp robId n op'

/-- **What is at a place has come from the one before**, or has just been issued. -/
theorem part_from (h : s.cycle inp = some s') (hflush : inp.commitFlush = false)
    (hsau : inp.sau.flush = false) (hop : op' ∈ s'.parts n) (hpart : op'.IsPart robId) :
    PartFrom s inp robId n op' := by
  obtain ⟨hen, hunit, rfl⟩ := hpart
  have hsquash {robId : Ptr} (hb : inp.bru.squashes robId = false) : inp.squashes robId = false := by
    rw [LsuIssueInput.squashes, hb, FlushFeedback.squashesEqual, hsau]
    rfl
  have hskips {a : IntegerIssueOp} (hs : LsuReadreg.skips inp a = false) :
      inp.squashes a.robId = false := by
    rw [LsuReadreg.skips, Bool.or_eq_false_iff] at hs
    exact hs.1
  rcases n with _ | _ | _ | n
  · obtain ⟨a, ha, rfl⟩ := List.mem_map.mp hop
    cases hstall : inp.lu.stall with
    | true =>
      obtain ⟨hold, hs⟩ := (rev_stalled h hflush hstall hen).mp ha
      refine .moved 0 a.toOpInfo (by decide) ?_ (hskips hs) (List.mem_map_of_mem hold)
        ⟨rfl, rfl, rfl, rfl⟩ fun _ => ⟨rfl, a, hold, rfl, hs⟩
      rw [next, hstall, if_pos rfl]
    | false =>
      obtain ⟨hissues, i, hi, hsent⟩ := (rev_issued h hflush hstall hen).mp ha
      exact .issued i rfl hissues hi (by rw [hsent])
  · obtain ⟨unit, hstore, pack, hpack, rfl⟩ := mem_parts_one.mp hop
    obtain ⟨hstall, a, ha, -, hs, -, hpack⟩ := handshake_from h hflush hstore hpack
    rw [hpack]
    refine .moved 0 a.toOpInfo (by decide) ?_ (hskips hs) (List.mem_map_of_mem ha)
      ⟨rfl, rfl, rfl, rfl⟩ fun _ => ⟨rfl, a, ha, rfl, hs⟩
    rw [next, hstall, if_neg (by decide)]
  · obtain ⟨op, hold, hsame, hb⟩ := port_from h hop hen
    refine .moved 1 op (Nat.le_refl _) rfl ?_ hold hsame fun hn => by cases hn
    rw [hsame.robId]
    exact hsquash hb
  · cases hop

end LsuPipe

end DreamCore
