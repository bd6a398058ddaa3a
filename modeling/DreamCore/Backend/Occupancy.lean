import DreamCore.Lib.DelayLine
import DreamCore.Lib.Loops
import DreamCore.Pipeline.Decode
import DreamCore.Pipeline.IntegerPipe

/-!
# The divider is free when it is needed

The divider works on one operation at a time and takes the next one from its
handshake as soon as its count is zero, before it has sent the result. So nothing
may arrive before the cycle after. The issue stage sees to that two stages
earlier: it keeps a bit that it shifts once for each cycle the divider may still
need, and issues no divide while the bit is there.

Squashed, replayed and skipped divides leave the bit as it is, which is late but
never early. Seen from register read the divider is a delay line: what enters
comes out eight cycles later, unless a flush squashes it on the way.
-/

namespace DreamCore

open Ring DelayLine Loops

/-! ## What is in the queue -/

/-- An instruction as decode makes it for one of the integer units. -/
structure OpInfo.ForInteger (op : OpInfo) : Prop where
  unit : op.opUnit.isLsu = false
  rs1 : op.rs1NeedMap = true → op.arg1Src = .reg
  rs2 : op.rs2NeedMap = true → op.arg2Src = .reg
  valid : op.opUnit = .div → op.valid = true
  subOp : op.opUnit = .div → ∃ d, op.subOp = .div d

/-- A source that can still be woken, or never needs to be. -/
def IssueSource.Settled (argSrc : ArgSrc) (needMap : Bool) (s : IssueSource) : Prop :=
  (needMap = true ∧ argSrc = .reg) ∨ (s.ready = true ∧ s.lpv = 0)

/-- **An entry as `run_input` writes it**, whatever has become of its sources. -/
structure IntegerEntry.Fine (e : IntegerEntry) : Prop where
  op : e.item.ForInteger
  port : e.portIndex < integerIssueWidth
  unit : (readregUnit e.portIndex e.item.opUnit).isSome
  seq : ∃ place, integerShift e.item.opUnit = some place ∧ e.opUnitSeq = 1 <<< place
  idle : e.newIdleShift = latencyToIdleShift (integerLatency e.item.opUnit)
  src1 : e.src1.Settled e.item.arg1Src e.item.rs1NeedMap
  src2 : e.src2.Settled e.item.arg2Src e.item.rs2NeedMap

/-- **The issue stage between two cycles.** -/
structure IntegerStage.Fine (s : IntegerStage) : Prop where
  entry : ∀ j, s.valid j = true → (s.entry j).Fine
  held : ∀ op ∈ s.holdRevPack, op.enable = true → op.ForInteger
  next : s.nextPortIndex < integerIssueWidth

/-- What dispatch may send. -/
def IntegerPipeInput.Legal (inp : IntegerPipeInput) : Prop :=
  ∀ op ∈ inp.pack, op.enable = true → op.ForInteger

/-- A divide is marked as one. -/
def DecodeRenamePack.DivMarked (p : DecodeRenamePack) : Prop :=
  p.opUnit = .div → ∃ d, p.subOp = .div d

theorem decodeSwitch_divMarked (w : Word) {p : DecodeRenamePack} (hp : p.opUnit = .alu) :
    (decodeSwitch w p).DivMarked := by
  have hother {q : DecodeRenamePack} (hq : q.opUnit ≠ .div) : q.DivMarked :=
    fun hdiv => absurd hdiv hq
  have hinv : p.invalid.DivMarked := hother (by simp [DecodeRenamePack.invalid, hp])
  unfold decodeSwitch
  split
  case h_5 =>
    unfold decodeBranch
    dsimp only
    split <;> exact hother (by simp [DecodeRenamePack.invalid])
  case h_6 =>
    unfold decodeLoad
    dsimp only
    split <;> exact hother (by simp [DecodeRenamePack.invalid])
  case h_7 =>
    unfold decodeStore
    dsimp only
    split <;> exact hother (by simp [DecodeRenamePack.invalid])
  case h_8 =>
    unfold decodeOpImm
    dsimp only
    split <;> exact hother (by simp [DecodeRenamePack.invalid])
  case h_9 =>
    -- the only place where a divide is made
    unfold decodeOpReg
    dsimp only
    split <;> first
      | exact fun _ => ⟨_, rfl⟩
      | exact hother (by simp [DecodeRenamePack.invalid])
  case h_10 =>
    unfold decodeFence
    split
    · split <;> first | exact hinv | exact hother (by simp)
    · split <;> first | exact hinv | exact hother (by simp)
    · exact hinv
  case h_11 =>
    unfold decodeSystem
    split
    · split
      · split <;> first | exact hinv | exact hother (by simp)
      · exact hinv
    all_goals first
      | exact hinv
      | exact hother (by simp [decodeCsrReg, decodeCsrImm])
  case h_12 => exact hinv
  all_goals exact hother (by simp)

/-- **What decode makes** for an integer unit is an instruction for it. -/
theorem decode_forInteger {rev : Fetch2DecodePack} {op : OpInfo}
    (h : op.toDecodeRenamePack = decode rev) (hunit : op.opUnit.isLsu = false) : op.ForInteger := by
  have hmarked := decodeSwitch_divMarked rev.value (p := decodeStart rev) rfl
  have hneed {src : ArgSrc} {r : Nat} (hmap : (src == .reg && decide (r > 0)) = true) : src = .reg :=
    beq_iff_eq.mp (Bool.and_eq_true_iff.mp hmap).1
  unfold decode at h
  dsimp only [DecodeRenamePack.setNeedMap] at h
  split at h
  · rename_i hvalid
    refine ⟨hunit, ?_, ?_, ?_, ?_⟩ <;> rw [h]
    · exact hneed
    · exact hneed
    · exact fun _ => hvalid
    · exact hmarked
  · refine ⟨hunit, ?_, ?_, ?_, ?_⟩ <;> rw [h]
    · exact hneed
    · exact hneed
    · exact fun hdiv => by cases hdiv
    · exact fun hdiv => by cases hdiv

namespace IssueSource

variable {argSrc : ArgSrc} {needMap : Bool} {s : IssueSource}

theorem cancel_idle (lu : LuFeedback) (h : s.lpv = 0) : s.cancel lu = s := by
  simp [cancel, atRisk, h]

theorem stall_idle (lu : LuFeedback) (h : s.lpv = 0) : s.stall lu = s := by
  simp [stall, h]

theorem shift_idle (lu : LuFeedback) (h : s.lpv = 0) : s.shift lu = s := by
  have hzero : s.lpv >>> 1 = s.lpv := by
    rw [h]
    decide
  unfold shift
  rw [hzero]
  exact ite_self s

theorem delay_ready (h : s.ready = true) : s.delay = s := by
  simp [delay, h]

/-- **The wakeup of a source** passes its checks and keeps it settled. -/
theorem wakes (h : s.Settled argSrc needMap) (phyId : Nat) (lu : LuFeedback)
    (integer lsu : List WakeupChannel) (execute : List ExecuteFeedbackChannel) :
    ∃ s', ((((s.cancel lu).stall lu).shift lu).awaken argSrc needMap phyId integer lsu execute)
      = some s' ∧ s'.Settled argSrc needMap := by
  rcases h with ⟨hmap, hreg⟩ | ⟨hready, hlpv⟩
  · have hwake (s : IssueSource) (c : WakeupChannel) : ∃ s', wake argSrc phyId s c = some s' := by
      unfold wake
      split
      · rw [hreg]
        exact ⟨_, rfl⟩
      · exact ⟨s, rfl⟩
    have hexecuted (s : IssueSource) (c : ExecuteFeedbackChannel) :
        ∃ s', executed argSrc needMap phyId s c = some s' := by
      unfold executed
      split
      · rw [hreg, hmap]
        exact ⟨_, rfl⟩
      · exact ⟨s, rfl⟩
    obtain ⟨s₁, h₁, -⟩ := foldlM_keeps (wake argSrc phyId) (fun _ => True) (integer ++ lsu)
      (fun s _ c _ => (hwake s c).imp fun _ h => ⟨h, trivial⟩)
      (b := (((s.cancel lu).stall lu).shift lu).delay) trivial
    obtain ⟨s₂, h₂, -⟩ := foldlM_keeps (executed argSrc needMap phyId) (fun _ => True) execute
      (fun s _ c _ => (hexecuted s c).imp fun _ h => ⟨h, trivial⟩) (b := s₁) trivial
    exact ⟨s₂, by rw [awaken, h₁]; exact h₂, .inl ⟨hmap, hreg⟩⟩
  · have hwake (c : WakeupChannel) : wake argSrc phyId s c = some s := by
      simp [wake, hready]
    have hexecuted (c : ExecuteFeedbackChannel) : executed argSrc needMap phyId s c = some s := by
      simp [executed, hready]
    obtain ⟨s₁, h₁, rfl⟩ := foldlM_keeps (wake argSrc phyId) (fun t => t = s) (integer ++ lsu)
      (fun t ht c _ => ⟨s, by rw [ht, hwake c], rfl⟩) (b := s) rfl
    obtain ⟨s₂, h₂, rfl⟩ := foldlM_keeps (executed argSrc needMap phyId) (fun t => t = s₁) execute
      (fun t ht c _ => ⟨s₁, by rw [ht, hexecuted c], rfl⟩) (b := s₁) rfl
    refine ⟨s₂, ?_, .inr ⟨hready, hlpv⟩⟩
    rw [cancel_idle lu hlpv, stall_idle lu hlpv, shift_idle lu hlpv, awaken, delay_ready hready, h₁]
    exact h₂

end IssueSource

/-! ## The stages keep it -/

namespace IntegerIssue

/-- All entries are as `run_input` writes them, and the units are these. -/
def Holds (units : IntegerUnits) (s : IntegerIssue) : Prop :=
  s.units = units ∧ ∀ j, s.valid j = true → (s.entry j).Fine

theorem wakeEntry_fine {e : IntegerEntry} (h : e.Fine) (inp : WakeupInput) :
    ∃ e', wakeEntry inp e = some e' ∧ e'.Fine := by
  obtain ⟨src1, h₁, hs₁⟩ := IssueSource.wakes h.src1 e.item.rs1Phy inp.lu inp.integer
    inp.lsu inp.execute
  obtain ⟨src2, h₂, hs₂⟩ := IssueSource.wakes h.src2 e.item.rs2Phy inp.lu inp.integer
    inp.lsu inp.execute
  refine ⟨{ e with src1 := src1, src2 := src2 }, ?_, ⟨h.op, h.port, h.unit, h.seq, h.idle, hs₁, hs₂⟩⟩
  unfold wakeEntry
  rw [h₁, h₂]
  rfl

/-- A slot is given up. -/
theorem Holds.clear {units : IntegerUnits} {s : IntegerIssue} (h : s.Holds units) (j : Nat) :
    Holds units { s with valid := Function.update s.valid j false } := by
  refine ⟨h.1, fun k hk => ?_⟩
  change Function.update s.valid j false k = true at hk
  by_cases hkj : k = j
  · subst hkj
    rw [Function.update_self] at hk
    cases hk
  · rw [Function.update_of_ne hkj] at hk
    exact h.2 k hk

/-- An entry is written. -/
theorem Holds.write {units : IntegerUnits} {s : IntegerIssue} (h : s.Holds units) (j : Nat)
    {e : IntegerEntry} (he : e.Fine) :
    Holds units { s with entry := Function.update s.entry j e } := by
  refine ⟨h.1, fun k hk => ?_⟩
  change (Function.update s.entry j e k).Fine
  by_cases hkj : k = j
  · subst hkj
    rwa [Function.update_self]
  · rw [Function.update_of_ne hkj]
    exact h.2 k hk

theorem wakeSlot_holds {cur new : IntegerIssue} {units : IntegerUnits}
    (hcur : ∀ j, cur.valid j = true → (cur.entry j).Fine) (h : new.Holds units)
    (inp : WakeupInput) (j : Nat) : ∃ new', cur.wakeSlot new inp j = some new' ∧ new'.Holds units := by
  unfold wakeSlot
  split
  · exact ⟨new, rfl, h⟩
  · rename_i hvalid
    split
    · exact ⟨_, rfl, h.clear j⟩
    · obtain ⟨e, he, hfine⟩ := wakeEntry_fine (hcur j (by simpa using hvalid)) inp
      have hwrite := h.write j hfine
      rw [he]
      dsimp only [Option.bind_eq_bind, Option.bind_some, Option.pure_def]
      split
      · split
        · exact ⟨_, rfl, hwrite⟩
        · split
          · exact ⟨_, rfl, hwrite.clear j⟩
          · exact ⟨_, rfl, hwrite⟩
      · exact ⟨_, rfl, hwrite⟩

/-- **`run_wakeup`** passes its checks, and keeps the entries. -/
theorem runWakeup_holds {cur new : IntegerIssue} {units : IntegerUnits}
    (hcur : ∀ j, cur.valid j = true → (cur.entry j).Fine) (h : new.Holds units)
    (inp : WakeupInput) (commitFlush : Bool) :
    ∃ new', cur.runWakeup new inp commitFlush = some new' ∧ new'.Holds units := by
  unfold runWakeup
  split
  · exact ⟨new, rfl, h⟩
  · exact foldlM_keeps _ (Holds units) _ (fun new hnew j _ => wakeSlot_holds hcur hnew inp j) h

theorem issue_holds {s new : IntegerIssue} {units : IntegerUnits} (h : new.Holds units)
    (inp : IntegerIssueInput) (i : Nat) : (s.issue new inp i).Holds units := by
  unfold issue
  split
  · rename_i j _
    split
    · exact h.clear j
    · exact h
  · exact h

/-- **What a port selects** is in the queue, belongs to the port, and its unit is idle. -/
theorem selected_spec {s : IntegerIssue} {inp : IntegerIssueInput} {i j : Nat}
    (h : s.selected inp i = some j) :
    s.valid j = true ∧ (s.entry j).portIndex = i ∧
      (s.entry j).opUnitSeq &&& s.units.mask i ≠ 0 := by
  have hcand := (Pick.pick_mem h).2
  simp only [candidate, ready, Bool.and_eq_true, bne_iff_ne, beq_iff_eq] at hcand
  exact ⟨hcand.1.1.1.1.1.1.1.1.1, hcand.1.1.1.1.1.1.2, hcand.1.1.1.1.1.1.1.2⟩

end IntegerIssue

namespace IntegerStage

open IntegerIssue

/-- The stage with other entries. -/
theorem Fine.ofHolds {s : IntegerStage} (h : s.Fine) {q : IntegerIssue} {units : IntegerUnits}
    (hq : q.Holds units) : Fine { s with toIntegerIssue := q } :=
  ⟨hq.2, h.held, h.next⟩

theorem firstSource_settled (inp : IntegerPipeInput) (op : OpInfo) {needMap : Bool}
    {argSrc : ArgSrc} (phyId : Nat) (h : needMap = true → argSrc = .reg) :
    (firstSource inp op needMap phyId).Settled argSrc needMap := by
  cases needMap with
  | true => exact .inl ⟨rfl, h rfl⟩
  | false =>
      refine .inr ?_
      simp [firstSource]

theorem entryOf_fine (inp : IntegerPipeInput) {next : Nat} (hnext : next < integerIssueWidth)
    {op : OpInfo} (h : op.ForInteger) : ∃ e, entryOf inp next op = some e ∧ e.Fine := by
  have hnext' : next = 0 ∨ next = 1 := by
    unfold integerIssueWidth at hnext
    omega
  have hunit := h.unit
  obtain ⟨place, hplace⟩ : ∃ place, integerShift op.opUnit = some place := by
    cases hu : op.opUnit <;> rw [hu] at hunit <;> first | exact ⟨_, rfl⟩ | cases hunit
  refine ⟨_, by rw [entryOf, hplace]; rfl, ⟨h, ?_, ?_, ⟨place, hplace, rfl⟩, rfl,
    firstSource_settled inp op _ h.rs1, firstSource_settled inp op _ h.rs2⟩⟩
  · rcases hnext' with rfl | rfl <;> cases hu : op.opUnit <;> simp [portOf, integerIssueWidth]
  · rcases hnext' with rfl | rfl <;> cases hu : op.opUnit <;>
      simp [portOf, readregUnit] <;> rw [hu] at hunit <;> cases hunit

theorem pushPack_fine (inp : IntegerPipeInput) (ops : List OpInfo)
    (hops : ∀ op ∈ ops, op.enable = true → op.ForInteger) {s : IntegerStage} (h : s.Fine) :
    ∃ s', pushPack inp ops s = some s' ∧ s'.Fine ∧ s'.units = s.units := by
  induction ops generalizing s with
  | nil => exact ⟨s, rfl, h, rfl⟩
  | cons op ops ih =>
      have hrest := fun op hop => hops op (List.mem_cons_of_mem _ hop)
      unfold pushPack
      split
      · exact ih hrest h
      · rename_i henable
        split
        · rename_i id _
          have hop := hops op (List.mem_cons_self ..) (by simpa using henable)
          obtain ⟨e, he, hfine⟩ := entryOf_fine inp h.next hop
          rw [he]
          refine ih hrest ⟨fun k hk => ?_, h.held, ?_⟩
          · change (Function.update s.entry id e k).Fine
            by_cases hkid : k = id
            · subst hkid
              rwa [Function.update_self]
            · have hk' : Function.update s.valid id true k = true := hk
              rw [Function.update_of_ne hkid] at hk' ⊢
              exact h.entry k hk'
          · change portAfter s.nextPortIndex op.opUnit < integerIssueWidth
            unfold portAfter
            split
            · exact Nat.mod_lt _ (by decide)
            · exact Nat.mod_lt _ (by decide)
            · exact h.next
        · exact ⟨_, rfl, ⟨h.entry, hops, h.next⟩, rfl⟩

theorem squashPack_forInteger {squashed : Ptr → Bool} {ops : List OpInfo}
    (h : ∀ op ∈ ops, op.enable = true → op.ForInteger) :
    ∀ op ∈ squashPack squashed ops, op.enable = true → op.ForInteger := by
  intro op hop henable
  obtain ⟨op', hmem, rfl⟩ := List.mem_map.mp hop
  split at henable
  · cases henable
  · rename_i hkept
    rw [if_neg hkept]
    exact h op' hmem henable

/-- **`run_input`** knows every unit it is given. It leaves the busy registers alone, but for a
flush. -/
theorem runInput_fine {s : IntegerStage} (h : s.Fine) {inp : IntegerPipeInput} (hinp : inp.Legal) :
    ∃ s', s.runInput inp = some s' ∧ s'.Fine ∧
      s'.units = if inp.commitFlush then {} else s.units := by
  unfold runInput
  split
  · exact ⟨_, rfl, ⟨fun j hj => (by cases hj), fun op hop => (by cases hop), (by decide : 0 < integerIssueWidth)⟩, rfl⟩
  · refine pushPack_fine inp _ (squashPack_forInteger (squashPack_forInteger ?_))
      ⟨h.entry, fun op hop => (by cases hop), h.next⟩
    split
    · exact h.held
    · exact hinp

end IntegerStage

/-! ## The output stage -/

/-- The bit of a divide that has just been issued. -/
def divBit : UnitBusy := ⟨false, latencyToIdleShift divLatency⟩

/-- What port `i` has sent, if anything: one of its instructions. -/
def PortFine (i : Nat) (op : IntegerIssueOp) : Prop :=
  op.enable = true → op.toOpInfo.ForInteger ∧ (readregUnit i op.opUnit).isSome

namespace IntegerEntry.Fine

variable {e : IntegerEntry}

/-- Only a divide keeps its unit busy. -/
theorem idleShift_other (h : e.Fine) (hunit : e.item.opUnit ≠ .div) : e.newIdleShift = 0 := by
  rw [h.idle]
  cases hu : e.item.opUnit
  case div => exact absurd hu hunit
  all_goals rfl

theorem idleShift_div (h : e.Fine) (hunit : e.item.opUnit = .div) :
    e.newIdleShift = divBit.idleShift := by
  rw [h.idle, hunit]
  rfl

theorem seq_div (h : e.Fine) (hunit : e.item.opUnit = .div) : e.opUnitSeq = 1 <<< divShift := by
  obtain ⟨place, hplace, hseq⟩ := h.seq
  rw [hunit] at hplace
  cases hplace
  exact hseq

/-- No divide goes to port 0. -/
theorem not_div (h : e.Fine) (hport : e.portIndex = 0) : e.item.opUnit ≠ .div := by
  intro hunit
  have hsome := h.unit
  rw [hport, hunit] at hsome
  cases hsome

end IntegerEntry.Fine

/-- The mask of port 1 lets a divide through when the divider is idle. -/
theorem IntegerUnits.mask_div (u : IntegerUnits) (h : (1 <<< divShift : Word) &&& u.mask 1 ≠ 0) :
    u.div.idle = true := by
  cases hidle : u.div.idle with
  | true => rfl
  | false =>
      have hmask : u.mask 1 = (u.alu 1).bit aluShift ||| (u.mul 1).bit mulShift
          ||| u.div.bit divShift := rfl
      refine absurd ?_ h
      rw [hmask]
      unfold UnitBusy.bit
      rw [hidle]
      cases (u.alu 1).idle <;> cases (u.mul 1).idle <;> decide

namespace IntegerStage

open IntegerIssue

variable {s : IntegerStage} {inp : IntegerIssueInput}

theorem sent_fine (h : s.Fine) (i : Nat) : PortFine i (s.sent inp i) := by
  intro henable
  unfold sent at henable ⊢
  cases hsel : s.selected inp i with
  | none =>
      rw [hsel] at henable
      cases henable
  | some j =>
      obtain ⟨hvalid, hport, -⟩ := selected_spec hsel
      have hfine := h.entry j hvalid
      exact ⟨hfine.op, hport ▸ hfine.unit⟩

/-- Port 0 keeps no unit busy. -/
theorem occupied_eq (h : s.Fine) : s.occupied inp = match s.selected inp 1 with
    | some j =>
        if (s.entry j).newIdleShift != 0 then
          s.units.tick.occupy1 (s.entry j).opUnitSeq (s.entry j).newIdleShift
        else some s.units.tick
    | none => some s.units.tick := by
  unfold occupied
  cases hsel : s.selected inp 0 with
  | none => rfl
  | some j =>
      obtain ⟨hvalid, hport, -⟩ := selected_spec hsel
      have hfine := h.entry j hvalid
      dsimp only
      rw [hfine.idleShift_other (hfine.not_div hport)]
      rfl

/-- **The busy registers** say of the divider that it was issued a divide, or shift. -/
theorem occupied_spec (h : s.Fine) (inp : IntegerIssueInput) : ∃ units, s.occupied inp = some units ∧
    ((s.sent inp 1).opUnit = .div → s.units.div.idle = true ∧ units.div = divBit) ∧
    ((s.sent inp 1).opUnit ≠ .div → units.div = s.units.div.tick) := by
  rw [occupied_eq h]
  unfold sent
  cases hsel : s.selected inp 1 with
  | none => exact ⟨_, rfl, fun hdiv => (by cases hdiv), fun _ => rfl⟩
  | some j =>
      obtain ⟨hvalid, -, hmask⟩ := selected_spec hsel
      have hfine := h.entry j hvalid
      dsimp only
      by_cases hunit : (s.entry j).item.opUnit = .div
      · rw [hfine.seq_div hunit] at hmask ⊢
        rw [hfine.idleShift_div hunit]
        exact ⟨_, rfl, fun _ => ⟨s.units.mask_div hmask, rfl⟩, fun hn => absurd hunit hn⟩
      · rw [hfine.idleShift_other hunit]
        exact ⟨_, rfl, fun hdiv => absurd hdiv hunit, fun _ => rfl⟩

/-- What the output stage leaves behind. -/
structure Output (s : IntegerStage) (inp : IntegerIssueInput) (port : List IntegerIssueOp)
    (units : IntegerUnits) : Prop where
  each : ∀ i, i < integerIssueWidth → PortFine i (port.getD i {})
  issues : (port.getD 1 {}).opUnit = .div → s.units.div.idle = true ∧ units.div = divBit
  ticks : (port.getD 1 {}).opUnit ≠ .div → units.div = s.units.div.tick

/-- **`run_output`** without a commit flush. -/
theorem runOutput_spec (h : s.Fine) (inp : IntegerIssueInput) : ∃ output port integer units,
    s.runOutput inp false = some (output, port, integer) ∧ output.Holds units ∧
      s.Output inp port units := by
  obtain ⟨units, hunits, hissues, hticks⟩ := occupied_spec h inp
  have hholds : Holds s.units s.toIntegerIssue := ⟨rfl, h.entry⟩
  have hnew := issue_holds (issue_holds hholds inp 0 (s := s.toIntegerIssue)) inp 1
    (s := s.toIntegerIssue)
  have hrun : s.runOutput inp false = some
      ({ s.issue (s.issue s.toIntegerIssue inp 0) inp 1 with units := units },
        (List.range integerIssueWidth).map (s.sent inp),
        (List.range integerIssueWidth).map (s.feedback inp)) := by
    unfold runOutput
    rw [if_neg (by decide), hunits]
    rfl
  refine ⟨_, _, _, units, hrun, ⟨rfl, hnew.2⟩, fun i hi => ?_, hissues, hticks⟩
  have hi' : i = 0 ∨ i = 1 := by
    unfold integerIssueWidth at hi
    omega
  rcases hi' with rfl | rfl
  · exact sent_fine h 0
  · exact sent_fine h 1

end IntegerStage

/-! ## Register read -/

namespace Handshakes

theorem push_empty {units : Type} [DecidableEq units] {new : Handshakes units} {unit : units}
    (h : new unit = none) (pack : ReadregExecutePack) :
    new.push unit pack = some (Function.update new unit (some pack)) := by
  unfold push
  rw [h]
  rfl

theorem dropSquashed_empty {units : Type} (cur : Handshakes units) (squashes : Ptr → Bool) :
    cur.dropSquashed (fun _ => none) squashes = fun _ => none := by
  funext unit
  unfold dropSquashed
  cases cur unit with
  | none => rfl
  | some pack => exact ite_self none

end Handshakes

/-- The two ports feed different units. -/
theorem readregUnit_ne {u v : OpUnit} {unit unit' : IntegerUnit} (h : readregUnit 0 u = some unit)
    (h' : readregUnit 1 v = some unit') : unit ≠ unit' := by
  cases u <;> cases v <;> cases h <;> cases h' <;> decide

theorem readregUnit_div_iff {u : OpUnit} {unit : IntegerUnit} (h : readregUnit 1 u = some unit) :
    unit = .div ↔ u = .div := by
  cases u <;> cases h <;> decide

theorem readregUnit_zero {u : OpUnit} {unit : IntegerUnit} (h : readregUnit 0 u = some unit) :
    unit ≠ .div := by
  cases u <;> cases h <;> decide

/-- An instruction that is sent on is enabled. -/
theorem forwarded_enable {inp : IntegerPipeInput} {op : IntegerIssueOp} {p : ReadregExecutePack}
    (h : forwarded inp op = some p) : op.enable = true := by
  unfold forwarded at h
  split at h
  · rename_i hcond
    simp only [Bool.and_eq_true] at hcond
    exact hcond.1.1
  · cases h

/-- **One port** whose unit has taken what was there. -/
theorem readregPort_spec (inp : IntegerPipeInput) {i : Nat} {op : IntegerIssueOp}
    (h : PortFine i op) {new : Handshakes IntegerUnit}
    (hempty : ∀ unit, readregUnit i op.opUnit = some unit → new unit = none) :
    ∃ new', readregPort inp i op new = some new' ∧
      ∀ unit, new' unit = if readregUnit i op.opUnit = some unit then
        (forwarded inp op).or (new unit) else new unit := by
  unfold readregPort
  cases hf : forwarded inp op with
  | none =>
      refine ⟨new, rfl, fun unit => ?_⟩
      rw [Option.none_or, ite_self]
  | some pack =>
      obtain ⟨unit, hunit⟩ := Option.isSome_iff_exists.mp (h (forwarded_enable hf)).2
      rw [hunit]
      refine ⟨_, Handshakes.push_empty (hempty unit hunit) pack, fun u => ?_⟩
      by_cases hu : unit = u
      · subst hu
        rw [Function.update_self, if_pos rfl, Option.some_or]
      · rw [Function.update_of_ne (Ne.symm hu), if_neg fun h => hu (Option.some.inj h)]

namespace IntegerPipe

/-- **`integer_readreg::run`**: no push fails, and the divider gets what `toDiv` says. -/
theorem readregRun_spec {s : IntegerPipe} {inp : IntegerPipeInput} {new : Handshakes IntegerUnit}
    (hport : ∀ i, i < integerIssueWidth → PortFine i (s.port.getD i {}))
    (hnew : inp.commitFlush = false → new = fun _ => none) :
    ∃ hdff, readregRun inp s.port s.hdff new = some hdff ∧ hdff .div = s.toDiv inp := by
  unfold readregRun toDiv
  cases hflush : inp.commitFlush with
  | true => exact ⟨_, rfl, rfl⟩
  | false =>
      rw [if_neg (by decide), if_neg (by decide), hnew hflush, Handshakes.dropSquashed_empty]
      have hnone : ∀ unit, readregUnit 0 (s.port.getD 0 {}).opUnit = some unit →
          (fun _ => none : Handshakes IntegerUnit) unit = none := fun _ _ => rfl
      obtain ⟨h₀, hrun₀, hunits₀⟩ := readregPort_spec inp (hport 0 (by decide)) hnone
      have hempty : ∀ unit, readregUnit 1 (s.port.getD 1 {}).opUnit = some unit →
          h₀ unit = none := by
        intro unit hunit
        rw [hunits₀ unit]
        exact if_neg fun hunit' => readregUnit_ne hunit' hunit rfl
      obtain ⟨h₁, hrun₁, hunits₁⟩ := readregPort_spec inp (hport 1 (by decide)) hempty
      have hdiv₀ : h₀ .div = none := by
        rw [hunits₀ .div]
        exact if_neg fun hunit => readregUnit_zero hunit rfl
      refine ⟨h₁, ?_, ?_⟩
      · rw [show List.range integerIssueWidth = [0, 1] from rfl, List.foldlM_cons, hrun₀]
        dsimp only [Option.bind_eq_bind, Option.bind_some]
        rw [List.foldlM_cons, hrun₁]
        rfl
      · rw [hunits₁ .div, hdiv₀]
        by_cases hdiv : (s.port.getD 1 {}).opUnit = .div
        · have hunit : readregUnit 1 .div = some .div := rfl
          rw [if_pos hdiv, hdiv, if_pos hunit, Option.or_none]
        · rw [if_neg hdiv, if_neg fun hunit => hdiv ((readregUnit_div_iff hunit).mp rfl)]

end IntegerPipe

/-! ## The divider -/

/-- An operation for the divider. -/
structure ReadregExecutePack.ForDiv (p : ReadregExecutePack) : Prop where
  valid : p.valid = true
  unit : p.opUnit = .div
  subOp : ∃ d, p.subOp = .div d

/-- `send_pack` is that of an operation. Where the operation is enabled it has its result. -/
def ExecuteWbPack.Carries (send : ExecuteWbPack) (p : ReadregExecutePack) : Prop :=
  send.toReadregExecutePack = p ∧ (p.enable = true → send = divCompute p)

/-- The operation is squashed in this cycle. -/
def IntegerPipeInput.cancels (inp : IntegerPipeInput) (p : ReadregExecutePack) : Bool :=
  inp.commitFlush || inp.squashes p.robId

theorem readPack_fields (inp : IntegerPipeInput) (info : OpInfo) :
    (readPack inp info).valid = info.valid ∧ (readPack inp info).opUnit = info.opUnit ∧
      (readPack inp info).subOp = info.subOp := by
  unfold readPack readreg
  dsimp only
  split <;> split <;> exact ⟨rfl, rfl, rfl⟩

namespace DivUnit

/-- **The divider between two cycles.** Of the result it has only ever set `rd_value`. -/
structure Fine (d : DivUnit) : Prop where
  bare : d.sendPack = { ExecuteWbPack.copy d.sendPack.toReadregExecutePack with
    rdValue := d.sendPack.rdValue }
  carries : d.busy = true → d.sendPack.Carries d.sendPack.toReadregExecutePack
  count : d.busy = true → d.progress + 2 ≤ divLatency

variable {d : DivUnit} {inp : IntegerPipeInput}

theorem accept_spec (h : d.Fine) {p : ReadregExecutePack} (hp : p.ForDiv) :
    ∃ send, d.accept p = some send ∧ send.Carries p ∧
      send = { ExecuteWbPack.copy p with rdValue := send.rdValue } := by
  obtain ⟨op, hop⟩ := hp.subOp
  unfold accept
  rw [h.bare]
  by_cases henable : p.enable = true
  · rw [if_pos henable, hp.valid, hp.unit, hop]
    refine ⟨divOutcome p op { ExecuteWbPack.copy p with rdValue := d.sendPack.rdValue }, rfl,
      ⟨?_, fun _ => ?_⟩, ?_⟩
    · cases op <;> rfl
    · unfold divCompute
      rw [henable, hop]
      cases op <;> rfl
    · cases op <;> rfl
  · rw [if_neg henable]
    exact ⟨_, rfl, ⟨rfl, fun hn => absurd hn henable⟩, rfl⟩

/-- Where an operation is: in the handshake, or in the unit, with so many cycles behind it. -/
def Place (hdff : Option ReadregExecutePack) (d : DivUnit) : Nat → ReadregExecutePack → Prop
  | 0, p => hdff = some p
  | i + 1, p => d.busy = true ∧ d.progress + i + 2 = divLatency ∧ d.sendPack.Carries p

/-- The last place. -/
def lastPlace : Nat := divLatency - 1

/-- **What `div::run` has done.** -/
structure Ran (hdff : Option ReadregExecutePack) (d : DivUnit) (inp : IntegerPipeInput)
    (turn : DivTurn) : Prop where
  fine : turn.unit.Fine
  free : inp.commitFlush = false → turn.hdff = none
  moves : ∀ i p, i < lastPlace →
    (Place none turn.unit (i + 1) p ↔ Place hdff d i p ∧ inp.cancels p = false)
  sends : ∀ p, Place hdff d lastPlace p → inp.cancels p = false → turn.wb.Carries p
  silent : (∀ p, Place hdff d lastPlace p → inp.cancels p = true) → turn.wb = {}

/-- Two operations in `send_pack` are the same. -/
theorem carries_unique {send : ExecuteWbPack} {p q : ReadregExecutePack} (hp : send.Carries p)
    (hq : send.Carries q) : p = q := hp.1.symm.trans hq.1

/-- A unit that is not busy has nothing. -/
theorem not_place {hdff : Option ReadregExecutePack} {i : Nat} {p : ReadregExecutePack}
    (h : d.busy = false) : ¬ Place hdff d (i + 1) p := by
  rintro ⟨hbusy, -⟩
  rw [h] at hbusy
  cases hbusy

theorem Fine.idle (h : d.Fine) (progress : Nat) :
    Fine { d with busy := false, progress := progress } :=
  ⟨h.bare, fun hn => (by cases hn), fun hn => by cases hn⟩

/-- The unit has nothing after the cycle, and had nothing that should be left. -/
theorem Ran.ofIdle {hdff : Option ReadregExecutePack} {turn : DivTurn} (hfine : turn.unit.Fine)
    (hfree : inp.commitFlush = false → turn.hdff = none) (hidle : turn.unit.busy = false)
    (hgone : ∀ i p, i ≤ lastPlace → Place hdff d i p → inp.cancels p = true) (hwb : turn.wb = {}) :
    Ran hdff d inp turn where
  fine := hfine
  free := hfree
  moves := by
    intro i p hi
    refine iff_of_false (not_place hidle) fun h => ?_
    have hcancels := hgone i p (Nat.le_of_lt hi) h.1
    rw [h.2] at hcancels
    cases hcancels
  sends := by
    intro p hplace hkept
    have hcancels := hgone _ p (Nat.le_refl _) hplace
    rw [hkept] at hcancels
    cases hcancels
  silent := fun _ => hwb

/-- A cycle in which nothing arrives. -/
theorem advance_ran (h : d.Fine) (hflush : inp.commitFlush = false) :
    Ran none d inp (d.advance inp none) := by
  unfold advance
  cases hbusy : d.busy with
  | false =>
      refine .ofIdle h (fun _ => rfl) hbusy (fun i p _ hplace => ?_) rfl
      cases i with
      | zero => cases hplace
      | succ i => exact absurd hplace (not_place hbusy)
  | true =>
      have hcarries := h.carries hbusy
      have hcancels {p : ReadregExecutePack} (hp : d.sendPack.Carries p) :
          inp.cancels p = inp.squashes d.sendPack.robId := by
        rw [IntegerPipeInput.cancels, hflush, Bool.false_or, ← hp.1]
      rw [if_neg (by decide)]
      cases hsquash : inp.squashes d.sendPack.robId with
      | true =>
          rw [if_pos rfl]
          refine .ofIdle (h.idle 0) (fun _ => rfl) rfl (fun i p _ hplace => ?_) rfl
          cases i with
          | zero => cases hplace
          | succ i => rw [hcancels hplace.2.2, hsquash]
      | false =>
          rw [if_neg (by decide)]
          have hkept {p : ReadregExecutePack} (hp : d.sendPack.Carries p) :
              inp.cancels p = false := (hcancels hp).trans hsquash
          by_cases hprogress : d.progress = 0
          · rw [if_pos hprogress]
            refine ⟨h.idle d.progress, fun _ => rfl, fun i p hi => ?_, fun p hplace _ => hplace.2.2,
              fun hall => ?_⟩
            · refine iff_of_false (not_place rfl) fun hn => ?_
              cases i with
              | zero => cases hn.1
              | succ i =>
                  have hcount := hn.1.2.1
                  unfold divLatency at hcount
                  unfold lastPlace divLatency at hi
                  omega
            · have hplace : Place none d lastPlace d.sendPack.toReadregExecutePack :=
                ⟨hbusy, by rw [hprogress]; rfl, hcarries⟩
              have hgone := hall _ hplace
              rw [hkept hcarries] at hgone
              cases hgone
          · rw [if_neg hprogress]
            have hbound := h.count hbusy
            refine ⟨⟨h.bare, fun _ => hcarries, fun _ => ?_⟩, fun _ => rfl, fun i p hi => ?_,
              fun p hplace _ => ?_, fun _ => rfl⟩
            · dsimp only
              omega
            · cases i with
              | zero =>
                  refine iff_of_false (fun hn => ?_) fun hn => by cases hn.1
                  have hcount : d.progress - 1 + 0 + 2 = divLatency := hn.2.1
                  omega
              | succ i =>
                  constructor
                  · rintro ⟨-, hcount, hp⟩
                    dsimp only at hcount
                    exact ⟨⟨hbusy, by omega, hp⟩, hkept hp⟩
                  · rintro ⟨⟨-, hcount, hp⟩, -⟩
                    refine ⟨rfl, ?_, hp⟩
                    dsimp only
                    omega
            · have hcount : d.progress + 6 + 2 = 8 := hplace.2.1
              omega

theorem advance_busy {hdff : Option ReadregExecutePack}
    (h : (d.advance inp hdff).unit.busy = true) :
    d.busy = true ∧ (d.advance inp hdff).unit.progress + 1 = d.progress := by
  unfold advance at h ⊢
  cases hidle : d.busy with
  | false => simp [hidle] at h
  | true =>
      by_cases hsquash : inp.squashes d.sendPack.robId = true
      · simp [hsquash, hidle] at h
      · by_cases hprogress : d.progress = 0
        · simp [hsquash, hidle, hprogress] at h
        · refine ⟨rfl, ?_⟩
          simp [hsquash, hprogress]
          omega

/-- An operation that has arrived and is not squashed. -/
theorem accepted_ran (hidle : d.busy = false) (hflush : inp.commitFlush = false)
    {p : ReadregExecutePack} (hkept : inp.squashes p.robId = false) {send : ExecuteWbPack}
    (hcarries : send.Carries p) (hbare : send = { ExecuteWbPack.copy p with
      rdValue := send.rdValue }) :
    Ran (some p) d inp { unit := ⟨send, true, divLatency - 2⟩, hdff := none } := by
  have hcancels : inp.cancels p = false := by
    rw [IntegerPipeInput.cancels, hflush, hkept, Bool.false_or]
  refine ⟨⟨?_, fun _ => ?_, fun _ => Nat.le_refl _⟩, fun _ => rfl, fun i q hi => ?_,
    fun q hplace _ => ?_, fun _ => rfl⟩
  · rw [hcarries.1]
    exact hbare
  · rw [hcarries.1]
    exact hcarries
  · cases i with
    | zero =>
        constructor
        · rintro ⟨-, -, hq⟩
          obtain rfl := carries_unique hcarries hq
          exact ⟨rfl, hcancels⟩
        · rintro ⟨hq, -⟩
          obtain rfl := Option.some.inj hq
          exact ⟨rfl, rfl, hcarries⟩
    | succ i =>
        refine iff_of_false (fun hn => ?_) fun hn => not_place hidle hn.1
        have hcount : divLatency - 2 + (i + 1) + 2 = divLatency := hn.2.1
        unfold divLatency at hcount
        omega
  · exact absurd hplace (not_place hidle)

/-- **`div::run`**, where an operation arrives only at a unit that is not busy. -/
theorem run_spec (h : d.Fine) (inp : IntegerPipeInput) {hdff : Option ReadregExecutePack}
    (harrives : ∀ p, hdff = some p → p.ForDiv ∧ d.busy = false) :
    ∃ turn, d.run inp hdff = some turn ∧ Ran hdff d inp turn ∧
      (turn.unit.busy = true → inp.commitFlush = false ∧
        ((∃ p, hdff = some p) ∧ turn.unit.progress + 2 = divLatency ∨
          d.busy = true ∧ turn.unit.progress + 1 = d.progress)) := by
  unfold run
  cases hflush : inp.commitFlush with
  | true =>
      refine ⟨_, rfl, .ofIdle (h.idle 0) (fun hn => ?_) rfl (fun i p _ _ => ?_) rfl, fun hn => ?_⟩
      · rw [hflush] at hn
        cases hn
      · rw [IntegerPipeInput.cancels, hflush, Bool.true_or]
      · cases hn
  | false =>
      rw [if_neg (by decide)]
      cases hdff with
      | none =>
          rw [ite_self]
          exact ⟨_, rfl, advance_ran h hflush, fun hbusy => ⟨rfl, .inr (advance_busy hbusy)⟩⟩
      | some p =>
          obtain ⟨hp, hidle⟩ := harrives p rfl
          obtain ⟨send, haccept, hcarries, hbare⟩ := accept_spec h hp
          rw [hidle, Bool.not_false, Bool.true_or, if_pos rfl]
          dsimp only
          by_cases hsquash : inp.squashes p.robId = true
          · rw [if_pos hsquash]
            refine ⟨_, rfl, .ofIdle h (fun _ => rfl) hidle (fun i q _ hplace => ?_) rfl, fun hn => ?_⟩
            · cases i with
              | zero =>
                  obtain rfl := Option.some.inj hplace
                  rw [IntegerPipeInput.cancels, hsquash, Bool.or_true]
              | succ i => exact absurd hplace (not_place hidle)
            · rw [hidle] at hn
              cases hn
          · have hkept := Bool.eq_false_iff.mpr hsquash
            have hadvance : advance ⟨send, true, divLatency - 1⟩ inp none
                = { unit := ⟨send, true, divLatency - 2⟩, hdff := none } := by
              unfold advance
              rw [show send.robId = p.robId from congrArg (·.robId) hcarries.1, hkept]
              rfl
            rw [if_neg hsquash, haccept]
            refine ⟨_, rfl, ?_, fun _ => ⟨rfl, .inl ⟨⟨p, rfl⟩, ?_⟩⟩⟩
            · rw [hadvance]
              exact accepted_ran hidle hflush hkept hcarries hbare
            · rw [hadvance]
              rfl

end DivUnit

/-! ## The pipeline -/

/-- While the divider works, its bit says for how long, and it is idle again one cycle before its
result. -/
def Works (progress : Nat) (bit : UnitBusy) : Prop :=
  progress = 0 ∧ bit.idle = true ∨ ∃ q, q < 6 ∧ progress = q + 1 ∧ bit = ⟨false, 1 <<< q⟩

/-- The bit and the count go down together. -/
theorem Works.tick {progress : Nat} {bit : UnitBusy} (h : Works (progress + 1) bit) :
    Works progress bit.tick := by
  rcases h with ⟨hzero, -⟩ | ⟨q, hq, hprogress, rfl⟩
  · cases hzero
  · obtain rfl : q = progress := by omega
    cases q with
    | zero => exact .inl ⟨rfl, rfl⟩
    | succ q =>
        refine .inr ⟨q, by omega, rfl, ?_⟩
        obtain rfl | rfl | rfl | rfl | rfl : q = 0 ∨ q = 1 ∨ q = 2 ∨ q = 3 ∨ q = 4 := by omega
        all_goals rfl

namespace IntegerPipe

/-- **The invariant.** A divide in the port has set the bit; one cycle later it is in the handshake
and the bit has moved by one place; and so on, until the divider has counted down. -/
structure Inv (s : IntegerPipe) : Prop where
  issue : s.issue.Fine
  port : ∀ i, i < integerIssueWidth → PortFine i (s.port.getD i {})
  div : s.div.Fine
  op : ∀ p, s.hdff .div = some p → p.ForDiv
  sent : (s.port.getD 1 {}).opUnit = .div →
    s.issue.units.div = divBit ∧ s.hdff .div = none ∧ s.div.busy = false
  arrived : ∀ p, s.hdff .div = some p →
    s.issue.units.div = ⟨false, 1 <<< 6⟩ ∧ s.div.busy = false
  works : s.div.busy = true → Works s.div.progress s.issue.units.div

theorem inv_init : Inv {} where
  issue := ⟨fun j hj => (by cases hj), fun op hop => (by cases hop), by decide⟩
  port := fun i hi henable => by cases henable
  div := ⟨rfl, fun hn => (by cases hn), fun hn => by cases hn⟩
  op := fun p hp => by cases hp
  sent := fun hdiv => by cases hdiv
  arrived := fun p hp => by cases hp
  works := fun hn => by cases hn

variable {s : IntegerPipe} {inp : IntegerPipeInput}

/-- What register read sends to the divider is for the divider. -/
theorem toDiv_forDiv (hport : PortFine 1 (s.port.getD 1 {})) {p : ReadregExecutePack}
    (h : s.toDiv inp = some p) : p.ForDiv := by
  unfold toDiv at h
  split at h
  · cases h
  · split at h
    · rename_i hunit
      obtain ⟨hop, -⟩ := hport (forwarded_enable h)
      unfold forwarded at h
      split at h
      · obtain rfl := Option.some.inj h
        obtain ⟨hvalid, hopUnit, hsub⟩ := readPack_fields inp (s.port.getD 1 {}).toOpInfo
        exact ⟨hvalid.trans (hop.valid hunit), hopUnit.trans hunit, hsub ▸ hop.subOp hunit⟩
      · cases h
    · cases h

theorem toDiv_unit {p : ReadregExecutePack} (h : s.toDiv inp = some p) :
    inp.commitFlush = false ∧ (s.port.getD 1 {}).opUnit = .div := by
  unfold toDiv at h
  split at h
  · cases h
  · rename_i hflush
    split at h
    · rename_i hunit
      exact ⟨Bool.eq_false_iff.mpr hflush, hunit⟩
    · cases h

/-- What one cycle does to the divider and its handshake. -/
structure Turn (s : IntegerPipe) (inp : IntegerPipeInput) (s' : IntegerPipe) : Prop where
  hdff : s'.hdff .div = s.toDiv inp
  moves : ∀ i p, i < DivUnit.lastPlace →
    (DivUnit.Place (s'.hdff .div) s'.div (i + 1) p ↔
      DivUnit.Place (s.hdff .div) s.div i p ∧ inp.cancels p = false)
  sends : ∀ p, DivUnit.Place (s.hdff .div) s.div DivUnit.lastPlace p → inp.cancels p = false →
    s'.wb.Carries p
  silent : (∀ p, DivUnit.Place (s.hdff .div) s.div DivUnit.lastPlace p → inp.cancels p = true) →
    s'.wb = {}

/-- **The issue stage in one cycle.** -/
theorem issue_step (h : s.issue.Fine) (hinp : inp.Legal) :
    ∃ output port integer woken issue,
      s.issue.runOutput ⟨inp.bru, inp.sau, inp.lu⟩ inp.commitFlush = some (output, port, integer) ∧
      s.issue.runWakeup output (wakeupInput inp integer) inp.commitFlush = some woken ∧
      IntegerStage.runInput { s.issue with toIntegerIssue := woken } inp = some issue ∧
      issue.Fine ∧ (∀ i, i < integerIssueWidth → PortFine i (port.getD i {})) ∧
      ((port.getD 1 {}).opUnit = .div → inp.commitFlush = false ∧
        s.issue.units.div.idle = true ∧ issue.units.div = divBit) ∧
      ((port.getD 1 {}).opUnit ≠ .div → inp.commitFlush = false →
        issue.units.div = s.issue.units.div.tick) := by
  cases hflush : inp.commitFlush with
  | true =>
      have hholds : IntegerIssue.Holds {} { s.issue.toIntegerIssue with units := {} } :=
        ⟨rfl, h.entry⟩
      obtain ⟨issue, hissue, hfine, -⟩ := IntegerStage.runInput_fine (h.ofHolds hholds) hinp
      refine ⟨_, _, _, _, issue, rfl, rfl, hissue, hfine, fun i hi henable => ?_, fun hn => ?_,
        fun _ hn => by cases hn⟩
      · have hi' : i = 0 ∨ i = 1 := by
          unfold integerIssueWidth at hi
          omega
        rcases hi' with rfl | rfl <;> cases henable
      · cases hn
  | false =>
      obtain ⟨output, port, integer, units, hout, hholds, hport⟩ :=
        IntegerStage.runOutput_spec h ⟨inp.bru, inp.sau, inp.lu⟩
      obtain ⟨woken, hwoken, hholds'⟩ :=
        IntegerIssue.runWakeup_holds h.entry hholds (wakeupInput inp integer) false
      obtain ⟨issue, hissue, hfine, hunits⟩ :=
        IntegerStage.runInput_fine (h.ofHolds hholds') hinp
      have hsame : issue.units = units := by
        rw [hunits, hflush]
        exact hholds'.1
      refine ⟨output, port, integer, woken, issue, hout, hwoken, hissue, hfine, hport.each,
        fun hdiv => ⟨rfl, ?_⟩, fun hdiv _ => ?_⟩
      · rw [hsame]
        exact hport.issues hdiv
      · rw [hsame]
        exact hport.ticks hdiv

/-- **One cycle**: nothing fails, and the invariant is kept. -/
theorem cycle_step (h : s.Inv) (hinp : inp.Legal) :
    ∃ s', s.cycle inp = some s' ∧ s'.Inv ∧ s.Turn inp s' := by
  obtain ⟨turn, hrun, hran, hbusy⟩ := DivUnit.run_spec h.div inp fun p hp =>
    ⟨h.op p hp, (h.arrived p hp).2⟩
  have htaken : inp.commitFlush = false → s.taken inp turn = fun _ => none := by
    intro hflush
    funext unit
    unfold taken
    rw [hflush, hran.free hflush]
    exact ite_self _
  obtain ⟨hdff, hread, hdiv⟩ := readregRun_spec h.port htaken
  obtain ⟨output, port, integer, woken, issue, hout, hwoken, hissue, hfine, hport, hissues,
    hticks⟩ := issue_step h.issue hinp
  refine ⟨⟨issue, port, hdff, turn.unit, turn.wb⟩, ?_, ⟨hfine, hport, hran.fine, ?_, ?_, ?_, ?_⟩,
    ⟨hdiv, hran.moves, hran.sends, hran.silent⟩⟩
  · unfold cycle
    rw [hrun]
    dsimp only [Option.bind_eq_bind, Option.bind_some]
    rw [hread]
    dsimp only [Option.bind_some]
    rw [hout]
    dsimp only [Option.bind_some]
    rw [hwoken]
    dsimp only [Option.bind_some]
    rw [hissue]
    rfl
  · intro p hp
    change hdff .div = some p at hp
    rw [hdiv] at hp
    exact toDiv_forDiv (h.port 1 (by decide)) hp
  · -- a divide that has just been issued finds the divider at its last cycle, or free
    intro hunit
    obtain ⟨hflush, hidle, hbit⟩ := hissues hunit
    refine ⟨hbit, ?_, ?_⟩
    · dsimp only
      rw [hdiv]
      cases hto : s.toDiv inp with
      | none => rfl
      | some p =>
          have hsent := (h.sent (toDiv_unit hto).2).1
          rw [hsent] at hidle
          cases hidle
    · rw [Bool.eq_false_iff]
      intro hn
      rcases (hbusy hn).2 with ⟨⟨p, hp⟩, -⟩ | ⟨hwas, hcount⟩
      · have harrived := (h.arrived p hp).1
        rw [harrived] at hidle
        cases hidle
      · rcases h.works hwas with ⟨hzero, -⟩ | ⟨q, -, -, hbit'⟩
        · omega
        · rw [hbit'] at hidle
          cases hidle
  · -- one that has arrived was in the port before
    intro p hp
    dsimp only at hp ⊢
    rw [hdiv] at hp
    obtain ⟨hflush, hunit⟩ := toDiv_unit hp
    obtain ⟨hbit, hempty, hidle⟩ := h.sent hunit
    refine ⟨?_, ?_⟩
    · have hother : (port.getD 1 {}).opUnit ≠ .div := by
        intro hn
        have := (hissues hn).2.1
        rw [hbit] at this
        cases this
      rw [hticks hother hflush, hbit]
      rfl
    · rw [Bool.eq_false_iff]
      intro hn
      rcases (hbusy hn).2 with ⟨⟨q, hq⟩, -⟩ | ⟨hwas, -⟩
      · rw [hempty] at hq
        cases hq
      · rw [hidle] at hwas
        cases hwas
  · -- the divider has just begun, or goes on
    intro hn
    dsimp only at hn ⊢
    obtain ⟨hflush, ⟨⟨p, hp⟩, hcount⟩ | ⟨hwas, hcount⟩⟩ := hbusy hn
    · have hbit := (h.arrived p hp).1
      have hother : (port.getD 1 {}).opUnit ≠ .div := by
        intro hn
        have := (hissues hn).2.1
        rw [hbit] at this
        cases this
      rw [hticks hother hflush, hbit]
      refine .inr ⟨5, by omega, ?_, rfl⟩
      unfold divLatency at hcount
      omega
    · have hworks := h.works hwas
      rw [← hcount] at hworks
      have hother : (port.getD 1 {}).opUnit ≠ .div := by
        intro hn
        have hidle := (hissues hn).2.1
        rcases hworks with ⟨hzero, -⟩ | ⟨q, -, -, hbit⟩
        · cases hzero
        · rw [hbit] at hidle
          cases hidle
      rw [hticks hother hflush]
      exact hworks.tick

end IntegerPipe

/-! ## Runs -/

/-- The state before each cycle. -/
def IntegerPipe.states (inp : Nat → IntegerPipeInput) : Nat → IntegerPipe
  | 0 => {}
  | k + 1 => ((states inp k).cycle (inp k)).getD (states inp k)

/-- **The divider is occupied by one operation at a time**, and works on each to its end. -/
structure DivOccupied (inp : Nat → IntegerPipeInput) (st : Nat → IntegerPipe) : Prop where
  /-- No cycle fails; one in which a handshake refuses a pack would. -/
  runs : ∀ k, (st k).cycle (inp k) = some (st (k + 1))
  /-- What arrives finds a unit that is not busy. -/
  exclusive : ∀ k p, (st k).hdff .div = some p → (st k).div.busy = false
  /-- What register read has sent, and no later cycle squashes, is in the write-back port eight
  cycles later, and its result is that of its own operands. -/
  results : ∀ k p, (st k).toDiv (inp k) = some p →
    (∀ j, k < j → j ≤ k + divLatency → (inp j).cancels p = false) →
    (st (k + divLatency + 1)).wb.Carries p
  /-- Nothing else ever is in that port. -/
  only : ∀ n, (st (n + 1)).wb = {} ∨ ∃ k p, n = k + divLatency ∧
    (st k).toDiv (inp k) = some p ∧
    (∀ j, k < j → j ≤ k + divLatency → (inp j).cancels p = false) ∧ (st (n + 1)).wb.Carries p

namespace IntegerPipe

variable {inp : Nat → IntegerPipeInput}

theorem states_step (h : ∀ k, (inp k).Legal) (k : Nat) : (states inp k).Inv ∧
    (states inp k).cycle (inp k) = some (states inp (k + 1)) ∧
    (states inp k).Turn (inp k) (states inp (k + 1)) := by
  have hstep {k : Nat} (hinv : (states inp k).Inv) :
      (states inp k).cycle (inp k) = some (states inp (k + 1)) ∧ (states inp (k + 1)).Inv ∧
        (states inp k).Turn (inp k) (states inp (k + 1)) := by
    obtain ⟨s', hcycle, hinv', hturn⟩ := cycle_step hinv (h k)
    have hnext : states inp (k + 1) = s' := by
      rw [states, hcycle]
      rfl
    rw [hnext]
    exact ⟨hcycle, hinv', hturn⟩
  have hinv : (states inp k).Inv := by
    induction k with
    | zero => exact inv_init
    | succ k ih => exact (hstep ih).2.1
  exact ⟨hinv, (hstep hinv).1, (hstep hinv).2.2⟩

/-- **The divider is a delay line**, seen from register read. -/
theorem realizes (h : ∀ k, (inp k).Legal) :
    Realizes (fun k => (states inp k).toDiv (inp k)) (fun k p => (inp k).cancels p)
      DivUnit.lastPlace
      (fun n i p => DivUnit.Place ((states inp n).hdff .div) (states inp n).div i p) where
  start := by
    intro i p hplace
    cases i with
    | zero => cases hplace
    | succ i => cases hplace.1
  enters := by
    intro n p
    have hhdff := (states_step h n).2.2.hdff
    rw [← hhdff]
    exact Iff.rfl
  moves := fun n i p hi => (states_step h n).2.2.moves i p hi

end IntegerPipe

/-- **DIV occupancy.** Whatever is dispatched, squashed, replayed, stalled or flushed and in
whatever order, nothing arrives at a busy divider, no push of register read fails, and each divide
that register read sends on and no flush squashes comes out once, eight cycles later, with the
result of its own operands. -/
theorem div_occupancy (inp : Nat → IntegerPipeInput) (h : ∀ k, (inp k).Legal) :
    DivOccupied inp (IntegerPipe.states inp) := by
  have hline := IntegerPipe.realizes h
  refine ⟨fun k => (IntegerPipe.states_step h k).2.1,
    fun k p hp => ((IntegerPipe.states_step h k).1.arrived p hp).2, fun k p hsent hkept => ?_,
    fun n => ?_⟩
  · have hlast : survivor (fun k => (IntegerPipe.states inp k).toDiv (inp k))
        (fun k p => (inp k).cancels p) k DivUnit.lastPlace = some p := by
      refine survivor_eq_some.mpr ⟨hsent, fun j hlo hhi => hkept j hlo ?_⟩
      unfold DivUnit.lastPlace at hhi
      omega
    have hplace := (hline.holds_iff (Nat.le_refl _)).mpr ⟨k, rfl, hlast⟩
    exact (IntegerPipe.states_step h _).2.2.sends p hplace
      (hkept _ (by unfold divLatency; omega) (Nat.le_refl _))
  · by_cases hany : ∃ p, DivUnit.Place ((IntegerPipe.states inp n).hdff .div)
        (IntegerPipe.states inp n).div DivUnit.lastPlace p ∧ (inp n).cancels p = false
    · obtain ⟨p, hplace, hkept⟩ := hany
      obtain ⟨k, rfl, hlast⟩ := (hline.holds_iff (Nat.le_refl _)).mp hplace
      obtain ⟨hsent, hall⟩ := survivor_eq_some.mp hlast
      refine .inr ⟨k, p, rfl, hsent, fun j hlo hhi => ?_,
        (IntegerPipe.states_step h _).2.2.sends p hplace hkept⟩
      by_cases hj : j = k + 1 + DivUnit.lastPlace
      · rw [hj]
        exact hkept
      · refine hall j hlo ?_
        unfold DivUnit.lastPlace divLatency at *
        omega
    · refine .inl ((IntegerPipe.states_step h n).2.2.silent fun p hplace => ?_)
      by_contra hkept
      exact hany ⟨p, hplace, Bool.eq_false_iff.mpr hkept⟩

/-- `div x3, x1, x2` in the first pack, with 42 and 6 in the registers, and nothing after it. -/
def oneDivide (k : Nat) : IntegerPipeInput where
  phyRegfile := fun r => ⟨if r = 1 then 42 else 6, true, ⟨0, false⟩, true⟩
  pack := if k = 0 then
      [{ enable := true, valid := true, opUnit := .div, subOp := .div .div, rs1NeedMap := true
         rs2NeedMap := true, needRename := true, rs1Phy := 1, rs2Phy := 2, rdPhy := 3 }]
    else []

/-- The divide is sent on in the third cycle. -/
theorem div_occupancy_oneDivide : DivOccupied oneDivide (IntegerPipe.states oneDivide) ∧
    (IntegerPipe.states oneDivide 11).wb.rdValue = 7 := by
  have hlegal : ∀ k, (oneDivide k).Legal := by
    intro k op hop _
    unfold oneDivide at hop
    dsimp only at hop
    split at hop
    · obtain rfl := List.mem_singleton.mp hop
      exact ⟨rfl, fun _ => rfl, fun _ => rfl, fun _ => rfl, fun _ => ⟨_, rfl⟩⟩
    · cases hop
  have hoccupied := div_occupancy oneDivide hlegal
  have hsent : ((IntegerPipe.states oneDivide 2).toDiv (oneDivide 2)).map
      (fun p => (p.enable, (divCompute p).rdValue)) = some (true, 7) := by decide +kernel
  obtain ⟨p, hp, hvalue⟩ := Option.map_eq_some_iff.mp hsent
  obtain ⟨henable, hquotient⟩ := Prod.mk.inj hvalue
  obtain ⟨-, hresult⟩ := hoccupied.results 2 p hp fun j _ _ => rfl
  refine ⟨hoccupied, ?_⟩
  rw [← hquotient, ← hresult henable]
  rfl

end DreamCore
