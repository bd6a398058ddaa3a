import DreamCore.Backend.LsuStages
import DreamCore.Backend.Pace

/-!
# Vectors in the LSU issue queue

What the queue issues takes its vector along, and its slot stays behind until no load
can ask for it again. Both lose one bit in a cycle, so the slot of a store that has
issued says of a replay what the part before register read says. That the slot is not
there for longer takes the bound: nothing is issued two stages ahead of its load.
-/

namespace DreamCore

open Ring

/-! ## One slot -/

namespace LsuIssue

variable {s : LsuIssue} {inp : LsuIssueInput} {lsu : List LsuWakeupChannel} {store : Option Ptr}
  {e e' : LsuEntry} {j : Nat}

/-- A store has no vector of its own. -/
theorem nextLpv_zero (lu : LuFeedback) (issued : Bool) (h : e.curLpv = 0) :
    e.nextLpv lu issued = 0 := by
  have hzero : e.curLpv >>> 1 = 0 := by
    rw [h]
    decide
  rw [LsuEntry.nextLpv, hzero, h]
  exact ite_self 0

/-- A source after the wakeup of a cycle, from what it was before. -/
def Awoken (inp : LsuIssueInput) (lsu : List LsuWakeupChannel) (src src' : IssueSource) : Prop :=
  ∃ argSrc needMap phyId execute, ((src.cancel inp.lu).shift inp.lu).awaken argSrc needMap phyId
    inp.integer (lsu.map LsuWakeupChannel.toWakeupChannel) execute = some src'

/-- A source that is ready, and that no replay takes back, stays so. -/
theorem Awoken.ready {src src' : IssueSource} (h : Awoken inp lsu src src')
    (hready : src.ready = true) (hsafe : (inp.lu.replay && src.atRisk) = false) :
    src'.ready = true := by
  obtain ⟨_, _, _, _, h⟩ := h
  rw [IssueSource.awaken_kept h hready hsafe, IssueSource.shift]
  split <;> exact hready

/-- It loses a bit in a cycle without a stall. -/
theorem Awoken.lpv {src src' : IssueSource} (h : Awoken inp lsu src src')
    (hready : src.ready = true) (hsafe : (inp.lu.replay && src.atRisk) = false)
    (hstall : inp.lu.stall = false) : src'.lpv = src.lpv >>> 1 := by
  obtain ⟨_, _, _, _, h⟩ := h
  rw [IssueSource.awaken_kept h hready hsafe, IssueSource.shift_spared hsafe hstall]

/-- **What a cycle makes of the sources of slot `j`**, and of what has been issued of it. -/
structure Moved (s : LsuIssue) (inp : LsuIssueInput) (s' : LsuIssue) (j : Nat) : Prop where
  src1 : Awoken inp (s.runOutput inp).2.2 (s.entry j).src1 (s'.entry j).src1
  src2 : Awoken inp (s.runOutput inp).2.2 (s.entry j).src2 (s'.entry j).src2
  curLpv : (s.entry j).curLpv = 0 → (s.entry j).lpv = 0 → (s'.entry j).curLpv = 0
  address : (s'.entry j).sauPartIssued =
    (((s.entry j).sauPartIssued || active inp && s.selected inp 1 == some j)
      && !(inp.lu.replay && (s.entry j).isStore && (s.entry j).atRisk))
  data : (s'.entry j).sduPartIssued =
    (((s.entry j).sduPartIssued || active inp && s.selected inp 2 == some j)
      && !(inp.lu.replay && (s.entry j).isStore && (s.entry j).atRisk))

theorem Rewritten.moved {s' : LsuIssue} (h : Rewritten s inp s' j) : Moved s inp s' j := by
  obtain ⟨curLpv, hcur, hentry⟩ := (runOutput_slot s inp j).entry
  have hwake := h.entry
  rw [hentry] at hwake
  unfold wakeEntry at hwake
  simp only [Option.bind_eq_bind, Option.bind_eq_some_iff] at hwake
  obtain ⟨src1, h₁, src2, h₂, hwake⟩ := hwake
  have hnew := (Option.some.inj hwake).symm
  refine ⟨?_, ?_, fun hc hl => ?_, ?_, ?_⟩
  · rw [hnew]
    exact ⟨_, _, _, _, h₁⟩
  · rw [hnew]
    exact ⟨_, _, _, _, h₂⟩
  · rw [hnew]
    exact nextLpv_zero _ _ (hcur.elim (·.trans hc) (·.trans hl))
  · rw [hnew]
    rfl
  · rw [hnew]
    rfl

/-- What an entry is sent with is what its sources keep. -/
theorem sentLpv_eq (e : LsuEntry) : e.sentLpv = e.src1.lpv >>> 1 ||| e.src2.lpv >>> 1 :=
  BitVec.ushiftRight_or_distrib ..

theorem sentLpv_lt (h₁ : e.src1.lpv.toNat < 8) (h₂ : e.src2.lpv.toNat < 8) :
    e.sentLpv.toNat < 4 := by
  rw [sentLpv_eq, BitVec.toNat_or, toNat_half, toNat_half]
  exact Nat.or_lt_two_pow (n := 2) (by omega) (by omega)

/-- **What the queue says as it issues**: a value comes one cycle later at the earliest. -/
theorem runOutput_channels {ops : List OpInfo} (hs : s.Fine ops)
    (hlt : ∀ j, s.valid j = true →
      (s.entry j).src1.lpv.toNat < 8 ∧ (s.entry j).src2.lpv.toNat < 8)
    {c : LsuWakeupChannel} (hc : c ∈ (s.runOutput inp).2.2) (hv : c.wakeupValid = true) :
    active inp = true ∧ c.wakeupLpv.toNat < 8 ∧ c.wakeupShift ≠ 0 := by
  unfold runOutput at hc
  split at hc
  · rw [List.eq_of_mem_replicate hc] at hv
    cases hv
  · rename_i hidle
    obtain ⟨i, -, rfl⟩ := List.mem_map.mp hc
    cases hsel : s.selected inp i with
    | none =>
      simp only [feedback, hsel] at hv
      cases hv
    | some j =>
      have hawake := selected_awake hsel
      simp only [awake, Bool.and_eq_true] at hawake
      have hvalid : s.valid j = true := hawake.1.1.1.1.1
      have hslot := hs.slot j hvalid
      obtain ⟨h₁, h₂⟩ := hlt j hvalid
      refine ⟨by rw [active, Bool.eq_false_iff.mpr hidle, Bool.not_false], ?_, ?_⟩
      · change (((s.entry ((s.selected inp i).getD 0)).sentLpv
          ||| (s.entry ((s.selected inp i).getD 0)).lpv).toNat < 8)
        rw [hsel, Option.getD_some, BitVec.toNat_or, hslot.lpv]
        refine Nat.or_lt_two_pow (n := 3) (Nat.lt_trans (sentLpv_lt h₁ h₂) (by decide)) ?_
        split <;> decide
      · change (s.entry ((s.selected inp i).getD 0)).wakeupShift ≠ 0
        rw [hsel, Option.getD_some, hslot.wakeupShift]
        decide

end LsuIssue

namespace LsuPipe

/-- **The last part of the store in slot `j` stands before register read**, with the vector of the
slot, and no later than its load is decided. -/
structure LastStands (p : LsuPipe) (j : Nat) : Prop where
  src1 : (p.issue.entry j).src1.lpv.toNat < 2
  src2 : (p.issue.entry j).src2.lpv.toNat < 2
  part : ∃ a ∈ p.rev, a.toOpInfo.IsPart (p.issue.entry j).robId ∧ a.lastUop = true ∧
    a.lpv = (p.issue.entry j).src1.lpv ||| (p.issue.entry j).src2.lpv

/-- What there is to say of slot `j`. -/
structure SlotPaced (p : LsuPipe) (late : Bool) (j : Nat) : Prop where
  src1 : (p.issue.entry j).src1.Near p.readreg.busy late
  src2 : (p.issue.entry j).src2.Near p.readreg.busy late
  address : (p.issue.entry j).isStore = true → (p.issue.entry j).sauPartIssued = true →
    (p.issue.entry j).src1.ready = true
  data : (p.issue.entry j).isStore = true → (p.issue.entry j).sduPartIssued = true →
    (p.issue.entry j).src2.ready = true
  curLpv : (p.issue.entry j).isStore = true → (p.issue.entry j).curLpv = 0
  issued : (p.issue.entry j).isStore = true → p.issue.issued j = true → p.LastStands j

/-- **The queue keeps pace with the load unit.** -/
def Paced (p : LsuPipe) (late : Bool) : Prop := ∀ j, p.issue.valid j = true → p.SlotPaced late j

variable {p p' : LsuPipe} {inp : LsuIssueInput} {late late' : Bool} {j : Nat} {op : OpInfo}

theorem cycle_busy (h : p.cycle inp = some p') (hflush : inp.commitFlush = false) :
    p'.readreg.busy = inp.lu.stall := by
  rcases run_cases h hflush with ⟨hstall, hreadreg, -⟩ | ⟨hstall, hbusy, -⟩
  · rw [hreadreg, hstall]
  · rw [hbusy, hstall]

/-- The queue issues only where nothing waits. -/
theorem active_sees (h : LsuIssue.active (p.sees inp) = true) :
    p.issues inp = true ∧ p.readreg.busy = false ∧ inp.lu.stall = false := by
  simp only [LsuIssue.active, sees, Bool.not_eq_true', Bool.or_eq_false_iff] at h
  obtain ⟨⟨hcommit, hbusy⟩, hstall⟩ := h
  exact ⟨by rw [issues, hcommit, hbusy, hstall]; rfl, hbusy, hstall⟩

/-- What has just entered hangs on no load. -/
theorem SlotPaced.given (h : LsuIssue.Given p'.issue j op) : p'.SlotPaced late' j where
  src1 := IssueSource.near_zero _ _ h.lpvs.1
  src2 := IssueSource.near_zero _ _ h.lpvs.2
  address _ ha := by
    rw [h.parts.1] at ha
    cases ha
  data _ hd := by
    rw [h.parts.2] at hd
    cases hd
  curLpv hstore := by rw [h.curLpv, h.slot.lpv, if_pos hstore]
  issued _ hi := by
    rw [h.issued] at hi
    cases hi

/-- A store that is selected for the last time has both its sources. -/
theorem SlotPaced.both_ready (h : p.SlotPaced late j) (hstore : (p.issue.entry j).isStore = true)
    {i : Nat} (hi : i = 1 ∨ i = 2) (hsel : p.issue.selected inp i = some j)
    (hlast : p.issue.lastUop inp i j = true) :
    (p.issue.entry j).src1.ready = true ∧ (p.issue.entry j).src2.ready = true := by
  have haddress (hsel : p.issue.selected inp 1 = some j) :
      (p.issue.entry j).src1.ready = true := by
    have hc := LsuIssue.selected_candidate hsel
    simp only [LsuIssue.candidate, Bool.and_eq_true] at hc
    exact hc.1.2
  rcases hi with rfl | rfl
  · exact ⟨haddress hsel, h.data hstore hlast⟩
  · have hc := LsuIssue.selected_candidate hsel
    simp only [LsuIssue.candidate, Bool.and_eq_true] at hc
    change ((p.issue.entry j).sauPartIssued || p.issue.selected inp 1 == some j) = true at hlast
    rw [Bool.or_eq_true, beq_iff_eq] at hlast
    exact ⟨hlast.elim (h.address hstore) haddress, hc.1.2⟩

/-- A store that has issued leaves its slot in the next cycle, or is to be issued again. -/
theorem LastStands.leaves (h : p.LastStands j) (hcur : (p.issue.entry j).curLpv = 0)
    {lu : LuFeedback} (hstall : lu.stall = true → lu.replay = true)
    (hno : (p.issue.entry j).replays lu = false) : (p.issue.entry j).certain lu = true := by
  have hle {w : Word} (hw : w.toNat < 2) : w ≤ 1 := BitVec.le_def.mpr (Nat.le_of_lt_succ hw)
  unfold LsuEntry.certain
  cases hs : lu.stall with
  | false =>
    rw [decide_eq_true (hle h.src1), decide_eq_true (hle h.src2), hcur]
    simp
  | true =>
    rw [LsuEntry.replays, hstall hs, Bool.true_and, Bool.or_eq_false_iff, LsuEntry.atRisk,
      Bool.or_eq_false_iff] at hno
    rw [eq_zero_of_lt_two h.src1 hno.1.1, eq_zero_of_lt_two h.src2 hno.1.2, hcur]
    rfl

/-- **What has just been issued for the last time** stands before register read. -/
theorem SlotPaced.stands (h : p.SlotPaced late j) (hc : p.cycle inp = some p')
    (hflush : inp.commitFlush = false) (hf : p.issue.Fine (p.issue.offered inp))
    (hs : LsuIssue.Stays p.issue (p.sees inp) p'.issue j)
    (hstore : (p.issue.entry j).isStore = true) {i : Nat} (hi : i = 1 ∨ i = 2)
    (hactive : LsuIssue.active (p.sees inp) = true)
    (hsel : p.issue.selected (p.sees inp) i = some j)
    (hlast : p.issue.lastUop (p.sees inp) i j = true) : p'.LastStands j := by
  obtain ⟨hissues, hbusy, hstall⟩ := active_sees hactive
  obtain ⟨hr₁, hr₂⟩ := h.both_ready hstore hi hsel hlast
  have hsends := LsuIssue.selected_part (p.sees inp) hf hi hsel
  have hsafe : (inp.lu.replay && (p.issue.entry j).atRisk) = false := hsends.awake.2.2
  rw [LsuEntry.atRisk, Bool.and_or_distrib_left, Bool.or_eq_false_iff] at hsafe
  have hmoved := hs.rewritten.moved
  have he₁ : (p'.issue.entry j).src1.lpv = (p.issue.entry j).src1.lpv >>> 1 :=
    hmoved.src1.lpv hr₁ hsafe.1 hstall
  have he₂ : (p'.issue.entry j).src2.lpv = (p.issue.entry j).src2.lpv >>> 1 :=
    hmoved.src2.lpv hr₂ hsafe.2 hstall
  have hlt₁ := h.src1.near hbusy (.inl hr₁)
  have hlt₂ := h.src2.near hbusy (.inl hr₂)
  have hwidth : i < lsuIssueWidth := by
    unfold lsuIssueWidth
    omega
  refine ⟨?_, ?_, p.issue.sent (p.sees inp) i, ?_, ⟨hsends.enable hf, ?_, ?_⟩, ?_, ?_⟩
  · rw [he₁, toNat_half]
    omega
  · rw [he₂, toNat_half]
    omega
  · exact (rev_issued hc hflush hstall (hsends.enable hf)).mpr ⟨hissues, i, hwidth, rfl⟩
  · rw [hsends.unit]
    split <;> rfl
  · rw [hs.robId]
    exact hsends.holds.robId.symm
  · exact hsends.lastUop.trans hlast
  · rw [hsends.lpv, LsuIssue.sentLpv_eq, he₁, he₂]

/-- What the queue wakes in a cycle. -/
def wakes (p : LsuPipe) (inp : LsuIssueInput) : List WakeupChannel :=
  (p.issue.runOutput (p.sees inp)).2.2.map LsuWakeupChannel.toWakeupChannel

theorem Paced.wakes (h : p.Paced late) {ops : List OpInfo} (hf : p.issue.Fine ops) :
    ∀ c ∈ p.wakes inp, c.wakeupValid = true →
      p.readreg.busy = false ∧ c.wakeupLpv.toNat < 8 ∧ c.wakeupShift ≠ 0 := by
  intro c hmem hv
  obtain ⟨c', hmem', rfl⟩ := List.mem_map.mp hmem
  obtain ⟨hactive, hrest⟩ := LsuIssue.runOutput_channels hf
    (fun k hk => ⟨(h k hk).src1.window, (h k hk).src2.window⟩) hmem' hv
  exact ⟨(active_sees hactive).2.1, hrest⟩

/-- **A cycle keeps the pace.** -/
theorem Paced.next (h : p.Paced late) (hc : p.cycle inp = some p')
    (hflush : inp.commitFlush = false) (hf : p.issue.Fine (p.issue.offered inp))
    (hlu : inp.lu.Paced p.readreg.busy late)
    (hinteger : ∀ c ∈ inp.integer, c.wakeupValid = true → c.wakeupLpv.toNat < 4) :
    p'.Paced (!inp.lu.stall && p.readreg.busy) := by
  intro j hj
  have hcycled := LsuIssue.cycle_cycled (p.sees inp) hf (cycle_eq_some hc).2.1 hflush
  rcases hcycled.slot j hj with hs | ⟨op, -, -, hg⟩
  swap
  · exact .given hg
  have hslot := h j hs.valid
  have hwakes : IssueSource.Wakes p.readreg.busy inp.integer (p.wakes inp) :=
    ⟨hinteger, h.wakes hf⟩
  have hmoved := hs.rewritten.moved
  have hbusy := cycle_busy hc hflush
  have hspared {sent : Bool} (hstore : (p.issue.entry j).isStore = true)
      (hsent : (sent && !(inp.lu.replay && (p.issue.entry j).isStore
        && (p.issue.entry j).atRisk)) = true) : sent = true ∧
      (inp.lu.replay && (p.issue.entry j).src1.atRisk) = false ∧
      (inp.lu.replay && (p.issue.entry j).src2.atRisk) = false := by
    rw [hstore, Bool.and_true, LsuEntry.atRisk, Bool.and_or_distrib_left, Bool.and_eq_true,
      Bool.not_eq_true', Bool.or_eq_false_iff] at hsent
    exact hsent
  refine ⟨?_, ?_, fun hstore haddr => ?_, fun hstore hdata => ?_, fun hstore => ?_,
    fun hstore hissued => ?_⟩
  · rw [hbusy]
    obtain ⟨_, _, _, _, h₁⟩ := hmoved.src1
    exact hslot.src1.next (IssueSource.cancel_lpv _ _) hlu hwakes h₁
  · rw [hbusy]
    obtain ⟨_, _, _, _, h₂⟩ := hmoved.src2
    exact hslot.src2.next (IssueSource.cancel_lpv _ _) hlu hwakes h₂
  · rw [hs.isStore] at hstore
    rw [hmoved.address] at haddr
    obtain ⟨hsent, hsafe, -⟩ := hspared hstore haddr
    have hr : (p.issue.entry j).src1.ready = true := by
      rw [Bool.or_eq_true, Bool.and_eq_true, beq_iff_eq] at hsent
      rcases hsent with hsent | ⟨-, hsel⟩
      · exact hslot.address hstore hsent
      · have hc := LsuIssue.selected_candidate hsel
        simp only [LsuIssue.candidate, Bool.and_eq_true] at hc
        exact hc.1.2
    exact hmoved.src1.ready hr hsafe
  · rw [hs.isStore] at hstore
    rw [hmoved.data] at hdata
    obtain ⟨hsent, -, hsafe⟩ := hspared hstore hdata
    have hr : (p.issue.entry j).src2.ready = true := by
      rw [Bool.or_eq_true, Bool.and_eq_true, beq_iff_eq] at hsent
      rcases hsent with hsent | ⟨-, hsel⟩
      · exact hslot.data hstore hsent
      · have hc := LsuIssue.selected_candidate hsel
        simp only [LsuIssue.candidate, Bool.and_eq_true] at hc
        exact hc.1.2
    exact hmoved.src2.ready hr hsafe
  · rw [hs.isStore] at hstore
    exact hmoved.curLpv (hslot.curLpv hstore) (by rw [(hf.slot j hs.valid).lpv, if_pos hstore])
  · rw [hs.isStore] at hstore
    rw [hs.rewritten.issued, Bool.and_eq_true] at hissued
    cases hold : p.issue.issued j with
    | true =>
      -- it would have left
      rw [hold, Bool.true_and, Bool.not_eq_true'] at hissued
      have hcertain : (p.issue.entry j).certain (p.sees inp).lu = true :=
        (hslot.issued hstore hold).leaves (hslot.curLpv hstore) hlu.stall hissued.2
      rw [hs.rewritten.stays hold hissued.2 hj] at hcertain
      cases hcertain
    | false =>
      obtain ⟨hactive, i, hi, hsel, hlast⟩ :=
        (LsuIssue.runOutput_slot p.issue (p.sees inp) j).selects hold (.inl hissued.1)
      have hi : i = 1 ∨ i = 2 := by
        have hne : i ≠ 0 := by
          rintro rfl
          rw [LsuIssue.selected_zero hsel] at hstore
          cases hstore
        unfold lsuIssueWidth at hi
        omega
      exact hslot.stands hc hflush hf hs hstore hi hactive hsel hlast

/-- **What the slot of a store that has issued says of a replay**, register read says of its last
part. -/
theorem Paced.last (h : p.Paced late) {robId : Ptr} (hj : p.issue.HoldsStore j robId)
    (hissued : p.issue.issued j = true) : ∃ a ∈ p.rev, a.toOpInfo.IsPart robId ∧
      a.lastUop = true ∧
        ∀ lu, (p.issue.entry j).replays lu = true → LsuReadreg.replayed lu a = true := by
  have hslot := h j hj.valid
  obtain ⟨a, ha, hpart, hlast, hlpv⟩ := (hslot.issued hj.isStore hissued).part
  refine ⟨a, ha, hj.robId ▸ hpart, hlast, fun lu hrep => ?_⟩
  have hnone : ((p.issue.entry j).curLpv &&& 1 != 0) = false := by
    rw [hslot.curLpv hj.isStore]
    decide
  rw [LsuEntry.replays, hnone, Bool.false_and, Bool.or_false, LsuEntry.atRisk, IssueSource.atRisk,
    IssueSource.atRisk, Bool.and_eq_true, Bool.or_eq_true] at hrep
  rw [LsuReadreg.replayed, hlpv, Bool.and_eq_true]
  refine ⟨hrep.1, ?_⟩
  have hor {a b : Word} : (a ||| b) &&& 1 = 0 ↔ a &&& 1 = 0 ∧ b &&& 1 = 0 := by
    rw [BitVec.and_comm, BitVec.and_or_distrib_left, BitVec.and_comm a, BitVec.and_comm b]
    exact BitVec.or_eq_zero_iff
  rw [bne_iff_ne, bne_iff_ne] at hrep
  rw [bne_iff_ne, Ne, hor]
  exact fun ⟨h₁, h₂⟩ => hrep.2.elim (· h₁) (· h₂)

end LsuPipe

end DreamCore
