import DreamCore.Backend.StoreWait
import DreamCore.Backend.ValidBits

/-!
# Where operands come from

Rename looks the sources of an instruction up in the speculative table before it
maps the destination. The table moves on with every instruction, and a flush or a
recovery may take it back; the registers that were looked up stay in the pack. So
long as the instruction is in flight they are the homes its architectural sources
had in front of it, whatever has become of the table since.

What shows it is written down next to the instruction: the table right after it,
or, for a source that is its own destination, the register its ROB entry says it
replaces.
-/

namespace DreamCore

open Ring

/-- **Where the components right after `info` was renamed have register `rs` in front of it.** -/
structure Core.Found (s : Core) (info : OpInfo) (rs phy : Nat) : Prop where
  reg : IsReg rs
  lt : phy < phyRegNum
  replaced : info.allocates = true → rs = info.rd →
    (s.rob.buffer info.robId.id).oldPhyRegId = phy
  mapped : ¬ (info.allocates = true ∧ rs = info.rd) → s.speculativeRat.maps rs phy = true

/-- The sources of an instruction in flight, as the components right after it have them. -/
structure Flight.Sourced (f : Flight) : Prop where
  rs1 : f.info.rs1NeedMap = true → f.after.Found f.info f.info.rs1 f.info.rs1Phy
  rs2 : f.info.rs2NeedMap = true → f.after.Found f.info f.info.rs2 f.info.rs2Phy

section Turn

variable {cur s s' : Core} {rev : DecodeRenamePack} {info : OpInfo} {m : Nat → Nat}

theorem lookupPhy_map {needMap : Bool} {a p : Nat} (hr : Represents s.speculativeRat m)
    (h : lookupPhy s.speculativeRat needMap a = some p) (hn : needMap = true) :
    IsReg a ∧ p < phyRegNum ∧ m a = p := by
  unfold lookupPhy at h
  rw [if_pos hn] at h
  simp only [Option.bind_eq_bind, Option.bind_eq_some_iff] at h
  obtain ⟨found, hfound, rfl⟩ := h
  obtain ⟨ha, hm⟩ := hr.lookup hfound
  exact ⟨ha, hm ▸ hr.lt a ha, hm⟩

/-- What the destination does to the table, and what is remembered of it. -/
theorem renameDest_map {mid : Core} {old rdPhy : Nat} (hr : Represents s.speculativeRat m)
    (h : renameDest cur s rev = some (old, rdPhy, mid)) :
    ∃ m', Represents mid.speculativeRat m'
      ∧ ((rev.valid && rev.needRename) = true → m rev.rd = old)
      ∧ ∀ a, ¬ ((rev.valid && rev.needRename) = true ∧ a = rev.rd) → m' a = m a := by
  unfold renameDest at h
  split at h
  · simp only [renameRd, Option.bind_eq_bind, Option.bind_eq_some_iff] at h
    obtain ⟨found, hfound, old', rfl, ⟨popped, freeList⟩, -, rdPhy', -, rat, hrat, h⟩ := h
    cases h
    obtain ⟨-, -, hset⟩ := hr.setMap hrat
    refine ⟨_, hset, fun _ => (hr.lookup hfound).2, fun a ha => ?_⟩
    exact Function.update_of_ne (fun he => ha ⟨by assumption, he⟩) ..
  · rename_i hno
    cases h
    exact ⟨m, hr, fun hc => absurd hc hno, fun _ _ => rfl⟩

/-- The entry of the ROB, which remembers the register that was replaced. -/
theorem renamePush_entry {mid pushed : Core} {old rdPhy : Nat}
    (h : renamePush cur s mid rev old rdPhy = some pushed) :
    pushed.speculativeRat = mid.speculativeRat
      ∧ (pushed.rob.buffer mid.rob.wptr.id).oldPhyRegId = old := by
  simp only [renamePush, Option.bind_eq_bind, Option.bind_eq_some_iff] at h
  obtain ⟨-, -, queued, hq, rob, hrob, h⟩ := h
  cases h
  have hqueued : queued.speculativeRat = mid.speculativeRat ∧ queued.rob = mid.rob := by
    unfold renameQueue at hq
    split at hq
    · split at hq
      · simp only [Option.bind_eq_bind, Option.bind_eq_some_iff] at hq
        obtain ⟨_, -, hq⟩ := hq
        cases hq
        exact ⟨rfl, rfl⟩
      · split at hq
        · simp only [Option.bind_eq_bind, Option.bind_eq_some_iff] at hq
          obtain ⟨_, -, _, -, hq⟩ := hq
          cases hq
          exact ⟨rfl, rfl⟩
        · cases hq
          exact ⟨rfl, rfl⟩
    · cases hq
      exact ⟨rfl, rfl⟩
  obtain ⟨-, -, -, hbuf⟩ := Fifo.push_eq_some hrob
  refine ⟨hqueued.1, ?_⟩
  dsimp only
  rw [hbuf, hqueued.2, Function.update_self]
  rfl

/-- A checkpoint changes neither. -/
theorem renameMark_sources {pushed : Core} {info info' : OpInfo}
    (h : renameMark cur s pushed info = some (info', s')) :
    s'.speculativeRat = pushed.speculativeRat ∧ s'.rob = pushed.rob
      ∧ info'.allocates = info.allocates ∧ info'.rd = info.rd ∧ info'.robId = info.robId
      ∧ (info'.rs1NeedMap = info.rs1NeedMap ∧ info'.rs1 = info.rs1 ∧ info'.rs1Phy = info.rs1Phy)
      ∧ info'.rs2NeedMap = info.rs2NeedMap ∧ info'.rs2 = info.rs2
      ∧ info'.rs2Phy = info.rs2Phy := by
  unfold renameMark at h
  split at h
  · simp only [Option.bind_eq_bind, Option.bind_eq_some_iff] at h
    obtain ⟨_, -, _, -, h⟩ := h
    cases h
    exact ⟨rfl, rfl, rfl, rfl, rfl, ⟨rfl, rfl, rfl⟩, rfl, rfl, rfl⟩
  · cases h
    exact ⟨rfl, rfl, rfl, rfl, rfl, ⟨rfl, rfl, rfl⟩, rfl, rfl, rfl⟩

/-- **One turn of rename**: the sources are those the table had in front of the instruction. -/
theorem renameOp_sourced (hen : rev.enable = true) (hr : Represents s.speculativeRat m)
    (h : renameOp cur s rev = some (info, s')) (n : Nat) :
    Flight.Sourced ⟨info, s', n⟩ ∧ ∃ m', Represents s'.speculativeRat m' := by
  unfold renameOp at h
  rw [hen] at h
  simp only [Bool.not_true, Bool.false_eq_true, if_false, Option.bind_eq_bind,
    Option.bind_eq_some_iff] at h
  obtain ⟨rs1Phy, h₁, rs2Phy, h₂, ⟨old, rdPhy, mid⟩, hdest, pushed, hpush, hmark⟩ := h
  obtain ⟨m', hr', hold, hkeep⟩ := renameDest_map hr hdest
  obtain ⟨hrat, hentry⟩ := renamePush_entry hpush
  obtain ⟨hrat', hrob, hal, hrd, hid, ⟨hn₁, hs₁, hp₁⟩, hn₂, hs₂, hp₂⟩ := renameMark_sources hmark
  have halloc : info.allocates = (rev.valid && rev.needRename) := hal
  rw [hrat] at hrat'
  rw [(renameDest_stores hdest).1] at hentry
  have hfound : ∀ (needMap : Bool) (rs phy : Nat),
      lookupPhy s.speculativeRat needMap rs = some phy → needMap = true →
        s'.Found info rs phy := by
    intro needMap rs phy hl hn
    obtain ⟨hreg, hlt, hm⟩ := lookupPhy_map hr hl hn
    refine ⟨hreg, hlt, fun ha hrs => ?_, fun hno => ?_⟩
    · rw [hrob, hid]
      rw [hrs, hrd, show (renameInfo s rev rs1Phy rs2Phy rdPhy).rd = rev.rd from rfl,
        hold (halloc ▸ ha)] at hm
      exact hentry.trans hm
    · rw [hrat', hr'.maps_iff hlt hreg, hkeep rs fun hc => hno ⟨halloc ▸ hc.1, hrd ▸ hc.2⟩]
      exact hm
  refine ⟨⟨fun hn => ?_, fun hn => ?_⟩, m', hrat' ▸ hr'⟩
  · dsimp only at hn ⊢
    rw [hs₁, hp₁]
    exact hfound _ _ _ h₁ (hn₁ ▸ hn)
  · dsimp only at hn ⊢
    rw [hs₂, hp₂]
    exact hfound _ _ _ h₂ (hn₂ ▸ hn)

end Turn

/-! ## Runs -/

section Runs

variable {w : World} {inp : CycleInput} {r : CycleResult} {g₀ g : Ghost}

/-- What a cycle renames is sourced, and what stays keeps what is written down. -/
theorem sourced_step (hw : w.Holds g₀) (hs : ∀ f ∈ w.flight, f.Sourced) (hl : inp.Legal w)
    (h : w.core.cycle inp = some r) : ∀ f ∈ (w.act r).flight, f.Sourced := by
  obtain ⟨s, g, hinv, -, hren⟩ := cycle_executed hw hl h
  have hturns := ((renameRun_turns hren).each (I := fun t => ∃ m, Represents t.speculativeRat m)
    (Q := fun t => Flight.Sourced ⟨t.1, t.2, 0⟩)
    (fun t info t' rev he ⟨m, hm⟩ ho => (renameOp_sourced he hm ho 0).symm)
    (fun p hp => (hl.shaped p hp).enable) ⟨_, hinv.spec⟩).2
  intro f hf
  rcases mem_flightAfter hf with hold | ⟨t, ht, hi, hafter⟩
  · exact hs f hold
  · obtain ⟨h₁, h₂⟩ := hturns t ht
    dsimp only at h₁ h₂
    rw [← hi, ← hafter] at h₁ h₂
    exact ⟨h₁, h₂⟩

theorem Reachable.sourced (h : Reachable w) : ∀ f ∈ w.flight, f.Sourced := by
  induction h with
  | init => simp [World.init]
  | cycle inp r hrun hl _ hr ih =>
    obtain ⟨g₀, hw⟩ := Reachable.holds hrun
    exact sourced_step hw ih hl hr

/-- The entry of an instruction names the register it was renamed with as long as it is there. -/
def World.Replaces (w : World) : Prop :=
  ∀ f ∈ w.flight, (w.core.rob.buffer f.info.robId.id).oldPhyRegId
    = (f.after.rob.buffer f.info.robId.id).oldPhyRegId

theorem replaces_step (hw : w.Holds g₀) (hr : w.Replaces) (hl : inp.Legal w)
    (h : w.core.cycle inp = some r) (hw' : (w.act r).Holds g) : (w.act r).Replaces := by
  intro f hf
  cases cycle_survives hw hl h hw' f hf with
  | kept hmem _ hcell =>
    rw [show (w.act r).core = r.next from rfl, hcell, ← hr f hmem]
    rcases w.core.merged_cases inp.commit.executeCommitPort f.info.robId.id with
      hm | ⟨rev, -, -, -, hm⟩
    · rw [hm]
    · rw [hm]
      rfl
  | renamed t ht hinfo _ =>
    -- the instruction of this turn is the only one with its slot
    obtain ⟨-, f', hf', hi, hafter⟩ := mem_flight_of_turn hw hl h ht
    obtain rfl : f' = f := List.inj_on_of_nodup_map hw'.slots_nodup hf' hf (by rw [hi, hinfo])
    rw [hafter, show (w.act r).core = r.next from rfl, hinfo, cycle_recorded hw hl h hw' ht]

theorem Reachable.replaces (h : Reachable w) : w.Replaces := by
  induction h with
  | init => exact fun f hf => by cases hf
  | cycle inp r hrun hl hP hr ih =>
    obtain ⟨g₀, hw⟩ := Reachable.holds hrun
    obtain ⟨g, hw'⟩ := Reachable.holds (.cycle inp r hrun hl hP hr)
    exact replaces_step hw ih hl hr hw'

/-- **The source of an instruction in flight is the home the architectural register has in front of
it.** -/
theorem Core.Found.home {f : Flight} {l₁ l₂ : List Flight} {rs phy : Nat} (hw : w.Holds g)
    (hr : w.Replaces) (hl : g.flight = l₁ ++ f :: l₂) (h : f.after.Found f.info rs phy) :
    (tip g.base l₁).map rs = phy := by
  have hentry := hw.inv.entry hl
  have hmem : f ∈ w.flight := by
    rw [← hw.flight, hl]
    simp
  by_cases hown : f.info.allocates = true ∧ rs = f.info.rd
  · obtain ⟨ha, hrd⟩ := hown
    have hold := (hentry.item.oldPhyRegId ha).1
    rw [← Ptr.fold_id, ← hentry.robId, hr f hmem] at hold
    rw [hrd, ← hold]
    exact h.replaced ha hrd
  · have hmap := (hentry.recorded.map.maps_iff h.lt h.reg).mp (h.mapped hown)
    rw [← hmap]
    unfold advance
    dsimp only
    split
    · rename_i ha
      exact (Function.update_of_ne (fun he => hown ⟨ha, he⟩) ..).symm
    · rfl

end Runs

end DreamCore
