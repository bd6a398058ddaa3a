import DreamCore.Backend.Dataflow
import DreamCore.Backend.Recovery

/-!
# Registers that stay valid

A valid bit is set when write-back writes the register, and cleared in two ways: by
commit, where it gives the register back, and by a flush. The branch unit clears what
the instructions it squashes have written, and tells them by the age that write-back
has left in the register; a register that has become a home is marked, so that its age
is not looked at any more. A flush of commit sets the bits anew, to the homes.

So what has been written stays valid as long as it is needed: the homes are always
valid, which `main.cpp` checks after every cycle, and whoever waits for a register of
an instruction in flight finds it valid from the cycle on in which it is written.
-/

namespace DreamCore

open Ring

/-! ## The stages -/

namespace Regfile

variable {regs : Regfile} {l : List (Nat × RobItem)} {x : Nat}

/-- What is not given back is as valid as it was. -/
theorem release_dataValid {id : Nat} {item : RobItem} (h : x ∉ releasedIds [(id, item)]) :
    (regs.release item x).dataValid = (regs x).dataValid := by
  unfold release
  split
  · rename_i hv
    have hne : x ≠ item.oldPhyRegId := by
      rintro rfl
      simp [releasedIds, hv] at h
    unfold writeAgeInformation write
    by_cases hx : x = item.newPhyRegId
    · rw [hx, Function.update_self]
      rw [hx] at hne
      rw [Function.update_of_ne hne]
    · rw [Function.update_of_ne hx, Function.update_of_ne hne]
  · rfl

theorem releaseAll_dataValid (h : x ∉ releasedIds l) :
    (regs.releaseAll l x).dataValid = (regs x).dataValid := by
  induction l generalizing regs with
  | nil => rfl
  | cons e l ih =>
    have hcons : e :: l = [(e.1, e.2)] ++ l := rfl
    rw [hcons, releasedIds_append, List.mem_append, not_or] at h
    have hrest : ((regs.release e.2).releaseAll l x).dataValid = (regs.release e.2 x).dataValid :=
      ih h.2
    exact hrest.trans (release_dataValid h.1)

end Regfile

section Cycle

variable {cur s s' : Core} {inp : CycleInput} {bru sau : FlushFeedback} {flush : Bool} {x : Nat}

/-- **The units clear nothing** but what the branch unit squashes: the store address unit finds no
load it could go back to. -/
theorem executeRun_spares {fl : List Flight} (hok : inp.UnitsOk fl)
    (hplain : ∀ id, (s.loadQueue.ring.buffer id).checkpointIdValid = false)
    (hspared : flush = false → (inp.bruFb cur).flush = true →
      (cur.phyRegfile x).youngerThan (inp.bruFb cur).robId = false)
    (h : executeRun cur s inp bru sau flush = some s') :
    s'.phyRegfile x = s.phyRegfile x := by
  simp only [executeRun, Option.bind_eq_bind, Option.bind_eq_some_iff] at h
  obtain ⟨s₁, h₁, s₂, h₂, h₃⟩ := h
  have hbru : s₁.phyRegfile x = s.phyRegfile x ∧ s₁.loadQueue.ring.buffer = s.loadQueue.ring.buffer
      := by
    unfold bruTurn at h₁
    split at h₁
    · rename_i rev hrev
      have hfb : inp.bruFb cur = bruFeedback (bruCompute cur.csrFile rev) := by
        simp [CycleInput.bruFb, hrev]
      unfold bruRun at h₁
      split at h₁
      · cases h₁
        exact ⟨rfl, rfl⟩
      · dsimp only at h₁
        split at h₁
        · rename_i hfl
          have hno := hspared rfl (hfb ▸ hfl)
          rw [hfb] at hno
          simp only [bruRecover, Option.bind_eq_bind, Option.bind_eq_some_iff] at h₁
          obtain ⟨robWptr, -, freeList, -, h₁⟩ := h₁
          cases h₁
          refine ⟨?_, rfl⟩
          dsimp only [Regfile.restoreAge]
          exact if_neg (Bool.eq_false_iff.mp hno)
        · cases h₁
          exact ⟨rfl, rfl⟩
    · cases h₁
      exact ⟨rfl, rfl⟩
  -- the store address unit goes back to a load only if the load has a checkpoint
  have hlq : ∀ id,
      ((luTurn cur s₁ inp bru sau flush).loadQueue.ring.buffer id).checkpointIdValid = false := by
    refine Core.SameWindow.lqPlain (luTurn_sameWindow hok bru sau flush) fun id => ?_
    rw [hbru.2]
    exact hplain id
  have hsau : s₂.phyRegfile = (luTurn cur s₁ inp bru sau flush).phyRegfile := by
    unfold sauTurn at h₂
    split at h₂
    · split at h₂
      · cases h₂
        rfl
      · unfold sauRun at h₂
        dsimp only at h₂
        split at h₂
        · split at h₂
          · rename_i hconflict
            rw [sauConflict_plain hlq hconflict, if_neg Bool.false_ne_true] at h₂
            cases h₂
            exact (sauWrite_regs _).2
          · cases h₂
            exact (sauWrite_regs _).2
        · cases h₂
          exact (sauWrite_regs _).2
    · cases h₂
      rfl
  rw [sduTurn_regfile h₃, hsau, luTurn_regfile]
  exact hbru.1

/-! ## The cycle -/

variable {w : World} {g₀ g : Ghost} {r : CycleResult}

/-- No load may go back to a checkpoint, also after commit. -/
theorem commit_lqPlain (hw : w.Holds g₀) (hl : inp.Legal w) (h : w.core.cycle inp = some r)
    (id : Nat) : (r.commit.new.loadQueue.ring.buffer id).checkpointIdValid = false := by
  obtain ⟨hack, hrsb⟩ := early_waits w.core inp
  have hports : ∀ rev ∈ inp.commit.executeCommitPort, rev.enable = true →
      ∃ f ∈ g₀.flight, ResultOf f.info rev := by
    rw [hw.flight]
    exact hl.results
  cases commitRun_effect hw.inv (early_sameWindow w.core inp) hack hrsb hports
      (Core.cycle_eq_some h).commit with
  | retired k hk _ => exact hk.inv.lqPlain id
  | dropped k j hk => exact hk.inv.lqPlain id
  | interrupted _ hinv _ _ => exact hinv.lqPlain id

/-- **What is valid or written stays valid over a cycle**, if the cycle neither gives it back nor
squashes who has written it; a flush of commit leaves the homes valid. -/
theorem cycle_valid (hw : w.Holds g₀) (hl : inp.Legal w) (h : w.core.cycle inp = some r)
    (hno : x ∉ releasedIds r.commit.retired)
    (hspared : r.bru.flush = true → (w.core.phyRegfile x).youngerThan r.bru.robId = false)
    (hhome : r.commit.feedback.flush = true → r.next.retireRat.phyMapTableValid x = true)
    (hvalid : (w.core.phyRegfile x).dataValid = true
      ∨ ∃ rev ∈ inp.written w.core r, rev.rdPhy = x) :
    (r.next.phyRegfile x).dataValid = true := by
  have hstages := Core.cycle_eq_some h
  obtain ⟨s, hexec, hren⟩ := hstages.execute
  obtain ⟨-, hbru⟩ := hstages.feedbacks hw
  -- the stages in their order: commit, write-back, the units; rename writes no register
  have hcommit : (w.core.phyRegfile x).dataValid = true →
      (r.commit.new.phyRegfile x).dataValid = true := by
    intro hv
    cases (commitRun_regs hstages.commit).1 with
    | stepped _ hrel =>
      rw [hrel, (early_regs w.core inp).2, Regfile.releaseAll_dataValid hno]
      exact hv
    | restored hfl hres =>
      rw [hres x, ← cycle_retireRat hw h]
      exact hhome hfl
    | interrupted _ _ _ hkeep =>
      rw [hkeep, (early_regs w.core inp).2]
      exact hv
  have hwb : ((wbRun r.commit.new (inp.bruFb w.core) (inp.sauFb w.core) r.commit.feedback.flush
      (inp.commit.executeCommitPort.take 8)).phyRegfile x).dataValid = true := by
    rcases wbRun_regs r.commit.new (inp.bruFb w.core) (inp.sauFb w.core) r.commit.feedback.flush
      (inp.commit.executeCommitPort.take 8) x with ⟨hkeep, hwritten⟩ | ⟨rev, -, -, hreg⟩
    · rw [hkeep]
      rcases hvalid with hv | ⟨rev, hrev, hrd⟩
      · exact hcommit hv
      · exact absurd hrd (hwritten rev hrev)
    · rw [hreg]
  have hunits : s.phyRegfile x = (wbRun r.commit.new (inp.bruFb w.core) (inp.sauFb w.core)
      r.commit.feedback.flush (inp.commit.executeCommitPort.take 8)).phyRegfile x := by
    refine executeRun_spares hl.unitsOk (fun id => ?_) (fun hfl hb => ?_) hexec
    · exact (wbRun_sameWindow ..).lqPlain (fun id => commit_lqPlain hw hl h id) id
    · rw [hbru, hfl, if_neg Bool.false_ne_true] at hspared
      exact hspared hb
  rw [hstages.next, (renameRun_turns hren).regs.2, hunits]
  exact hwb

/-- **The branch unit does not squash what retires**: the branch is not finished, and behind it. -/
theorem retired_spared (hw : w.Holds g₀) (hl : inp.Legal w) (h : w.core.cycle inp = some r)
    (hunfinished : ∀ rev, inp.bru = some rev → ∀ b ∈ w.flight, rev.robId = b.info.robId →
      (w.core.entry b).finish ≠ true) {f : Flight}
    (hf : f ∈ w.flight.take r.commit.retired.length) : r.bru.squashes f.info.robId = false := by
  cases hb : r.bru.flush with
  | false => simp [FlushFeedback.squashes, hb]
  | true =>
    obtain ⟨m₁, b, m₂, hbranch, ⟨rev, hrev, hop⟩, hyounger⟩ := bru_squashes hw hl h hb
    have hbmem : b ∈ w.flight := by
      rw [hbranch]
      simp
    -- if the branch were among what retires, it would be finished
    have hle : r.commit.retired.length ≤ m₁.length := by
      by_contra hlt
      refine hunfinished rev hrev b hbmem hop.robId (retired_plain hw h ?_).1
      rw [hbranch, List.take_append, List.mem_append]
      refine .inr ?_
      rw [show r.commit.retired.length - m₁.length
        = r.commit.retired.length - m₁.length - 1 + 1 by omega, List.take_succ_cons]
      exact List.mem_cons_self ..
    rw [hbranch, List.take_append_of_le_length hle] at hf
    obtain ⟨k₁, k₂, hk⟩ := List.append_of_mem (List.mem_of_mem_take hf)
    have hsplit : w.flight = k₁ ++ f :: (k₂ ++ b :: m₂) := by
      rw [hbranch, hk]
      simp
    rw [Bool.eq_false_iff, ne_eq, hyounger _ _ _ hsplit, hk, List.length_append, List.length_cons]
    omega

end Cycle

/-! ## Runs -/

/-- **What has to be valid is.** The homes are, and no flush looks at them; so is what an
instruction in flight has written. -/
structure World.Live (w : World) (wrote : Nat → Bool) : Prop where
  homes : ∀ x < phyRegNum, w.core.retireRat.phyMapTableValid x = true →
    (w.core.phyRegfile x).dataValid = true ∧ (w.core.phyRegfile x).oldest = true
  flight : ∀ f ∈ w.flight, f.info.allocates = true → wrote f.info.rdPhy = true →
    (w.core.phyRegfile f.info.rdPhy).dataValid = true

theorem live_init (wrote : Nat → Bool) : World.init.Live wrote where
  homes _ _ hv := ⟨hv, rfl⟩
  flight := by simp [World.init]

namespace Execution

variable {q : Execution} {inp : ExecutionInput} {r : CycleResult} {d : Dispatch} {g₀ : Ghost}
  {x : Nat} {f : Flight}

/-- What an instruction that is not squashed has written is not cleared. -/
theorem Reachable.result_spared (h : q.Reachable) (hf : f ∈ q.pipe.world.flight)
    (ha : f.info.allocates = true) (hb : r.bru.flush = true)
    (hsq : r.bru.squashes f.info.robId = false) :
    (q.pipe.world.core.phyRegfile f.info.rdPhy).youngerThan r.bru.robId = false := by
  unfold PhyReg.youngerThan
  cases hv : (q.pipe.world.core.phyRegfile f.info.rdPhy).dataValid with
  | false => rfl
  | true =>
    obtain ⟨-, hid⟩ := h.regsOk.flight f hf ha hv
    rw [FlushFeedback.squashes, hb, Bool.true_and] at hsq
    rw [hid, hsq, Bool.and_false]

/-- **What retires is not squashed** by the branch of the cycle, which is still in its unit. -/
theorem Reachable.retired_spared (h : q.Reachable) (hc : q.Cycle inp r d)
    (hf : f ∈ q.pipe.world.flight.take r.commit.retired.length) :
    r.bru.squashes f.info.robId = false := by
  obtain ⟨hrun, hheld⟩ := h.held
  obtain ⟨g₀, hw⟩ := hrun.world.holds
  have hl := (hheld.pipe hc).legal.cycle
  refine DreamCore.retired_spared hw hl hc.core (fun rev hrev b hb hid => ?_) hf
  exact fun hfin => (hheld.finished b hb hfin).1 rev (hc.bru rev hrev).1 hid

/-- **A home after a cycle** was one before, or is the destination of what retires. -/
theorem Reachable.home_cases (h : q.Reachable) (hc : q.Cycle inp r d)
    (hv : r.next.retireRat.phyMapTableValid x = true) :
    q.pipe.world.core.retireRat.phyMapTableValid x = true ∨
      ∃ f ∈ q.pipe.world.flight.take r.commit.retired.length, f.info.allocates = true
        ∧ f.info.rdPhy = x ∧ ∃ e ∈ r.commit.retired, e.2.oldPhyRegIdValid = true
          ∧ e.2.newPhyRegId = x := by
  obtain ⟨g₀, hw⟩ := h.held.1.world.holds
  rcases (cycle_regs hw hc.core).2 x hv with hold | ⟨e, he, hval, hnew⟩
  · exact .inl hold
  · obtain ⟨f, hf, hitem⟩ := retired_entry hw hc.core he
    obtain ⟨σ, ht⟩ := hw.tracks (List.mem_of_mem_take hf)
    refine .inr ⟨f, hf, ?_, ?_, e, he, hval, hnew⟩
    · rw [← ht.allocates, ← hitem]
      exact hval
    · rw [← hnew, hitem]
      exact ht.newPhyRegId.symm

/-- **A cycle keeps the homes valid**, and marks the new ones. -/
theorem Reachable.homes_live (h : q.Reachable) (hlive : q.pipe.world.Live q.wrote)
    (hc : q.Cycle inp r d) (hx : x < phyRegNum)
    (hv : r.next.retireRat.phyMapTableValid x = true) :
    (r.next.phyRegfile x).dataValid = true ∧ (r.next.phyRegfile x).oldest = true := by
  obtain ⟨hrun, hheld⟩ := h.held
  obtain ⟨g₀, hw⟩ := hrun.world.holds
  have hl := (hheld.pipe hc).legal.cycle
  have hwr := hheld.writes hc hw hrun.world.decoded
  have hcases := h.home_cases hc hv
  obtain ⟨hno, hquiet⟩ : x ∉ releasedIds r.commit.retired
      ∧ ∀ rev ∈ inp.pipe.cycle.written q.pipe.world.core r, rev.rdPhy ≠ x := by
    obtain ⟨a, ha, rfl⟩ := ((cycle_homes_retired hw hl hc.core).valid x hx).mp hv
    exact retired_home_kept hw hwr hc.core ha
  obtain ⟨hcommit, hlast⟩ := cycle_kept hc.core
  -- a home that was one is marked, and is not looked at; a new one has just been written
  refine ⟨cycle_valid hw hl hc.core hno (fun hb => ?_) (fun _ => hv) (.inl ?_), hlast.oldest x ?_⟩
  · rcases hcases with hold | ⟨f, hf, ha, rfl, -⟩
    · rw [PhyReg.youngerThan, (hlive.homes x hx hold).2, Bool.not_true, Bool.and_false,
        Bool.false_and]
    · exact h.result_spared (List.mem_of_mem_take hf) ha hb (h.retired_spared hc hf)
  · rcases hcases with hold | ⟨f, hf, ha, rfl, -⟩
    · exact (hlive.homes x hx hold).1
    · obtain ⟨hfin, hex⟩ := retired_plain hw hc.core hf
      have hmem := List.mem_of_mem_take hf
      exact hlive.flight f hmem ha (h.regsOk.finished f hmem ha hfin hex)
  · rcases wbRun_regs r.commit.new (inp.pipe.cycle.bruFb q.pipe.world.core)
      (inp.pipe.cycle.sauFb q.pipe.world.core) r.commit.feedback.flush
      (inp.pipe.cycle.commit.executeCommitPort.take 8) x with ⟨hkeep, -⟩ | ⟨rev, hrev, hrd, -⟩
    · rw [hkeep]
      rcases hcases with hold | ⟨-, -, -, -, e, he, hval, rfl⟩
      · exact hcommit.oldest x (hlive.homes x hx hold).2
      · exact hcommit.home e he hval
    · exact absurd hrd (hquiet rev hrev)

/-- **What an instruction that stays in flight has written is valid.** -/
theorem Reachable.flight_live (h : q.Reachable) (hlive : q.pipe.world.Live q.wrote)
    (hc : q.Cycle inp r d) (hf : f ∈ (q.pipe.world.act r).flight) (ha : f.info.allocates = true)
    (hwrote : (q.act inp r d).wrote f.info.rdPhy = true) :
    (r.next.phyRegfile f.info.rdPhy).dataValid = true := by
  obtain ⟨hrun, hheld⟩ := h.held
  obtain ⟨g₀, hw⟩ := hrun.world.holds
  have hl := (hheld.pipe hc).legal.cycle
  cases hfl : r.commit.feedback.flush with
  | true =>
    have hnil : (q.pipe.world.act r).flight = [] := by simp [World.act, World.flightAfter, hfl]
    rw [hnil] at hf
    cases hf
  | false =>
    obtain ⟨hsurv, -, hwrote⟩ := h.wrote_cases hc hfl hf ha hwrote
    have hmem := mem_of_survivors hsurv
    have hsq := (survivor_split hsurv).2.1
    refine cycle_valid hw hl hc.core ((h.stays hc hsurv).2 ha).released
      (fun hb => h.result_spared hmem ha hb hsq) (fun hflush => ?_) ?_
    · rw [hfl] at hflush
      cases hflush
    · rcases hwrote with hold | ⟨rev, hrev, hrd, -⟩
      · exact .inl (hlive.flight f hmem ha hold)
      · exact .inr ⟨rev, hrev, hrd⟩

theorem Reachable.live (h : q.Reachable) : q.pipe.world.Live q.wrote := by
  induction h with
  | init => exact live_init _
  | cycle inp r d hrun hc ih =>
    exact ⟨fun x hx hv => hrun.homes_live ih hc hx hv, fun f hf ha hwrote =>
      hrun.flight_live ih hc hf ha hwrote⟩

/-- **The registers of the architecture are always valid.** In every state of a run each of them is
mapped by `retire_rat` to a valid register, and the destination of an instruction in flight is valid
from the cycle on in which write-back writes it. -/
theorem gprs_valid (h : q.Reachable) :
    (∀ a, IsReg a → ∃ x, q.pipe.world.core.retireRat.customerGetPhyId a = some (some x)
      ∧ (q.pipe.world.core.phyRegfile x).dataValid = true)
    ∧ ∀ f ∈ q.pipe.world.flight, f.info.allocates = true →
      ((q.pipe.world.core.phyRegfile f.info.rdPhy).dataValid = true
        ↔ q.wrote f.info.rdPhy = true) := by
  obtain ⟨g, hw⟩ := h.held.1.world.holds
  have hlive := h.live
  refine ⟨fun a ha => ⟨_, hw.inv.retire.lookup_eq ha, ?_⟩, fun f hf ha => ⟨fun hv => ?_, ?_⟩⟩
  · have hlt := (hw.inv.rewind [] _ rfl a ha).2
    exact (hlive.homes _ hlt ((hw.inv.retire.valid _ hlt).mpr ⟨a, ha, rfl⟩)).1
  · exact h.regsOk.written _ (hw.dest_lt (mem_dests.mpr ⟨f, hf, ha, rfl⟩)) hv
  · exact hlive.flight f hf ha

/-- After two additions to `x1` its home is the register of the second. -/
theorem gprs_valid_addsRetired :
    addsRetired.pipe.world.core.retireRat.customerGetPhyId 1 = some (some 32)
      ∧ (addsRetired.pipe.world.core.phyRegfile 32).dataValid = true := by
  have hhome : addsRetired.pipe.world.core.retireRat.customerGetPhyId 1 = some (some 32) := by
    decide +kernel
  obtain ⟨x, hx, hv⟩ := (gprs_valid addsRetired_reachable).1 1 ⟨by decide, by decide⟩
  rw [hhome] at hx
  cases hx
  exact ⟨hhome, hv⟩

end Execution

end DreamCore
