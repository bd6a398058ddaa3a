import DreamCore.Backend.Conservation
import DreamCore.Backend.Execution

/-!
# The valid bits of the register file

A register is free, the home of an architectural register, or the destination of
an instruction in flight. A free register is not valid: commit clears its bit as
it releases it, and the recovery of the branch unit clears the bits of what it
squashes. A home is valid only if it has been written, because what retires has
written back; that is why commit may set the bits of all the homes when it
flushes. A destination in flight is valid only if its instruction has written it:
a result that arrives after its instruction has been squashed would break that,
and none does.
-/

namespace DreamCore

open Ring

variable {s : Core} {g g₀ : Ghost} {w : World} {inp : CycleInput} {r : CycleResult}

/-! ## Homes and destinations -/

/-- The destinations of a window. -/
def dests (fl : List Flight) : List Nat :=
  (fl.filter fun f => f.info.allocates).map fun f => f.info.rdPhy

theorem mem_dests {fl : List Flight} {p : Nat} :
    p ∈ dests fl ↔ ∃ f ∈ fl, f.info.allocates = true ∧ f.info.rdPhy = p := by
  simp only [dests, List.mem_map, List.mem_filter, and_assoc]

/-- The destinations are the ids popped since the retired end. -/
theorem dests_eq {freed : Nat} {released : List Nat} {base : Shadow} {fl : List Flight}
    (h : Window.EachAt advance (EntryOk s freed released) base fl) :
    dests fl = slots phyRegNum s.phyIdFreeList.ring.buffer base.free (tip base fl).free := by
  induction fl using List.reverseRecOn with
  | nil => simp [dests]
  | append_singleton fl f ih =>
    obtain ⟨hfl, hf⟩ := Window.eachAt_snoc.mp h
    have hfree : (tip base (fl ++ [f])).free = (tip base fl).free + f.info.allocates.toNat := by
      rw [tip, Window.tip_snoc]
      rfl
    rw [hfree, dests, List.filter_append, List.map_append, ← dests, ih hfl]
    cases hal : f.info.allocates with
    | false => simp [hal]
    | true =>
      rw [Bool.toNat_true, slots_succ_right _ (free_le_tip base fl), (hf.dest hal).2]
      simp [hal]

/-- **The three places of a register** have none in common. -/
theorem World.Holds.apart (hw : w.Holds g) :
    (w.core.phyIdFreeList.contents ++ w.core.retireRat.validRegs ++ dests w.flight).Nodup := by
  have hnd := hw.inv.registers_nodup
  have hflight : w.core.inFlightRegs = dests w.flight := by
    rw [Core.inFlightRegs, hw.inv.rob.contents_eq (by decide), ← hw.flight, dests_eq hw.inv.entries]
    exact inFlight_eq hw.inv.entries
  rwa [Core.registers, hflight] at hnd

/-- A destination is a register. -/
theorem World.Holds.dest_lt (hw : w.Holds g) {p : Nat} (hp : p ∈ dests w.flight) :
    p < phyRegNum := by
  rw [← hw.flight, dests_eq hw.inv.entries] at hp
  refine hw.inv.bound p ?_
  rw [← slots_append (b := g.tip.free) _ (free_le_tip _ _) hw.inv.free.le]
  exact List.mem_append_left _ hp

/-- **No two instructions in flight have one destination.** -/
theorem World.Holds.dest_inj (hw : w.Holds g) {f f' : Flight} (hf : f ∈ w.flight)
    (hf' : f' ∈ w.flight) (ha : f.info.allocates = true) (ha' : f'.info.allocates = true)
    (he : f.info.rdPhy = f'.info.rdPhy) : f = f' :=
  List.inj_on_of_nodup_map (List.nodup_append.mp hw.apart).2.1
    (List.mem_filter.mpr ⟨hf, ha⟩) (List.mem_filter.mpr ⟨hf', ha'⟩) he

/-- A destination is no home. -/
theorem World.Holds.dest_not_home (hw : w.Holds g) {p : Nat} (hp : p ∈ dests w.flight) :
    w.core.retireRat.phyMapTableValid p ≠ true := by
  intro hv
  refine (List.nodup_append.mp hw.apart).2.2 p (List.mem_append_right _ ?_) p hp rfl
  exact List.mem_filter.mpr ⟨List.mem_range.mpr (hw.dest_lt hp), hv⟩

/-! ## What retires -/

/-- **Where a register of the architecture has moved** along a window: it is where it was, or the
first instruction that writes it has found it there. -/
theorem tip_map_cases (fl : List Flight) (σ : Shadow) (a : Nat) : (tip σ fl).map a = σ.map a ∨
    ∃ l₁ f l₂, fl = l₁ ++ f :: l₂ ∧ f.info.allocates = true ∧ f.info.rd = a
      ∧ (tip σ l₁).map a = σ.map a := by
  induction fl generalizing σ with
  | nil => exact .inl rfl
  | cons f fl ih =>
    by_cases hf : f.info.allocates = true ∧ f.info.rd = a
    · exact .inr ⟨[], f, fl, rfl, hf.1, hf.2, rfl⟩
    · have hstay : (advance f σ).map a = σ.map a := by
        unfold advance
        dsimp only
        split
        · rename_i ha
          exact Function.update_of_ne (fun he => hf ⟨ha, he.symm⟩) ..
        · rfl
      rw [tip, Window.tip_cons, ← tip]
      rcases ih (advance f σ) with h | ⟨l₁, f', l₂, rfl, ha, hrd, h⟩
      · exact .inl (h.trans hstay)
      · exact .inr ⟨f :: l₁, f', l₂, rfl, ha, hrd, h.trans hstay⟩

/-- An entry that has retired, and its instruction. -/
theorem retired_entry (hw : w.Holds g₀) (h : w.core.cycle inp = some r) {e : Nat × RobItem}
    (he : e ∈ r.commit.retired) : ∃ f ∈ w.flight.take r.commit.retired.length,
      e.2 = w.core.rob.buffer f.info.robId.id := by
  have hslot := List.mem_map_of_mem (f := Prod.fst) he
  rw [retired_slots hw h] at hslot
  obtain ⟨f, hf, hid⟩ := List.mem_map.mp hslot
  exact ⟨f, hf, by rw [(commitRun_plain (Core.cycle_eq_some h).commit e he).1, hid]⟩

/-- **What retires releases the old home of its destination.** -/
theorem retired_releases (hw : w.Holds g₀) (h : w.core.cycle inp = some r) {l₁ l₂ : List Flight}
    {f : Flight} (hl : w.flight.take r.commit.retired.length = l₁ ++ f :: l₂)
    (ha : f.info.allocates = true) :
    (tip g₀.base l₁).map f.info.rd ∈ releasedIds r.commit.retired := by
  have hflight : g₀.flight = l₁ ++ f :: (l₂ ++ w.flight.drop r.commit.retired.length) := by
    rw [hw.flight, ← List.cons_append, ← List.append_assoc, ← hl, List.take_append_drop]
  have hentry := hw.inv.entry hflight
  have hslot : f.info.robId.id ∈ r.commit.retired.map Prod.fst := by
    rw [retired_slots hw h, hl]
    exact List.mem_map_of_mem (by simp)
  obtain ⟨e, he, hid⟩ := List.mem_map.mp hslot
  have hitem := (commitRun_plain (Core.cycle_eq_some h).commit e he).1
  have htracks : e.2.Tracks (tip g₀.base l₁) f := by
    rw [hitem, hid, hentry.robId, Ptr.fold_id]
    exact hentry.item
  refine List.mem_filterMap.mpr ⟨e, he, ?_⟩
  rw [htracks.allocates, ha, if_pos rfl, (htracks.oldPhyRegId ha).1]

/-- **A home stays a home, or it is released.** -/
theorem home_or_released (hw : w.Holds g₀) (h : w.core.cycle inp = some r) {l₁ l₂ : List Flight}
    (hl : w.flight.take r.commit.retired.length = l₁ ++ l₂) (a : Nat) :
    (tip g₀.base (w.flight.take r.commit.retired.length)).map a = (tip g₀.base l₁).map a
      ∨ (tip g₀.base l₁).map a ∈ releasedIds r.commit.retired := by
  rw [hl, tip, Window.tip_append, ← tip]
  rcases tip_map_cases l₂ (tip g₀.base l₁) a with hstay | ⟨m₁, f, m₂, rfl, ha, hrd, hfound⟩
  · exact .inl hstay
  · refine .inr ?_
    rw [← List.append_assoc] at hl
    have hrel := retired_releases hw h hl ha
    rw [tip, Window.tip_append, ← tip, hrd] at hrel
    rwa [← hfound]

/-- **The homes after a cycle that commit does not flush.** -/
theorem cycle_homes (hw : w.Holds g₀) (hl : inp.Legal w) (h : w.core.cycle inp = some r)
    (hfl : r.commit.feedback.flush = false) : Represents r.next.retireRat
      (tip g₀.base (w.flight.take r.commit.retired.length)).map := by
  have hstages := Core.cycle_eq_some h
  obtain ⟨hack, hrsb⟩ := early_waits w.core inp
  have hports : ∀ rev ∈ inp.commit.executeCommitPort, rev.enable = true →
      ∃ f ∈ g₀.flight, ResultOf f.info rev := by
    rw [hw.flight]
    exact hl.results
  rw [cycle_retireRat hw h]
  cases commitRun_effect hw.inv (early_sameWindow w.core inp) hack hrsb hports hstages.commit with
  | retired k hk _ =>
    have hret := hk.inv.retire
    rwa [g₀.retireN_base k, hw.flight, ← hk.retired_length] at hret
  | dropped k j hk =>
    have := hk.flush
    rw [hfl] at this
    cases this
  | interrupted _ _ hflush _ =>
    rw [hfl] at hflush
    cases hflush

/-! ## The registers and their instructions -/

/-- **What the valid bits of a world mean.** `wrote` says which registers have been written since they
were last given out. -/
structure World.RegsOk (w : World) (wrote : Nat → Bool) : Prop where
  live : ∀ p < phyRegNum, (w.core.phyRegfile p).dataValid = true →
    w.core.retireRat.phyMapTableValid p = true ∨ p ∈ dests w.flight
  written : ∀ p < phyRegNum, (w.core.phyRegfile p).dataValid = true → wrote p = true
  homes : ∀ p < phyRegNum, w.core.retireRat.phyMapTableValid p = true → wrote p = true
  /-- The result of an instruction in flight is marked as its own. -/
  flight : ∀ f ∈ w.flight, f.info.allocates = true →
    (w.core.phyRegfile f.info.rdPhy).dataValid = true →
      (w.core.phyRegfile f.info.rdPhy).oldest = false
        ∧ (w.core.phyRegfile f.info.rdPhy).robId = f.info.robId
  /-- What could retire without an exception has written. -/
  finished : ∀ f ∈ w.flight, f.info.allocates = true →
    (w.core.rob.buffer f.info.robId.id).finish = true →
      (w.core.rob.buffer f.info.robId.id).hasException = false → wrote f.info.rdPhy = true

/-- The results of a cycle and the instructions in flight: what write-back writes is the result of an
instruction that is not finished, and it writes what commit takes. -/
structure World.Writes (w : World) (inp : CycleInput) (r : CycleResult) : Prop where
  belongs : ∀ rev ∈ inp.written w.core r, ∃ f ∈ w.flight, f.info.allocates = true
    ∧ f.info.rdPhy = rev.rdPhy ∧ f.info.robId = rev.robId
    ∧ ¬ (w.core.rob.buffer f.info.robId.id).finish = true
  completes : r.commit.feedback.flush = false → ∀ rev ∈ inp.commit.executeCommitPort,
    rev.enable = true → rev.hasException = false → ∀ f ∈ w.flight,
      f.info.robId.id = rev.robId.id → f.info.allocates = true →
        r.bru.squashes f.info.robId = false →
          rev ∈ inp.written w.core r ∧ f.info.rdPhy = rev.rdPhy ∧ f.info.robId = rev.robId

variable {wrote : Nat → Bool} {p : Nat}

theorem regsOk_init : World.init.RegsOk fun p => decide (p < archRegNum - 1) where
  live _ _ hv := .inl hv
  written _ _ hv := hv
  homes _ _ hv := hv
  flight := by simp [World.init]
  finished := by simp [World.init]

/-- Write-back squashes with the flush that the units see. -/
theorem written_spares (hw : w.Holds g₀) (h : w.core.cycle inp = some r)
    {rev : ExecuteWbPack} (hrev : rev ∈ inp.written w.core r) :
    r.commit.feedback.flush = false ∧ rev ∈ inp.commit.executeCommitPort.take 8
      ∧ rev.enable = true ∧ rev.valid = true ∧ rev.hasException = false ∧ rev.needRename = true
      ∧ r.bru.squashes rev.robId = false := by
  obtain ⟨-, hbru⟩ := (Core.cycle_eq_some h).feedbacks hw
  unfold CycleInput.written wbWritten at hrev
  split at hrev
  · cases hrev
  · rename_i hfl
    obtain ⟨hmem, htakes⟩ := List.mem_filter.mp hrev
    simp only [wbTakes, Bool.and_eq_true, Bool.not_eq_true'] at htakes
    obtain ⟨⟨hsq, -⟩, ⟨⟨hen, hv⟩, hex⟩, hn⟩ := htakes
    rw [Bool.not_eq_true] at hfl
    rw [hbru, hfl]
    exact ⟨rfl, hmem, hen, hv, hex, hn, hsq⟩

/-- **Where a register that is valid after a cycle is**: it is a home, or an instruction that stays in
flight has written it. -/
theorem World.RegsOk.source (hok : w.RegsOk wrote) (hwr : w.Writes inp r) (hw : w.Holds g₀)
    (hl : inp.Legal w) (h : w.core.cycle inp = some r) (hfl : r.commit.feedback.flush = false)
    (hreg : RegStep w.core inp r p) (hp : p < phyRegNum)
    (hv : (r.next.phyRegfile p).dataValid = true) :
    r.next.retireRat.phyMapTableValid p = true ∨ ∃ f ∈ w.survivors r, f.info.allocates = true
      ∧ f.info.rdPhy = p ∧ (r.next.phyRegfile p).oldest = false
      ∧ (r.next.phyRegfile p).robId = f.info.robId := by
  rcases hreg.source with ⟨rev, hrev, hrd, hreg⟩ | hrel
  · obtain ⟨f, hf, ha, hphy, hid, hfin⟩ := hwr.belongs rev hrev
    obtain ⟨-, -, -, -, -, -, hsq⟩ := written_spares hw h hrev
    refine .inr ⟨f, mem_survivors hw h hfl hf hfin (hid ▸ hsq), ha, hphy.trans hrd, ?_, ?_⟩
    · rw [hreg]
    · rw [hreg]
      exact hid.symm
  · rw [hrel] at hv
    obtain ⟨hold, hno⟩ := Regfile.releaseAll_valid hv
    have hhomes := cycle_homes hw hl h hfl
    have hhome : ∀ (l₁ : List Flight) {l₂ : List Flight} {a : Nat}, IsReg a →
        w.flight.take r.commit.retired.length = l₁ ++ l₂ → (tip g₀.base l₁).map a = p →
          r.next.retireRat.phyMapTableValid p = true := by
      intro l₁ l₂ a ha hsplit hmap
      rcases home_or_released hw h hsplit a with hstay | hrel
      · exact (hhomes.valid p hp).mpr ⟨a, ha, hstay.trans hmap⟩
      · rw [hmap] at hrel
        exact absurd hrel hno
    rcases hok.live p hp hold with hh | hd
    · obtain ⟨a, ha, hmap⟩ := (hw.inv.retire.valid p hp).mp hh
      exact .inl (hhome [] ha rfl hmap)
    · obtain ⟨f, hf, ha, rfl⟩ := mem_dests.mp hd
      rw [← List.take_append_drop r.commit.retired.length w.flight] at hf
      rcases List.mem_append.mp hf with hret | hstay
      · -- the instruction retires, and its destination becomes a home
        obtain ⟨l₁, l₂, hsplit⟩ := List.append_of_mem hret
        have hflight : g₀.flight = l₁ ++ f :: (l₂ ++ w.flight.drop r.commit.retired.length) := by
          rw [hw.flight, ← List.cons_append, ← List.append_assoc, ← hsplit,
            List.take_append_drop]
        have hsplit' : w.flight.take r.commit.retired.length = (l₁ ++ [f]) ++ l₂ := by
          rw [hsplit, List.append_assoc, List.singleton_append]
        refine .inl (hhome (l₁ ++ [f]) ((hw.inv.entry hflight).dest ha).1 hsplit' ?_)
        rw [tip, Window.tip_snoc, ← tip]
        simp [advance, ha]
      · have hf := List.mem_of_mem_drop hstay
        obtain ⟨holdest, hid⟩ := hok.flight f hf ha hold
        have hsq : r.bru.squashes f.info.robId = false := by
          cases hb : r.bru.flush with
          | false => simp [FlushFeedback.squashes, hb]
          | true =>
            have := hreg.squashed hb
            rw [PhyReg.youngerThan, hold, holdest, hid] at this
            simpa [FlushFeedback.squashes, hb] using this
        have hkeep : w.core.phyRegfile.releaseAll r.commit.retired f.info.rdPhy
            = w.core.phyRegfile f.info.rdPhy := by
          refine Regfile.releaseAll_of_ne fun e he hval => ⟨fun heq => ?_, fun heq => ?_⟩
          · exact hno (List.mem_filterMap.mpr ⟨e, he, by rw [hval, if_pos rfl, heq]⟩)
          · -- an instruction that retires has another destination
            obtain ⟨f', hf', hitem⟩ := retired_entry hw h he
            obtain ⟨σ, ht⟩ := hw.tracks (List.mem_of_mem_take hf')
            rw [hitem] at hval heq
            have hff := hw.dest_inj (List.mem_of_mem_take hf') hf (ht.allocates ▸ hval) ha
              (ht.newPhyRegId.symm.trans heq)
            have hnd := hw.slots_nodup.of_map
            rw [← List.take_append_drop r.commit.retired.length w.flight] at hnd
            exact (List.nodup_append.mp hnd).2.2 f' hf' f hstay hff
        refine .inr ⟨f, ?_, ha, rfl, ?_, ?_⟩
        · rw [World.survivors, hfl]
          exact List.mem_filter.mpr ⟨hstay, by rw [hsq]; rfl⟩
        · rw [hrel, hkeep]
          exact holdest
        · rw [hrel, hkeep]
          exact hid

/-- **What is a home or stays in flight is not given out** in the cycle. -/
theorem not_given (hw : w.Holds g₀) (hl : inp.Legal w) (h : w.core.cycle inp = some r)
    (hw' : (w.act r).Holds g)
    (hp : r.next.retireRat.phyMapTableValid p = true
      ∨ ∃ f ∈ w.survivors r, f.info.allocates = true ∧ f.info.rdPhy = p) :
    (r.rename.turns.any fun t => t.1.allocates && t.1.rdPhy == p) = false := by
  rw [Bool.eq_false_iff]
  intro hc
  obtain ⟨t, ht, hc⟩ := List.any_eq_true.mp hc
  rw [Bool.and_eq_true, beq_iff_eq] at hc
  obtain ⟨ha, hrd⟩ := hc
  have hfl := (mem_flight_of_turn hw hl h ht).1
  have hflight := act_flight hw hl h hfl
  have hnew : (⟨t.1, t.2, (w.released ++ releasedIds r.commit.retired).length⟩ : Flight)
      ∈ flights (w.released ++ releasedIds r.commit.retired).length r.rename.turns :=
    List.mem_map_of_mem ht
  have hnew' := List.mem_append_right (w.survivors r) hnew
  rw [← hflight] at hnew'
  rcases hp with hhome | ⟨f, hf, hfa, hfrd⟩
  · exact hw'.dest_not_home (mem_dests.mpr ⟨_, hnew', ha, hrd⟩) hhome
  · have hf' := List.mem_append_left
      (flights (w.released ++ releasedIds r.commit.retired).length r.rename.turns) hf
    rw [← hflight] at hf'
    have hnd := hw'.slots_nodup.of_map
    rw [hflight] at hnd
    exact (List.nodup_append.mp hnd).2.2 f hf _ hnew
      (hw'.dest_inj hf' hnew' hfa ha (hfrd.trans hrd.symm))

/-- **A home after a cycle has been written**: it was a home, or its instruction has retired. -/
theorem World.RegsOk.home (hok : w.RegsOk wrote) (hw : w.Holds g₀)
    (h : w.core.cycle inp = some r) (hp : p < phyRegNum)
    (hv : r.next.retireRat.phyMapTableValid p = true) : wrote p = true := by
  rcases (cycle_regs hw h).2 p hv with hold | ⟨e, he, hval, hnew⟩
  · exact hok.homes p hp hold
  · obtain ⟨f, hf, hitem⟩ := retired_entry hw h he
    obtain ⟨hfin, hex⟩ := retired_plain hw h hf
    obtain ⟨σ, ht⟩ := hw.tracks (List.mem_of_mem_take hf)
    rw [hitem] at hval hnew
    rw [← hnew, ht.newPhyRegId]
    exact hok.finished f (List.mem_of_mem_take hf) (ht.allocates ▸ hval) hfin hex

/-- What has been written before, or is in this cycle, has been written after it, if it is not given
out. -/
theorem wroteBack_of_kept
    (hno : (r.rename.turns.any fun t => t.1.allocates && t.1.rdPhy == p) = false)
    (hwr : wrote p = true ∨ ∃ rev ∈ inp.written w.core r, ∃ f ∈ w.flight,
      f.info.allocates = true ∧ f.info.rdPhy = p ∧ f.info.rdPhy = rev.rdPhy
        ∧ f.info.robId = rev.robId) : w.wroteBack inp r wrote p = true := by
  rw [World.wroteBack, hno, if_neg Bool.false_ne_true, Bool.or_eq_true]
  refine hwr.imp id fun ⟨rev, hrev, f, hf, ha, hp, hrd, hid⟩ => ?_
  refine List.any_eq_true.mpr ⟨rev, hrev, ?_⟩
  rw [Bool.and_eq_true, beq_iff_eq]
  refine ⟨hrd.symm.trans hp, List.any_eq_true.mpr ⟨f, hf, ?_⟩⟩
  simp [ha, hp, hid]

/-- **A cycle that commit does not flush keeps the valid bits right.** -/
theorem World.RegsOk.stepped (hok : w.RegsOk wrote) (hwr : w.Writes inp r) (hw : w.Holds g₀)
    (hl : inp.Legal w) (h : w.core.cycle inp = some r) (hw' : (w.act r).Holds g)
    (hfl : r.commit.feedback.flush = false)
    (hregs : ∀ p, (r.next.phyRegfile p).dataValid = true → RegStep w.core inp r p) :
    (w.act r).RegsOk (w.wroteBack inp r wrote) := by
  have hflight := act_flight hw hl h hfl
  have hsurv : ∀ f ∈ w.survivors r, f ∈ (w.act r).flight := fun f hf => by
    rw [hflight]
    exact List.mem_append_left _ hf
  have hsource : ∀ p < phyRegNum, (r.next.phyRegfile p).dataValid = true → _ := fun p hp hv =>
    hok.source hwr hw hl h hfl (hregs p hv) hp hv
  refine ⟨fun p hp hv => ?_, fun p hp hv => ?_, fun p hp hv => ?_, fun f hf ha hv => ?_,
    fun f hf ha hfin hex => ?_⟩
  · rcases hsource p hp hv with hhome | ⟨f, hf, ha, hrd, -⟩
    · exact .inl hhome
    · exact .inr (mem_dests.mpr ⟨f, hsurv f hf, ha, hrd⟩)
  · refine wroteBack_of_kept (not_given hw hl h hw' ?_) ?_
    · rcases hsource p hp hv with hhome | ⟨f, hf, ha, hrd, -⟩
      · exact .inl hhome
      · exact .inr ⟨f, hf, ha, hrd⟩
    · rcases (hregs p hv).source with ⟨rev, hrev, hrd, -⟩ | hrel
      · obtain ⟨f, hf, ha, hphy, hid, -⟩ := hwr.belongs rev hrev
        exact .inr ⟨rev, hrev, f, hf, ha, hphy.trans hrd, hphy, hid⟩
      · rw [show (w.act r).core = r.next from rfl, hrel] at hv
        exact .inl (hok.written p hp (Regfile.releaseAll_valid hv).1)
  · exact wroteBack_of_kept (not_given hw hl h hw' (.inl hv)) (.inl (hok.home hw h hp hv))
  · have hdest : f.info.rdPhy ∈ dests (w.act r).flight := mem_dests.mpr ⟨f, hf, ha, rfl⟩
    rcases hsource _ (hw'.dest_lt hdest) hv with hhome | ⟨f', hf', ha', hrd, hold, hid⟩
    · exact absurd hhome (hw'.dest_not_home hdest)
    · rw [hw'.dest_inj (hsurv f' hf') hf ha' ha hrd] at hid
      exact ⟨hold, hid⟩
  · cases cycle_survives hw hl h hw' f hf with
    | renamed t ht hinfo hfresh =>
      have := hfresh.finish
      rw [show r.next = (w.act r).core from rfl, hfin] at this
      cases this
    | kept hmem hsq hcell =>
      rw [show (w.act r).core = r.next from rfl, hcell] at hfin hex
      have hstays : f ∈ w.survivors r := by
        rw [hflight] at hf
        rcases List.mem_append.mp hf with hf | hnew
        · exact hf
        · -- it would have been renamed, and its entry fresh
          have hfresh := cycle_fresh hw hl h hw' f hnew (hflight ▸ List.mem_append_right _ hnew)
          rw [← hcell, hfresh.finish] at hfin
          cases hfin
      refine wroteBack_of_kept (not_given hw hl h hw' (.inr ⟨f, hstays, ha, rfl⟩)) ?_
      rcases w.core.merged_cases inp.commit.executeCommitPort f.info.robId.id with
        hm | ⟨rev, hrev, hen, hslot, hm⟩
      · rw [hm] at hfin hex
        exact .inl (hok.finished f hmem ha hfin hex)
      · rw [hm, RobItem.applyResult] at hex
        dsimp only at hex
        split at hex
        · cases hex
        · obtain ⟨hwritten, hrd, hid⟩ :=
            hwr.completes hfl rev hrev hen hex f hmem hslot.symm ha hsq
          exact .inr ⟨rev, hwritten, f, hmem, ha, rfl, hrd, hid⟩

/-- **Every cycle keeps the valid bits right.** -/
theorem World.RegsOk.step (hok : w.RegsOk wrote) (hwr : w.Writes inp r) (hw : w.Holds g₀)
    (hl : inp.Legal w) (h : w.core.cycle inp = some r) (hw' : (w.act r).Holds g) :
    (w.act r).RegsOk (w.wroteBack inp r wrote) := by
  -- a flush of commit leaves nothing in flight, and rename and write-back idle
  have hempty : r.commit.feedback.flush = true → (w.act r).flight = []
      ∧ ∀ p, wrote p = true → w.wroteBack inp r wrote p = true := by
    intro hfl
    refine ⟨by simp [World.act, World.flightAfter, hfl], fun p hp => ?_⟩
    refine wroteBack_of_kept (Bool.eq_false_iff.mpr fun hc => ?_) (.inl hp)
    obtain ⟨t, ht, -⟩ := List.any_eq_true.mp hc
    rw [(mem_flight_of_turn hw hl h ht).1] at hfl
    cases hfl
  cases (cycle_regs hw h).1 with
  | stepped hfl hregs => exact hok.stepped hwr hw hl h hw' hfl hregs
  | restored hfl hregs =>
    obtain ⟨hnil, hkeep⟩ := hempty hfl
    refine ⟨fun p hp hv => .inl (hregs p hv),
      fun p hp hv => hkeep p (hok.home hw h hp (hregs p hv)),
      fun p hp hv => hkeep p (hok.home hw h hp hv), ?_, ?_⟩
    · rw [hnil]
      simp
    · rw [hnil]
      simp
  | interrupted hfl hno hrat hregs =>
    obtain ⟨hnil, hkeep⟩ := hempty hfl
    have hold : ∀ p, ((w.act r).core.phyRegfile p).dataValid = true →
        (w.core.phyRegfile p).dataValid = true := fun p hv => by
      rw [← hregs p hv]
      exact hv
    refine ⟨fun p hp hv => .inl ?_, fun p hp hv => hkeep p (hok.written p hp (hold p hv)),
      fun p hp hv => hkeep p (hok.home hw h hp hv), ?_, ?_⟩
    · rcases hok.live p hp (hold p hv) with hh | hd
      · rw [show (w.act r).core = r.next from rfl, hrat]
        exact hh
      · rw [hno] at hd
        cases hd
    · rw [hnil]
      simp
    · rw [hnil]
      simp

/-! ## Runs -/

namespace Execution

variable {q : Execution} {inp : ExecutionInput} {r : CycleResult} {d : Dispatch}

/-- **The results of a run** belong to instructions that are not finished, and write-back takes what
commit takes. -/
theorem Held.writes (hq : q.Held) (hc : q.Cycle inp r d) (hw : q.pipe.world.Holds g₀)
    (hdec : ∀ f ∈ q.pipe.world.flight, ∃ rev : Fetch2DecodePack, rev.FetchOk
      ∧ f.info.Sends (decode rev)) : q.pipe.world.Writes inp.pipe.cycle r where
  belongs := by
    intro rev hrev
    obtain ⟨-, hmem, hen, hv, -, hn, -⟩ := written_spares hw hc.core hrev
    rw [hc.ports] at hmem
    obtain ⟨f, hf, op, hex, hprod⟩ := hq.ports rev (List.mem_of_mem_take hmem) hen
    have hnames := hex.names
    have hcop := hprod.copied hen
    refine ⟨f, hf, ?_, (hcop.rdPhy.trans hnames.rdPhy).symm, (hcop.robId.trans hnames.robId).symm,
      fun hfin => ?_⟩
    · rw [OpInfo.allocates, ← hnames.valid, ← hnames.needRename, ← hcop.valid, ← hcop.needRename,
        hv, hn]
      rfl
    · exact (hq.finished f hf hfin).2 rev (List.mem_of_mem_take hmem) hen
        (hcop.robId.trans hnames.robId)
  completes := by
    intro hfl rev hrev hen hex f hf hslot ha hsq
    obtain ⟨hsau, hbru⟩ := (Core.cycle_eq_some hc.core).feedbacks hw
    have hsauFb := hw.inv.sauFb_flush inp.pipe.cycle
    rw [hc.ports] at hrev
    obtain ⟨f', hf', op, hexec, hprod⟩ := hq.ports rev hrev hen
    have hnames := hexec.names
    have hcop := hprod.copied hen
    have hid : rev.robId = f'.info.robId := hcop.robId.trans hnames.robId
    obtain rfl : f' = f := List.inj_on_of_nodup_map hw.slots_nodup hf' hf (by rw [hslot, hid])
    have halloc := ha
    rw [OpInfo.allocates, Bool.and_eq_true] at halloc
    -- the two parts of a store write no register
    have hinner : rev ∈ q.ports.take 8 := by
      rw [← List.take_append_drop 8 q.ports] at hrev
      rcases List.mem_append.mp hrev with hrev | hrev
      · exact hrev
      · have hpart := hq.outer rev hrev hen
        obtain ⟨dec, -, hsend⟩ := hdec f' hf'
        have hunit : f'.info.opUnit = .sdu := by
          rw [hcop.opUnit] at hpart
          rcases hnames.opUnit with he | ⟨-, hi⟩
          · have hne := hsend.unit_ne_sau
            rw [he] at hpart
            revert hpart hne
            cases f'.info.opUnit <;> decide
          · exact hi
        obtain ⟨l₁, l₂, hsplit⟩ := List.append_of_mem hf'
        have hshaped := (hw.inv.entry (hw.flight.trans hsplit)).shaped.store
        rw [hshaped] at ha
        · cases ha
        · rw [DecodeRenamePack.takesStoreBuffer, hsend.unit_valid (by rw [hunit]; decide), hunit]
          rfl
    refine ⟨?_, (hcop.rdPhy.trans hnames.rdPhy).symm, hid.symm⟩
    unfold CycleInput.written wbWritten
    rw [hfl, if_neg Bool.false_ne_true, hc.ports]
    refine List.mem_filter.mpr ⟨hinner, ?_⟩
    rw [hfl, if_neg Bool.false_ne_true] at hbru
    rw [wbTakes, ← hbru, hid, hsq, FlushFeedback.squashesEqual, hsauFb, hen, hex, hcop.valid,
      hnames.valid, halloc.1, hcop.needRename, hnames.needRename, halloc.2]
    rfl

theorem Reachable.regsOk (h : Reachable q) : q.pipe.world.RegsOk q.wrote := by
  induction h with
  | init => exact regsOk_init
  | @cycle q inp r d hrun hc ih =>
    obtain ⟨hpipe, hq⟩ := hrun.held
    obtain ⟨g₀, hw⟩ := hpipe.world.holds
    obtain ⟨g, hw'⟩ := (Reachable.cycle inp r d hrun hc).held.1.world.holds
    exact ih.step (hq.writes hc hw hpipe.world.decoded) hw (hq.pipe hc).legal.cycle hc.core hw'

/-- **A valid register has been written.** In every state of a run no free register is valid, and an
allocated register is valid only if the instruction it was last given to has written it. -/
theorem valid_bits (h : Reachable q) :
    (∀ p ∈ q.pipe.world.core.phyIdFreeList.contents,
      (q.pipe.world.core.phyRegfile p).dataValid = false)
    ∧ ∀ p < phyRegNum, (q.pipe.world.core.phyRegfile p).dataValid = true → q.wrote p = true := by
  have hok := h.regsOk
  obtain ⟨g, hw⟩ := h.held.1.world.holds
  refine ⟨fun p hp => ?_, hok.written⟩
  rw [Bool.eq_false_iff]
  intro hv
  have hlt : p < phyRegNum := by
    refine hw.inv.bound p ?_
    rw [← slots_append (b := g.tip.free) _ (free_le_tip _ _) hw.inv.free.le,
      ← hw.inv.free.contents_eq (by decide)]
    exact List.mem_append_right _ hp
  have hnd := hw.apart
  rw [List.append_assoc] at hnd
  refine (List.nodup_append.mp hnd).2.2 p hp p ?_ rfl
  rcases hok.live p hlt hv with hh | hd
  · exact List.mem_append_left _ (List.mem_filter.mpr ⟨List.mem_range.mpr hlt, hh⟩)
  · exact List.mem_append_right _ hd

/-- Two additions to the same register are renamed, executed and retired. -/
def addsRetired : Execution :=
  (play ([plainPack 0x80000000 0x00500093, plainPack 0x80000004 0x00108093]
    :: List.replicate 6 []) init).getD init

theorem addsRetired_reachable : Reachable addsRetired := by
  obtain ⟨q, hq⟩ : ∃ q, play ([plainPack 0x80000000 0x00500093, plainPack 0x80000004 0x00108093]
      :: List.replicate 6 []) init = some q :=
    Option.isSome_iff_exists.mp (by decide +kernel)
  rw [addsRetired, hq, Option.getD_some]
  refine Reachable.play _ ?_ .init hq
  intro packs hpacks p hp
  rcases List.mem_cons.mp hpacks with rfl | hpacks
  · simp only [List.mem_cons, List.not_mem_nil, or_false] at hp
    rcases hp with rfl | rfl <;> exact plainPack_ok ..
  · rw [List.eq_of_mem_replicate hpacks] at hp
    cases hp

/-- The register of the first has come back and is not valid; that of the second is valid. -/
theorem valid_bits_addsRetired :
    (31 ∈ addsRetired.pipe.world.core.phyIdFreeList.contents
      ∧ (addsRetired.pipe.world.core.phyRegfile 31).dataValid = false)
    ∧ (addsRetired.pipe.world.core.phyRegfile 32).dataValid = true
      ∧ addsRetired.wrote 32 = true := by
  have hfree : 31 ∈ addsRetired.pipe.world.core.phyIdFreeList.contents := by decide +kernel
  have hvalid : (addsRetired.pipe.world.core.phyRegfile 32).dataValid = true := by decide +kernel
  obtain ⟨hinvalid, hwrote⟩ := valid_bits addsRetired_reachable
  exact ⟨⟨hfree, hinvalid 31 hfree⟩, hvalid, hwrote 32 (by decide) hvalid⟩

end Execution

end DreamCore
