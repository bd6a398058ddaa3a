import DreamCore.Backend.Merging

/-!
# The register file in one cycle

Four stages write `phy_regfile`. Commit releases the old register of what it
retires, or takes the valid bits of the whole file from the retired table when it
flushes; write-back writes the results on its ports that no flush of the cycle
squashes; the branch unit clears what younger instructions have written. Rename
only reads.
-/

namespace DreamCore

open Ring

/-! ## Commit -/

/-- What the retirement of `item` writes: its old register is released, and its new one is no
longer the result of an instruction in flight. -/
def Regfile.release (regs : Regfile) (item : RobItem) : Regfile :=
  if item.oldPhyRegIdValid then
    (regs.write item.oldPhyRegId 0 false ⟨0, false⟩ true).writeAgeInformation item.newPhyRegId
      ⟨0, false⟩ true
  else regs

/-- The register file after several entries have retired. -/
def Regfile.releaseAll (regs : Regfile) (l : List (Nat × RobItem)) : Regfile :=
  l.foldl (fun regs e => regs.release e.2) regs

namespace Regfile

variable {regs : Regfile} {item : RobItem} {l : List (Nat × RobItem)} {p : Nat}

/-- **A release clears the valid bit of the old register, and sets none.** -/
theorem release_valid (h : (regs.release item p).dataValid = true) :
    (regs p).dataValid = true ∧ (item.oldPhyRegIdValid = true → item.oldPhyRegId ≠ p) := by
  unfold release at h
  split at h
  · have hold : (regs.write item.oldPhyRegId 0 false ⟨0, false⟩ true p).dataValid = true := by
      unfold writeAgeInformation at h
      by_cases hp : p = item.newPhyRegId
      · rw [hp, Function.update_self] at h
        rw [hp]
        exact h
      · rwa [Function.update_of_ne hp] at h
    unfold write at hold
    by_cases hp : p = item.oldPhyRegId
    · rw [hp, Function.update_self] at hold
      cases hold
    · rw [Function.update_of_ne hp] at hold
      exact ⟨hold, fun _ => Ne.symm hp⟩
  · rename_i hv
    exact ⟨h, fun hc => absurd hc hv⟩

theorem release_of_ne
    (h : item.oldPhyRegIdValid = true → item.oldPhyRegId ≠ p ∧ item.newPhyRegId ≠ p) :
    regs.release item p = regs p := by
  unfold release
  split
  · rename_i hv
    obtain ⟨hold, hnew⟩ := h hv
    rw [writeAgeInformation, Function.update_of_ne (Ne.symm hnew), write,
      Function.update_of_ne (Ne.symm hold)]
  · rfl

theorem releaseAll_valid (h : (regs.releaseAll l p).dataValid = true) :
    (regs p).dataValid = true ∧ p ∉ releasedIds l := by
  induction l generalizing regs with
  | nil => exact ⟨h, by simp [releasedIds]⟩
  | cons e l ih =>
    obtain ⟨hv, hno⟩ := ih h
    obtain ⟨hregs, hold⟩ := release_valid hv
    refine ⟨hregs, fun hc => ?_⟩
    obtain ⟨e', he', hid⟩ := List.mem_filterMap.mp hc
    rcases List.mem_cons.mp he' with rfl | he'
    · split at hid
      · rename_i hv'
        exact hold hv' (Option.some.inj hid)
      · cases hid
    · exact hno (List.mem_filterMap.mpr ⟨e', he', hid⟩)

/-- What no retirement names is as it was. -/
theorem releaseAll_of_ne (h : ∀ e ∈ l, e.2.oldPhyRegIdValid = true →
    e.2.oldPhyRegId ≠ p ∧ e.2.newPhyRegId ≠ p) : regs.releaseAll l p = regs p := by
  induction l generalizing regs with
  | nil => rfl
  | cons e l ih =>
    exact (ih fun e' he' => h e' (List.mem_cons_of_mem _ he')).trans
      (release_of_ne (h e (List.mem_cons_self ..)))

end Regfile

/-- The valid bits are those of the retired table. -/
def Core.Restored (s : Core) : Prop :=
  ∀ p, (s.phyRegfile p).dataValid = s.retireRat.phyMapTableValid p

/-- **What a part of commit that retires `l` does to the registers**: the table grows by the new
registers of `l`, and the file is released or restored. -/
structure RegTurn (st st' : CommitState) (l : List (Nat × RobItem)) (go : Bool) : Prop where
  homes : ∀ p, st'.new.retireRat.phyMapTableValid p = true →
    st.new.retireRat.phyMapTableValid p = true
      ∨ ∃ e ∈ l, e.2.oldPhyRegIdValid = true ∧ e.2.newPhyRegId = p
  regs : (go = false ∧ st'.feedback.flush = true ∧ st'.new.Restored) ∨
    (st'.feedback.flush = st.feedback.flush
      ∧ st'.new.phyRegfile = st.new.phyRegfile.releaseAll l)

namespace RegTurn

variable {st st₁ st' : CommitState} {l l₁ l₂ : List (Nat × RobItem)} {go : Bool}

theorem same (hrat : st'.new.retireRat = st.new.retireRat)
    (hregs : st'.new.phyRegfile = st.new.phyRegfile)
    (hflush : st'.feedback.flush = st.feedback.flush) : RegTurn st st' [] go :=
  ⟨fun _ hp => .inl (hrat ▸ hp), .inr ⟨hflush, hregs⟩⟩

theorem restored (hrat : st'.new.retireRat = st.new.retireRat) (hflush : st'.feedback.flush = true)
    (h : st'.new.Restored) : RegTurn st st' [] false :=
  ⟨fun _ hp => .inl (hrat ▸ hp), .inl ⟨rfl, hflush, h⟩⟩

/-- **The parts of a turn one after the other.** -/
theorem trans (h₁ : RegTurn st st₁ l₁ true) (h₂ : RegTurn st₁ st' l₂ go) :
    RegTurn st st' (l₁ ++ l₂) go := by
  refine ⟨fun p hp => ?_, ?_⟩
  · rcases h₂.homes p hp with hp | ⟨e, he, hv⟩
    · rcases h₁.homes p hp with hp | ⟨e, he, hv⟩
      · exact .inl hp
      · exact .inr ⟨e, List.mem_append_left _ he, hv⟩
    · exact .inr ⟨e, List.mem_append_right _ he, hv⟩
  · rcases h₁.regs with ⟨hgo, -⟩ | ⟨hf₁, hr₁⟩
    · cases hgo
    · rcases h₂.regs with hres | ⟨hf₂, hr₂⟩
      · exact .inl hres
      · refine .inr ⟨hf₂.trans hf₁, ?_⟩
        rw [hr₂, hr₁, Regfile.releaseAll, Regfile.releaseAll, Regfile.releaseAll, List.foldl_append]

end RegTurn

section Commit

variable {cur : Core} {st st' : CommitState} {id : Nat} {item : RobItem} {go : Bool}
  {writeAck : Option BusErrno}

theorem flushPipeline_regs {s s' : Core} {rptr : Ptr} (h : flushPipeline cur s rptr = some s') :
    s'.retireRat = s.retireRat ∧ s'.Restored := by
  simp only [flushPipeline, Option.bind_eq_bind, Option.bind_eq_some_iff] at h
  obtain ⟨_, -, h⟩ := h
  cases h
  exact ⟨rfl, fun _ => rfl⟩

theorem commitException_regs {e : RiscvException} {v : Word}
    (h : commitException cur id item e v st = some st') : RegTurn st st' [] false := by
  simp only [commitException, Option.bind_eq_bind, Option.bind_eq_some_iff] at h
  obtain ⟨s, hs, h⟩ := h
  cases h
  obtain ⟨hrat, hres⟩ := flushPipeline_regs hs
  exact .restored hrat rfl hres

theorem commitLoad_regs (h : commitLoad cur item st = some (st', go)) : RegTurn st st' [] go := by
  unfold commitLoad at h
  split at h
  · cases h
    exact .same rfl rfl rfl
  · split at h
    · simp only [Option.bind_eq_bind, Option.bind_eq_some_iff] at h
      obtain ⟨s, hs, h⟩ := h
      cases h
      obtain ⟨hrat, hres⟩ := flushPipeline_regs hs
      exact .restored hrat rfl hres
    · cases h
      exact .same rfl rfl rfl

theorem commitStore_regs (h : commitStore cur writeAck id item st = some (st', go)) :
    RegTurn st st' [] go := by
  unfold commitStore at h
  split at h
  · cases h
    exact .same rfl rfl rfl
  · simp only [Option.bind_eq_bind, Option.bind_eq_some_iff] at h
    obtain ⟨tItem, -, addr, -, size, -, -, -, h⟩ := h
    split at h
    · split at h
      · cases h
        exact .same rfl rfl rfl
      · split at h
        · obtain ⟨st₁, h₁, h⟩ := Option.bind_eq_some_iff.mp h
          cases h
          have ht := commitException_regs h₁
          exact ⟨ht.homes, ht.regs⟩
        · cases h
          exact .same rfl rfl rfl
    · split at h
      · obtain ⟨ring, -, h⟩ := Option.bind_eq_some_iff.mp h
        cases h
        exact .same rfl rfl rfl
      · cases h
        exact .same rfl rfl rfl

/-- **The retirement releases the old register**, and the table takes the new one. -/
theorem commitRetire_regs (h : commitRetire cur id item st = some st') :
    RegTurn st st' [(id, item)] true := by
  simp only [commitRetire, Option.bind_eq_bind, Option.bind_eq_some_iff] at h
  obtain ⟨s, hs, h⟩ := h
  cases h
  have heffects : (retireEffects s item).retireRat = s.retireRat
      ∧ (retireEffects s item).phyRegfile = s.phyRegfile := by
    unfold retireEffects
    split <;> split <;> exact ⟨rfl, rfl⟩
  unfold retireMap at hs
  split at hs
  · rename_i hv
    simp only [Option.bind_eq_bind, Option.bind_eq_some_iff] at hs
    obtain ⟨rat, hrat, ⟨fl, ok⟩, -, hs⟩ := hs
    cases hs
    obtain ⟨old, -, -, -, -, hvalid⟩ := RatTable.setMap_eq_some hrat
    refine ⟨fun p hp => ?_, .inr ⟨rfl, ?_⟩⟩
    · dsimp only at hp
      rw [heffects.1] at hp
      dsimp only at hp
      rw [hvalid] at hp
      by_cases hold : p = old
      · rw [hold, Function.update_self] at hp
        cases hp
      · rw [Function.update_of_ne hold] at hp
        by_cases hnew : p = item.newPhyRegId
        · exact .inr ⟨_, List.mem_singleton_self _, hv, hnew.symm⟩
        · rw [Function.update_of_ne hnew] at hp
          exact .inl hp
    · dsimp only
      rw [heffects.2]
      simp only [Regfile.releaseAll, List.foldl_cons, List.foldl_nil, Regfile.release, hv, if_true]
  · rename_i hv
    cases hs
    refine ⟨fun p hp => ?_, .inr ⟨rfl, ?_⟩⟩
    · dsimp only at hp
      rw [heffects.1] at hp
      exact .inl hp
    · dsimp only
      rw [heffects.2]
      simp only [Regfile.releaseAll, List.foldl_cons, List.foldl_nil, Regfile.release, hv,
        Bool.false_eq_true, if_false]

theorem commitPredicted_regs (h : commitPredicted cur item st = some st') :
    RegTurn st st' [] false := by
  simp only [commitPredicted] at h
  split at h
  · cases h
    exact .same rfl rfl rfl
  · split at h
    · cases h
    · split at h
      · cases h
        exact .same rfl rfl rfl
      · simp only [commitMispredict, Option.bind_eq_bind, Option.bind_eq_some_iff] at h
        obtain ⟨s, hs, h⟩ := h
        cases h
        obtain ⟨hrat, hres⟩ := flushPipeline_regs hs
        exact .restored hrat rfl hres

theorem commitMret_regs (cur : Core) (item : RobItem) (st : CommitState) :
    RegTurn st (commitMret cur item st) [] true := by
  unfold commitMret
  split <;> exact .same rfl rfl rfl

theorem commitBranch_regs (h : commitBranch cur item st = some (st', go)) :
    RegTurn st st' [] go := by
  have hmret := commitMret_regs cur item st
  unfold commitBranch at h
  split at h
  · cases h
    exact .same rfl rfl rfl
  · split at h
    · obtain ⟨st₁, h₁, he⟩ := Option.map_eq_some_iff.mp h
      cases he
      exact hmret.trans (commitPredicted_regs h₁)
    · cases h
      exact hmret.trans (.same rfl rfl rfl)

/-- **One turn of the output loop.** -/
theorem commitOne_regs {firstId i : Nat} (hex : st.feedback.hasException = false)
    (h : commitOne cur writeAck firstId i st = some (st', go)) :
    ∃ l, st.Logs st' l go ∧ RegTurn st st' l go := by
  unfold commitOne at h
  split at h
  · cases h
    exact ⟨[], .same hex rfl rfl, .same rfl rfl rfl⟩
  rename_i id hid
  dsimp only [Fifo.customerGetItem] at h
  split at h
  · cases h
    exact ⟨[], .same hex rfl rfl, .same rfl rfl rfl⟩
  obtain ⟨⟨next, nextValid⟩, -, h⟩ := Option.bind_eq_some_iff.mp h
  unfold commitFinished at h
  split at h
  · obtain ⟨st₁, h₁, heq⟩ := Option.map_eq_some_iff.mp h
    cases heq
    have hl := (commitException_stores (by exact hex) h₁).2
    have ht := commitException_regs h₁
    exact ⟨[], ⟨hl.retired, hl.goes⟩, ⟨ht.homes, ht.regs⟩⟩
  obtain ⟨blocked, -, h⟩ := Option.bind_eq_some_iff.mp h
  split at h
  · cases h
    exact ⟨[], .same hex rfl rfl, .same rfl rfl rfl⟩
  rcases andThen_eq_some h with ⟨st₁, h₁, hrest⟩ | ⟨hload, hgo⟩
  · have hl₁ := (commitLoad_stores (by exact hex) h₁).2
    have ht₁ := commitLoad_regs h₁
    rcases andThen_eq_some hrest with ⟨st₂, h₂, h₃⟩ | ⟨h₂, hgo⟩
    · have hl₂ := commitStore_logs (hl₁.goes rfl) h₂
      have hl := (hl₁.trans hl₂).trans (retireBranch_stores (hl₂.goes rfl) h₃).2
      obtain ⟨st₃, h₃, h₄⟩ := Option.bind_eq_some_iff.mp h₃
      have ht := (ht₁.trans (commitStore_regs h₂)).trans
        ((commitRetire_regs h₃).trans (commitBranch_regs h₄))
      exact ⟨_, ⟨hl.retired, hl.goes⟩, ⟨ht.homes, ht.regs⟩⟩
    · have hl := hl₁.trans (commitStore_logs (hl₁.goes rfl) h₂)
      have ht := ht₁.trans (commitStore_regs h₂)
      exact ⟨_, ⟨hl.retired, hl.goes⟩, ⟨ht.homes, ht.regs⟩⟩
  · have hl := (commitLoad_stores (by exact hex) hload).2
    have ht := commitLoad_regs hload
    exact ⟨[], ⟨hl.retired, hl.goes⟩, ⟨ht.homes, ht.regs⟩⟩

theorem commitLoop_regs {firstId k i : Nat} (hex : st.feedback.hasException = false)
    (h : commitLoop cur writeAck firstId k i st = some st') :
    ∃ l, st'.retired = st.retired ++ l ∧ RegTurn st st' l false := by
  induction k generalizing i st with
  | zero =>
    cases h
    exact ⟨[], (List.append_nil _).symm, .same rfl rfl rfl⟩
  | succ k ih =>
    obtain ⟨⟨st₁, go⟩, h₁, h⟩ := Option.bind_eq_some_iff.mp h
    obtain ⟨l₁, hl₁, ht₁⟩ := commitOne_regs hex h₁
    cases go with
    | false =>
      cases h
      exact ⟨l₁, hl₁.retired, ht₁⟩
    | true =>
      obtain ⟨l₂, hl₂, ht₂⟩ := ih (hl₁.goes rfl) h
      exact ⟨l₁ ++ l₂, by rw [hl₂, hl₁.retired, List.append_assoc], ht₁.trans ht₂⟩

/-- **What commit does to the registers in a cycle.** -/
inductive CommitRegs (cur new : Core) (st : CommitState) : Prop where
  | stepped : st.feedback.flush = false →
      st.new.phyRegfile = new.phyRegfile.releaseAll st.retired → CommitRegs cur new st
  | restored : st.feedback.flush = true → st.new.Restored → CommitRegs cur new st
  /-- An interrupt waits for an empty ROB, flushes, and leaves the registers alone. -/
  | interrupted : st.feedback.flush = true → Fifo.customerIsEmpty cur.rob new.rob = true →
      st.new.retireRat = new.retireRat → st.new.phyRegfile = new.phyRegfile →
      CommitRegs cur new st

/-- The input part of commit writes the ROB only. -/
theorem foldl_commitInput_regs (cur : Core) (ports : List ExecuteWbPack) (s : Core) :
    (ports.foldl (commitInput cur) s).phyRegfile = s.phyRegfile
      ∧ (ports.foldl (commitInput cur) s).retireRat = s.retireRat := by
  induction ports generalizing s with
  | nil => exact ⟨rfl, rfl⟩
  | cons rev ports ih =>
    have hone : (commitInput cur s rev).phyRegfile = s.phyRegfile
        ∧ (commitInput cur s rev).retireRat = s.retireRat := by
      unfold commitInput
      split <;> exact ⟨rfl, rfl⟩
    obtain ⟨hregs, hrat⟩ := ih (commitInput cur s rev)
    exact ⟨hregs.trans hone.1, hrat.trans hone.2⟩

theorem commitRun_regs {new : Core} {inp : CommitInput} (h : commitRun cur new inp = some st') :
    CommitRegs cur new st' ∧ ∀ p, st'.new.retireRat.phyMapTableValid p = true →
      new.retireRat.phyMapTableValid p = true
        ∨ ∃ e ∈ st'.retired, e.2.oldPhyRegIdValid = true ∧ e.2.newPhyRegId = p := by
  unfold commitRun at h
  dsimp only at h
  rcases commitInterrupt_cases cur new inp with ⟨w, hint⟩ | ⟨he, hw, hfl, -⟩
  · rw [hint] at h
    split at h
    · cases h
      exact ⟨.stepped rfl rfl, fun _ hp => .inl hp⟩
    · rw [Option.bind_eq_bind, Option.bind_eq_some_iff] at h
      obtain ⟨st₁, hloop, h⟩ := h
      obtain ⟨l, hl, ht⟩ := commitLoop_regs rfl hloop
      have hin : st'.new.phyRegfile = st₁.new.phyRegfile ∧ st'.new.retireRat = st₁.new.retireRat
          ∧ st'.feedback = st₁.feedback ∧ st'.retired = l := by
        rw [show l = st₁.retired from hl.symm]
        split at h
        · cases h
          exact ⟨rfl, rfl, rfl, rfl⟩
        · cases h
          obtain ⟨hregs, hrat⟩ := foldl_commitInput_regs cur inp.executeCommitPort st₁.new
          exact ⟨hregs, hrat, rfl, rfl⟩
      obtain ⟨hregs, hrat, hfb, hret⟩ := hin
      refine ⟨?_, fun p hp => ?_⟩
      · rcases ht.regs with ⟨-, hfl, hres⟩ | ⟨hfl, hrel⟩
        · refine .restored (by rw [hfb]; exact hfl) fun p => ?_
          rw [hregs, hrat]
          exact hres p
        · exact .stepped (by rw [hfb]; exact hfl) (by rw [hregs, hret]; exact hrel)
      · rw [hrat] at hp
        rw [hret]
        exact ht.homes p hp
  · have hfront : Fifo.customerGetFrontId cur.rob (commitInterrupt cur new inp).new.rob = none := by
      rw [front_none, Fifo.customerIsEmpty, hw.rob]
      exact he
    rw [hfront] at h
    cases h
    refine ⟨.interrupted hfl he hw.retireRat ?_, fun p hp => .inl (hw.retireRat ▸ hp)⟩
    unfold commitInterrupt
    split
    · rfl
    · split <;> rfl

end Commit

/-! ## Write-back -/

/-- Write-back writes the result `rev`: no flush squashes it, and it has a register to write. -/
def wbTakes (bru sau : FlushFeedback) (rev : ExecuteWbPack) : Bool :=
  !bru.squashes rev.robId && !sau.squashesEqual rev.robId
    && (rev.enable && rev.valid && !rev.hasException && rev.needRename)

/-- The results write-back writes in a cycle. -/
def wbWritten (bru sau : FlushFeedback) (commitFlush : Bool) (ports : List ExecuteWbPack) :
    List ExecuteWbPack :=
  if commitFlush then [] else ports.filter (wbTakes bru sau)

/-- **A register holds what it held before write-back, or one of the results written.** -/
theorem wbRun_regs (s : Core) (bru sau : FlushFeedback) (commitFlush : Bool)
    (ports : List ExecuteWbPack) (p : Nat) :
    ((wbRun s bru sau commitFlush ports).phyRegfile p = s.phyRegfile p
      ∧ ∀ rev ∈ wbWritten bru sau commitFlush ports, rev.rdPhy ≠ p) ∨
    ∃ rev ∈ wbWritten bru sau commitFlush ports, rev.rdPhy = p
      ∧ (wbRun s bru sau commitFlush ports).phyRegfile p = ⟨rev.rdValue, true, rev.robId, false⟩ := by
  unfold wbRun wbWritten
  cases commitFlush with
  | true => exact .inl ⟨rfl, by simp⟩
  | false =>
    simp only [Bool.false_eq_true, if_false]
    induction ports using List.reverseRecOn with
    | nil => exact .inl ⟨rfl, by simp⟩
    | append_singleton ports rev ih =>
      rw [List.foldl_append, List.foldl_cons, List.foldl_nil, List.filter_append]
      have hskip : wbTakes bru sau rev = false →
          ports.filter (wbTakes bru sau) ++ [rev].filter (wbTakes bru sau)
            = ports.filter (wbTakes bru sau) := fun h => by simp [h]
      cases hb : bru.squashes rev.robId with
      | true =>
        rw [hskip (by simp [wbTakes, hb])]
        simpa using ih
      | false =>
        cases hs : sau.squashesEqual rev.robId with
        | true =>
          rw [hskip (by simp [wbTakes, hs])]
          simpa using ih
        | false =>
          cases hw : rev.enable && rev.valid && !rev.hasException && rev.needRename with
          | false =>
            rw [hskip (by simp [wbTakes, hw])]
            simpa using ih
          | true =>
            have htakes : wbTakes bru sau rev = true := by simp [wbTakes, hb, hs, hw]
            simp only [Bool.false_eq_true, if_false, if_true]
            by_cases hp : rev.rdPhy = p
            · refine .inr ⟨rev, List.mem_append_right _ (by simp [htakes]), hp, ?_⟩
              rw [Regfile.write, hp, Function.update_self]
            · rw [Regfile.write, Function.update_of_ne (Ne.symm hp)]
              rcases ih with ⟨hkeep, hno⟩ | ⟨rev', hrev', hp', hw'⟩
              · refine .inl ⟨hkeep, fun rev' hrev' => ?_⟩
                rcases List.mem_append.mp hrev' with h | h
                · exact hno rev' h
                · rw [List.mem_singleton.mp (List.mem_of_mem_filter h)]
                  exact hp
              · exact .inr ⟨rev', List.mem_append_left _ hrev', hp', hw'⟩

/-! ## The units -/

/-- **Between two snapshots registers have been invalidated**, and nothing else was done to the
register file and the retired table. -/
structure Core.Clears (s s' : Core) : Prop where
  retireRat : s'.retireRat = s.retireRat
  regs : ∀ p, (s'.phyRegfile p).dataValid = true → s'.phyRegfile p = s.phyRegfile p

namespace Core.Clears

variable {s s' s'' : Core}

theorem of_eq (h₁ : s'.retireRat = s.retireRat) (h₂ : s'.phyRegfile = s.phyRegfile) :
    s.Clears s' :=
  ⟨h₁, fun _ _ => by rw [h₂]⟩

theorem trans (h : s.Clears s') (h' : s'.Clears s'') : s.Clears s'' := by
  refine ⟨h'.retireRat.trans h.retireRat, fun p hp => ?_⟩
  have hp' := h'.regs p hp
  rw [hp']
  exact h.regs p (hp' ▸ hp)

end Core.Clears

/-- An instruction younger than `id` has written the register, and its result is still marked as
that of an instruction in flight. -/
def PhyReg.youngerThan (reg : PhyReg) (id : Ptr) : Bool :=
  reg.dataValid && !reg.oldest && reg.robId.younger id

variable {cur s s' : Core} {inp : CycleInput} {bru sau : FlushFeedback} {flush : Bool}

/-- **The recovery of the branch unit** clears what younger instructions have written. -/
theorem bruRecover_regs {send : ExecuteWbPack} (h : bruRecover cur s send = some s') :
    s.Clears s' ∧ ∀ p, (s'.phyRegfile p).dataValid = true →
      (cur.phyRegfile p).youngerThan send.robId = false := by
  simp only [bruRecover, Option.bind_eq_bind, Option.bind_eq_some_iff] at h
  obtain ⟨robWptr, -, freeList, -, h⟩ := h
  cases h
  refine ⟨⟨rfl, fun p hp => ?_⟩, fun p hp => ?_⟩
  · dsimp only [Regfile.restoreAge] at hp ⊢
    split at hp
    · cases hp
    · rename_i hno
      rw [if_neg hno]
  · dsimp only [Regfile.restoreAge] at hp
    split at hp
    · cases hp
    · rename_i hno
      exact Bool.not_eq_true _ ▸ hno

theorem sauWrite_regs (rev : ReadregExecutePack) :
    (sauWrite cur s rev).retireRat = s.retireRat
      ∧ (sauWrite cur s rev).phyRegfile = s.phyRegfile := by
  unfold sauWrite
  split
  · dsimp only
    split <;> exact ⟨rfl, rfl⟩
  · exact ⟨rfl, rfl⟩

theorem sauRun_regs {rev : ReadregExecutePack} (h : sauRun cur s rev = some s') : s.Clears s' := by
  have hwrite : s.Clears (sauWrite cur s rev) := .of_eq (sauWrite_regs rev).1 (sauWrite_regs rev).2
  unfold sauRun at h
  dsimp only at h
  split at h
  · split at h
    · split at h
      · simp only [sauRecover, Option.bind_eq_bind, Option.bind_eq_some_iff] at h
        obtain ⟨freeList, -, h⟩ := h
        cases h
        refine hwrite.trans ⟨rfl, fun p hp => ?_⟩
        dsimp only [Regfile.restoreEqual] at hp ⊢
        split at hp
        · cases hp
        · rename_i hno
          rw [if_neg hno]
      · cases h
        exact hwrite
    · cases h
      exact hwrite
  · cases h
    exact hwrite

/-- **The units clear valid bits, and set none.** A flush of the branch unit clears those of the
instructions it squashes. -/
theorem executeRun_regs (hsau : sau.flush = false)
    (h : executeRun cur s inp bru sau flush = some s') :
    s.Clears s' ∧ (flush = false → (inp.bruFb cur).flush = true →
      ∀ p, (s'.phyRegfile p).dataValid = true →
        (cur.phyRegfile p).youngerThan (inp.bruFb cur).robId = false) := by
  simp only [executeRun, Option.bind_eq_bind, Option.bind_eq_some_iff] at h
  obtain ⟨s₁, h₁, s₂, h₂, h₃⟩ := h
  have hbru : s.Clears s₁ ∧ (flush = false → (inp.bruFb cur).flush = true →
      ∀ p, (s₁.phyRegfile p).dataValid = true →
        (cur.phyRegfile p).youngerThan (inp.bruFb cur).robId = false) := by
    unfold bruTurn at h₁
    split at h₁
    · rename_i rev hrev
      have hfb : inp.bruFb cur = bruFeedback (bruCompute cur.csrFile rev) := by
        simp [CycleInput.bruFb, hrev]
      have hsq : sau.squashesEqual rev.robId = false := by simp [FlushFeedback.squashesEqual, hsau]
      simp only [bruRun, hsq, Bool.false_eq_true, if_false] at h₁
      rw [hfb]
      split at h₁
      · obtain ⟨hclears, hall⟩ := bruRecover_regs h₁
        exact ⟨hclears, fun _ _ => hall⟩
      · rename_i hno
        cases h₁
        exact ⟨.of_eq rfl rfl, fun _ hfl => absurd hfl hno⟩
    · rename_i hno
      cases h₁
      refine ⟨.of_eq rfl rfl, fun hf hfl => ?_⟩
      cases hrev : inp.bru with
      | none => simp [CycleInput.bruFb, hrev] at hfl
      | some rev => exact absurd hrev (hno rev hf)
  have hlu : s₁.Clears (luTurn cur s₁ inp bru sau flush) := by
    unfold luTurn
    dsimp only
    cases inp.luReplay <;> dsimp only <;> split
    all_goals first
      | exact .of_eq rfl rfl
      | (split
         · exact .of_eq rfl rfl
         · unfold luAccept
           split <;> exact .of_eq rfl rfl)
  have hsauT : (luTurn cur s₁ inp bru sau flush).Clears s₂ := by
    unfold sauTurn at h₂
    split at h₂
    · split at h₂
      · cases h₂
        exact .of_eq rfl rfl
      · exact sauRun_regs h₂
    · cases h₂
      exact .of_eq rfl rfl
  have hsdu : s₂.Clears s' := by
    unfold sduTurn at h₃
    split at h₃
    · split at h₃
      · cases h₃
        exact .of_eq rfl rfl
      · unfold sduRun at h₃
        split at h₃
        · simp only [Option.bind_eq_bind, Option.bind_eq_some_iff] at h₃
          obtain ⟨_, -, _, -, h₃⟩ := h₃
          cases h₃
          exact .of_eq rfl rfl
        · cases h₃
          exact .of_eq rfl rfl
    · cases h₃
      exact .of_eq rfl rfl
  have hrest := (hlu.trans hsauT).trans hsdu
  refine ⟨hbru.1.trans hrest, fun hf hfl p hp => hbru.2 hf hfl p ?_⟩
  rw [← hrest.regs p hp]
  exact hp

/-! ## Rename -/

theorem renameOp_regs {rev : DecodeRenamePack} {info : OpInfo}
    (h : renameOp cur s rev = some (info, s')) :
    s'.retireRat = s.retireRat ∧ s'.phyRegfile = s.phyRegfile := by
  unfold renameOp at h
  split at h
  · cases h
    exact ⟨rfl, rfl⟩
  simp only [Option.bind_eq_bind, Option.bind_eq_some_iff] at h
  obtain ⟨rs1Phy, -, rs2Phy, -, ⟨oldPhyRegId, rdPhy, m⟩, hd, q, hp, hm⟩ := h
  have hdest : m.retireRat = s.retireRat ∧ m.phyRegfile = s.phyRegfile := by
    unfold renameDest at hd
    split at hd
    · simp only [renameRd, Option.bind_eq_bind, Option.bind_eq_some_iff] at hd
      obtain ⟨_, -, _, -, _, -, _, -, _, -, hd⟩ := hd
      cases hd
      exact ⟨rfl, rfl⟩
    · cases hd
      exact ⟨rfl, rfl⟩
  have hpush : q.retireRat = m.retireRat ∧ q.phyRegfile = m.phyRegfile := by
    simp only [renamePush, Option.bind_eq_bind, Option.bind_eq_some_iff] at hp
    obtain ⟨-, -, qd, hq, rob, -, hp⟩ := hp
    cases hp
    unfold renameQueue at hq
    split at hq
    · split at hq
      · simp only [Option.bind_eq_bind, Option.bind_eq_some_iff] at hq
        obtain ⟨_, -, hq⟩ := hq
        cases hq
        exact ⟨rfl, rfl⟩
      · split at hq
        · simp only [Option.bind_eq_bind, Option.bind_eq_some_iff] at hq
          obtain ⟨_, -, _, -, hq⟩ := hq
          cases hq
          exact ⟨rfl, rfl⟩
        · cases hq
          exact ⟨rfl, rfl⟩
    · cases hq
      exact ⟨rfl, rfl⟩
  have hmark : s'.retireRat = q.retireRat ∧ s'.phyRegfile = q.phyRegfile := by
    unfold renameMark at hm
    split at hm
    · simp only [Option.bind_eq_bind, Option.bind_eq_some_iff] at hm
      obtain ⟨_, -, _, -, hm⟩ := hm
      cases hm
      exact ⟨rfl, rfl⟩
    · cases hm
      exact ⟨rfl, rfl⟩
  exact ⟨hmark.1.trans (hpush.1.trans hdest.1), hmark.2.trans (hpush.2.trans hdest.2)⟩

/-- **Rename leaves the register file and the retired table alone.** -/
theorem RenameTurns.regs {i : Nat} {fence : Bool} {fifo : List DecodeRenamePack}
    {turns : List (OpInfo × Core)} (h : RenameTurns cur i fence s fifo turns s') :
    s'.retireRat = s.retireRat ∧ s'.phyRegfile = s.phyRegfile := by
  induction h with
  | stop => exact ⟨rfl, rfl⟩
  | turn _ ho _ _ ih =>
    obtain ⟨hrat, hregs⟩ := renameOp_regs ho
    exact ⟨ih.1.trans hrat, ih.2.trans hregs⟩

/-! ## The cycle -/

/-- The results write-back writes in a cycle that comes to `r`. -/
def CycleInput.written (inp : CycleInput) (cur : Core) (r : CycleResult) : List ExecuteWbPack :=
  wbWritten (inp.bruFb cur) (inp.sauFb cur) r.commit.feedback.flush
    (inp.commit.executeCommitPort.take 8)

/-- **A register that is valid after a cycle** was written in it, or was valid before; then commit
has done to it what the retirements do, and no flush squashes the instruction that wrote it. -/
structure RegStep (cur : Core) (inp : CycleInput) (r : CycleResult) (p : Nat) : Prop where
  source : (∃ rev ∈ inp.written cur r, rev.rdPhy = p
      ∧ r.next.phyRegfile p = ⟨rev.rdValue, true, rev.robId, false⟩) ∨
    r.next.phyRegfile p = cur.phyRegfile.releaseAll r.commit.retired p
  squashed : r.bru.flush = true → (cur.phyRegfile p).youngerThan r.bru.robId = false

/-- **What a cycle does to the register file.** -/
inductive CycleRegs (w : World) (inp : CycleInput) (r : CycleResult) : Prop where
  | stepped : r.commit.feedback.flush = false →
      (∀ p, (r.next.phyRegfile p).dataValid = true → RegStep w.core inp r p) → CycleRegs w inp r
  | restored : r.commit.feedback.flush = true →
      (∀ p, (r.next.phyRegfile p).dataValid = true →
        r.next.retireRat.phyMapTableValid p = true) → CycleRegs w inp r
  | interrupted : r.commit.feedback.flush = true → w.flight = [] →
      r.next.retireRat = w.core.retireRat → (∀ p, (r.next.phyRegfile p).dataValid = true →
        r.next.phyRegfile p = w.core.phyRegfile p) → CycleRegs w inp r

theorem early_regs (cur : Core) (inp : CycleInput) :
    (inp.early cur).retireRat = cur.retireRat ∧ (inp.early cur).phyRegfile = cur.phyRegfile := by
  unfold CycleInput.early
  cases inp.sau with
  | none => exact ⟨rfl, rfl⟩
  | some rev => exact sauWrite_regs rev

/-- The retired table after a cycle is the one commit leaves. -/
theorem cycle_retireRat {w : World} {g : Ghost} {r : CycleResult} (hw : w.Holds g)
    (h : w.core.cycle inp = some r) : r.next.retireRat = r.commit.new.retireRat := by
  have hstages := Core.cycle_eq_some h
  obtain ⟨s, hexec, hren⟩ := hstages.execute
  obtain ⟨hclears, -⟩ := executeRun_regs (hstages.feedbacks hw).1 hexec
  rw [hstages.next]
  exact (renameRun_turns hren).regs.1.trans
    (hclears.retireRat.trans (wbRun_sameWindow ..).retireRat)

/-- **Every cycle does one of the three to the register file**, and the retired table only grows by
the new registers of what retires. -/
theorem cycle_regs {w : World} {g : Ghost} {r : CycleResult} (hw : w.Holds g)
    (h : w.core.cycle inp = some r) :
    CycleRegs w inp r ∧ ∀ p, r.next.retireRat.phyMapTableValid p = true →
      w.core.retireRat.phyMapTableValid p = true
        ∨ ∃ e ∈ r.commit.retired, e.2.oldPhyRegIdValid = true ∧ e.2.newPhyRegId = p := by
  have hstages := Core.cycle_eq_some h
  obtain ⟨s, hexec, hren⟩ := hstages.execute
  obtain ⟨hsau, hbru⟩ := hstages.feedbacks hw
  obtain ⟨hearlyRat, hearly⟩ := early_regs w.core inp
  obtain ⟨hcommit, hhomes⟩ := commitRun_regs hstages.commit
  obtain ⟨hclears, hcut⟩ := executeRun_regs hsau hexec
  have hturns := (renameRun_turns hren).regs
  have hwb := fun p => wbRun_regs r.commit.new (inp.bruFb w.core) (inp.sauFb w.core)
    r.commit.feedback.flush (inp.commit.executeCommitPort.take 8) p
  have hrat := cycle_retireRat hw h
  have hregs : r.next.phyRegfile = s.phyRegfile := by
    rw [hstages.next]
    exact hturns.2
  -- what is valid at the end is as write-back left it
  have hlast : ∀ p, (r.next.phyRegfile p).dataValid = true → r.next.phyRegfile p
      = (wbRun r.commit.new (inp.bruFb w.core) (inp.sauFb w.core) r.commit.feedback.flush
        (inp.commit.executeCommitPort.take 8)).phyRegfile p := by
    intro p hp
    rw [hregs] at hp ⊢
    exact hclears.regs p hp
  have hquiet : r.commit.feedback.flush = true → ∀ p, (r.next.phyRegfile p).dataValid = true →
      r.next.phyRegfile p = r.commit.new.phyRegfile p := by
    intro hfl p hp
    rw [hlast p hp]
    rcases hwb p with ⟨hkeep, -⟩ | ⟨rev, hrev, -⟩
    · exact hkeep
    · rw [wbWritten, hfl] at hrev
      cases hrev
  refine ⟨?_, fun p hp => ?_⟩
  · cases hcommit with
    | stepped hfl hrel =>
      rw [hearly] at hrel
      refine .stepped hfl fun p hp => ⟨?_, fun hb => ?_⟩
      · rw [hlast p hp, ← hrel]
        rcases hwb p with ⟨hkeep, -⟩ | hwritten
        · exact .inr hkeep
        · exact .inl hwritten
      · rw [hbru, hfl, if_neg Bool.false_ne_true] at hb ⊢
        rw [hregs] at hp
        exact hcut hfl hb p hp
    | restored hfl hres =>
      refine .restored hfl fun p hp => ?_
      rw [hrat, ← hres p, ← hquiet hfl p hp]
      exact hp
    | interrupted hfl he hsame hkeep =>
      have hnil := hw.inv.flight_nil (early_sameWindow w.core inp) he
      rw [hw.flight] at hnil
      refine .interrupted hfl hnil ((hrat.trans hsame).trans hearlyRat) fun p hp => ?_
      rw [hquiet hfl p hp, hkeep, hearly]
  · rw [hrat] at hp
    rcases hhomes p hp with hp | hp
    · exact .inl (hearlyRat ▸ hp)
    · exact .inr hp

end DreamCore
