import DreamCore.Backend.RegfileStep

/-!
# What the registers hold

Four stages set and clear the valid bits of `phy_regfile`, but its data has two
writers only: write-back, and commit where it releases a register. A flush takes
back bits and leaves the data where it is, in whatever stage it begins; so what a
register that stays allocated holds is what was last written back to it.

The mark of a register that no instruction in flight owns is set when it becomes a
home, and stays until write-back writes the register for its next owner.
-/

namespace DreamCore

open Ring

/-- **What the retirement of `l` may do to the registers**: those it releases get other data, those
that become homes are marked, and no mark is lost. -/
structure Regfile.Keeps (regs regs' : Regfile) (l : List (Nat × RobItem)) : Prop where
  data : ∀ p, p ∉ releasedIds l → (regs' p).data = (regs p).data
  oldest : ∀ p, (regs p).oldest = true → (regs' p).oldest = true
  home : ∀ e ∈ l, e.2.oldPhyRegIdValid = true → (regs' e.2.newPhyRegId).oldest = true

namespace Regfile

variable {regs regs₁ regs' : Regfile} {l l' : List (Nat × RobItem)}

theorem Keeps.of_eq (h : regs' = regs) : regs.Keeps regs' [] :=
  ⟨fun _ _ => by rw [h], fun _ hp => h ▸ hp, fun e he => by cases he⟩

theorem Keeps.trans (h : regs.Keeps regs₁ l) (h' : regs₁.Keeps regs' l') :
    regs.Keeps regs' (l ++ l') := by
  refine ⟨fun p hp => ?_, fun p hp => h'.oldest p (h.oldest p hp), fun e he hv => ?_⟩
  · rw [releasedIds_append, List.mem_append, not_or] at hp
    exact (h'.data p hp.2).trans (h.data p hp.1)
  · rcases List.mem_append.mp he with he | he
    · exact h'.oldest _ (h.home e he hv)
    · exact h'.home e he hv

theorem keeps_restoreRat (regs : Regfile) (element : RatTable) :
    regs.Keeps (regs.restoreRat element) [] :=
  ⟨fun _ _ => rfl, fun _ hp => hp, fun e he => by cases he⟩

theorem keeps_restoreAge (cur regs : Regfile) (p : Ptr) :
    regs.Keeps (restoreAge cur regs p) [] := by
  refine ⟨fun q _ => ?_, fun q hq => ?_, fun e he => by cases he⟩
  · unfold restoreAge
    split <;> rfl
  · unfold restoreAge
    split
    · rfl
    · exact hq

theorem keeps_restoreEqual (cur regs : Regfile) (p : Ptr) :
    regs.Keeps (restoreEqual cur regs p) [] := by
  refine ⟨fun q _ => ?_, fun q hq => ?_, fun e he => by cases he⟩
  · unfold restoreEqual
    split <;> rfl
  · unfold restoreEqual
    split
    · rfl
    · exact hq

/-- A release writes zero to the register that is given back. -/
theorem keeps_release (regs : Regfile) (id : Nat) (item : RobItem) :
    regs.Keeps (regs.release item) [(id, item)] := by
  cases hv : item.oldPhyRegIdValid with
  | false =>
    have hsame : regs.release item = regs := by
      rw [release, hv, if_neg Bool.false_ne_true]
    rw [hsame]
    refine ⟨fun _ _ => rfl, fun _ hp => hp, fun e he hc => ?_⟩
    rw [List.mem_singleton.mp he, hv] at hc
    cases hc
  | true =>
    have hrelease : regs.release item = (regs.write item.oldPhyRegId 0 false ⟨0, false⟩
        true).writeAgeInformation item.newPhyRegId ⟨0, false⟩ true := by
      rw [release, hv, if_pos rfl]
    have hage : ∀ (regs : Regfile) (a p : Nat),
        (regs.writeAgeInformation a ⟨0, false⟩ true p).data = (regs p).data
          ∧ ((regs p).oldest = true → (regs.writeAgeInformation a ⟨0, false⟩ true p).oldest = true)
          ∧ (p = a → (regs.writeAgeInformation a ⟨0, false⟩ true p).oldest = true) := by
      intro regs a p
      unfold writeAgeInformation
      by_cases hp : p = a
      · rw [hp, Function.update_self]
        exact ⟨rfl, fun _ => rfl, fun _ => rfl⟩
      · rw [Function.update_of_ne hp]
        exact ⟨rfl, fun h => h, fun he => absurd he hp⟩
    rw [hrelease]
    refine ⟨fun p hp => ?_, fun p hp => (hage _ _ p).2.1 ?_, fun e he _ => ?_⟩
    · have hne : p ≠ item.oldPhyRegId := by
        rintro rfl
        simp [releasedIds, hv] at hp
      rw [(hage _ _ p).1, write, Function.update_of_ne hne]
    · unfold write
      by_cases he : p = item.oldPhyRegId
      · rw [he, Function.update_self]
      · rw [Function.update_of_ne he]
        exact hp
    · rw [List.mem_singleton.mp he]
      exact (hage _ _ _).2.2 rfl

theorem keeps_releaseAll (regs : Regfile) (l : List (Nat × RobItem)) :
    regs.Keeps (regs.releaseAll l) l := by
  induction l generalizing regs with
  | nil => exact .of_eq rfl
  | cons e l ih => exact (regs.keeps_release e.1 e.2).trans (ih (regs.release e.2))

end Regfile

/-! ## Commit -/

/-- What a part of commit that retires `l` does to the registers. -/
def CommitState.KeepsData (st st' : CommitState) (l : List (Nat × RobItem)) : Prop :=
  st.new.phyRegfile.Keeps st'.new.phyRegfile l

namespace CommitState.KeepsData

variable {st st₁ st' : CommitState} {l l₁ l₂ : List (Nat × RobItem)}

theorem same (h : st'.new.phyRegfile = st.new.phyRegfile) : st.KeepsData st' [] :=
  .of_eq h

theorem trans (h₁ : st.KeepsData st₁ l₁) (h₂ : st₁.KeepsData st' l₂) :
    st.KeepsData st' (l₁ ++ l₂) :=
  Regfile.Keeps.trans h₁ h₂

end CommitState.KeepsData

section Commit

variable {cur : Core} {st st' : CommitState} {id : Nat} {item : RobItem} {go : Bool}
  {writeAck : Option BusErrno}

theorem flushPipeline_data {s s' : Core} {rptr : Ptr} (h : flushPipeline cur s rptr = some s') :
    s.phyRegfile.Keeps s'.phyRegfile [] := by
  simp only [flushPipeline, Option.bind_eq_bind, Option.bind_eq_some_iff] at h
  obtain ⟨_, -, h⟩ := h
  cases h
  exact s.phyRegfile.keeps_restoreRat _

theorem commitException_data {e : RiscvException} {v : Word}
    (h : commitException cur id item e v st = some st') : st.KeepsData st' [] := by
  simp only [commitException, Option.bind_eq_bind, Option.bind_eq_some_iff] at h
  obtain ⟨s, hs, h⟩ := h
  have hkeep := flushPipeline_data hs
  cases h
  exact hkeep

theorem commitLoad_data (h : commitLoad cur item st = some (st', go)) : st.KeepsData st' [] := by
  unfold commitLoad at h
  split at h
  · cases h
    exact .same rfl
  · split at h
    · simp only [Option.bind_eq_bind, Option.bind_eq_some_iff] at h
      obtain ⟨s, hs, h⟩ := h
      have hkeep := flushPipeline_data hs
      cases h
      exact hkeep
    · cases h
      exact .same rfl

theorem commitStore_data (h : commitStore cur writeAck id item st = some (st', go)) :
    st.KeepsData st' [] := by
  unfold commitStore at h
  split at h
  · cases h
    exact .same rfl
  · simp only [Option.bind_eq_bind, Option.bind_eq_some_iff] at h
    obtain ⟨tItem, -, addr, -, size, -, -, -, h⟩ := h
    split at h
    · split at h
      · cases h
        exact .same rfl
      · split at h
        · obtain ⟨st₁, h₁, h⟩ := Option.bind_eq_some_iff.mp h
          cases h
          have hkeep := commitException_data h₁
          exact hkeep
        · cases h
          exact .same rfl
    · split at h
      · obtain ⟨ring, -, h⟩ := Option.bind_eq_some_iff.mp h
        cases h
        exact .same rfl
      · cases h
        exact .same rfl

theorem commitRetire_data (h : commitRetire cur id item st = some st') :
    st.KeepsData st' [(id, item)] := by
  rcases (commitRetire_regs h).regs with ⟨hc, -⟩ | ⟨-, hrel⟩
  · cases hc
  · rw [CommitState.KeepsData, hrel]
    exact st.new.phyRegfile.keeps_releaseAll _

theorem commitPredicted_data (h : commitPredicted cur item st = some st') :
    st.KeepsData st' [] := by
  simp only [commitPredicted] at h
  split at h
  · cases h
    exact .same rfl
  · split at h
    · cases h
    · split at h
      · cases h
        exact .same rfl
      · simp only [commitMispredict, Option.bind_eq_bind, Option.bind_eq_some_iff] at h
        obtain ⟨s, hs, h⟩ := h
        have hkeep := flushPipeline_data hs
        cases h
        exact hkeep

theorem commitMret_data (cur : Core) (item : RobItem) (st : CommitState) :
    st.KeepsData (commitMret cur item st) [] := by
  unfold commitMret
  split <;> exact .same rfl

theorem commitBranch_data (h : commitBranch cur item st = some (st', go)) :
    st.KeepsData st' [] := by
  have hmret := commitMret_data cur item st
  unfold commitBranch at h
  split at h
  · cases h
    exact .same rfl
  · split at h
    · obtain ⟨st₁, h₁, he⟩ := Option.map_eq_some_iff.mp h
      cases he
      exact hmret.trans (commitPredicted_data h₁)
    · cases h
      exact hmret.trans (.same rfl)

/-- **One turn of the output loop.** -/
theorem commitOne_data {firstId i : Nat} (hex : st.feedback.hasException = false)
    (h : commitOne cur writeAck firstId i st = some (st', go)) :
    ∃ l, st.Logs st' l go ∧ st.KeepsData st' l := by
  unfold commitOne at h
  split at h
  · cases h
    exact ⟨[], .same hex rfl rfl, .same rfl⟩
  rename_i id hid
  dsimp only [Fifo.customerGetItem] at h
  split at h
  · cases h
    exact ⟨[], .same hex rfl rfl, .same rfl⟩
  obtain ⟨⟨next, nextValid⟩, -, h⟩ := Option.bind_eq_some_iff.mp h
  unfold commitFinished at h
  split at h
  · obtain ⟨st₁, h₁, heq⟩ := Option.map_eq_some_iff.mp h
    cases heq
    have hl := (commitException_stores (by exact hex) h₁).2
    have hkeep := commitException_data h₁
    exact ⟨[], ⟨hl.retired, hl.goes⟩, hkeep⟩
  obtain ⟨blocked, -, h⟩ := Option.bind_eq_some_iff.mp h
  split at h
  · cases h
    exact ⟨[], .same hex rfl rfl, .same rfl⟩
  rcases andThen_eq_some h with ⟨st₁, h₁, hrest⟩ | ⟨hload, hgo⟩
  · have hl₁ := (commitLoad_stores (by exact hex) h₁).2
    have hk₁ := commitLoad_data h₁
    rcases andThen_eq_some hrest with ⟨st₂, h₂, h₃⟩ | ⟨h₂, hgo⟩
    · have hl₂ := commitStore_logs (hl₁.goes rfl) h₂
      have hl := (hl₁.trans hl₂).trans (retireBranch_stores (hl₂.goes rfl) h₃).2
      obtain ⟨st₃, h₃, h₄⟩ := Option.bind_eq_some_iff.mp h₃
      have hkeep := (hk₁.trans (commitStore_data h₂)).trans
        ((commitRetire_data h₃).trans (commitBranch_data h₄))
      exact ⟨_, ⟨hl.retired, hl.goes⟩, hkeep⟩
    · have hl := hl₁.trans (commitStore_logs (hl₁.goes rfl) h₂)
      have hkeep := hk₁.trans (commitStore_data h₂)
      exact ⟨_, ⟨hl.retired, hl.goes⟩, hkeep⟩
  · have hl := (commitLoad_stores (by exact hex) hload).2
    have hkeep := commitLoad_data hload
    exact ⟨[], ⟨hl.retired, hl.goes⟩, hkeep⟩

theorem commitLoop_data {firstId k i : Nat} (hex : st.feedback.hasException = false)
    (h : commitLoop cur writeAck firstId k i st = some st') :
    ∃ l, st'.retired = st.retired ++ l ∧ st.KeepsData st' l := by
  induction k generalizing i st with
  | zero =>
    cases h
    exact ⟨[], (List.append_nil _).symm, .same rfl⟩
  | succ k ih =>
    obtain ⟨⟨st₁, go⟩, h₁, h⟩ := Option.bind_eq_some_iff.mp h
    obtain ⟨l₁, hl₁, hk₁⟩ := commitOne_data hex h₁
    cases go with
    | false =>
      cases h
      exact ⟨l₁, hl₁.retired, hk₁⟩
    | true =>
      obtain ⟨l₂, hl₂, hk₂⟩ := ih (hl₁.goes rfl) h
      exact ⟨l₁ ++ l₂, by rw [hl₂, hl₁.retired, List.append_assoc], hk₁.trans hk₂⟩

/-- **Commit gives other data only to what it releases**, and a flush to no register. -/
theorem commitRun_data {new : Core} {inp : CommitInput} (h : commitRun cur new inp = some st') :
    new.phyRegfile.Keeps st'.new.phyRegfile st'.retired := by
  unfold commitRun at h
  dsimp only at h
  rcases commitInterrupt_cases cur new inp with ⟨w, hint⟩ | ⟨he, hw, hfl, hret⟩
  · rw [hint] at h
    split at h
    · cases h
      exact .of_eq rfl
    · rw [Option.bind_eq_bind, Option.bind_eq_some_iff] at h
      obtain ⟨st₁, hloop, h⟩ := h
      obtain ⟨l, hl, hkeep⟩ := commitLoop_data rfl hloop
      have hin : st'.new.phyRegfile = st₁.new.phyRegfile ∧ st'.retired = l := by
        rw [show l = st₁.retired from hl.symm]
        split at h
        · cases h
          exact ⟨rfl, rfl⟩
        · cases h
          exact ⟨(foldl_commitInput_regs cur inp.executeCommitPort st₁.new).1, rfl⟩
      rw [hin.1, hin.2]
      exact hkeep
  · have hfront : Fifo.customerGetFrontId cur.rob (commitInterrupt cur new inp).new.rob = none := by
      rw [front_none, Fifo.customerIsEmpty, hw.rob]
      exact he
    rw [hfront] at h
    cases h
    rw [hret]
    refine .of_eq ?_
    unfold commitInterrupt
    split
    · rfl
    · split <;> rfl

end Commit

/-! ## The cycle -/

section Cycle

variable {cur s s' : Core} {inp : CycleInput} {bru sau : FlushFeedback} {flush : Bool}

theorem bruRecover_data {send : ExecuteWbPack} (h : bruRecover cur s send = some s') :
    s.phyRegfile.Keeps s'.phyRegfile [] := by
  simp only [bruRecover, Option.bind_eq_bind, Option.bind_eq_some_iff] at h
  obtain ⟨robWptr, -, freeList, -, h⟩ := h
  cases h
  exact Regfile.keeps_restoreAge _ _ _

theorem sauRun_data {rev : ReadregExecutePack} (h : sauRun cur s rev = some s') :
    s.phyRegfile.Keeps s'.phyRegfile [] := by
  have hwrite : s.phyRegfile.Keeps (sauWrite cur s rev).phyRegfile [] :=
    .of_eq (sauWrite_regs rev).2
  unfold sauRun at h
  dsimp only at h
  split at h
  · split at h
    · split at h
      · simp only [sauRecover, Option.bind_eq_bind, Option.bind_eq_some_iff] at h
        obtain ⟨freeList, -, h⟩ := h
        cases h
        exact hwrite.trans (Regfile.keeps_restoreEqual _ _ _)
      · cases h
        exact hwrite
    · cases h
      exact hwrite
  · cases h
    exact hwrite

/-- The load unit and the store data unit leave the registers alone. -/
theorem luTurn_regfile (cur : Core) (inp : CycleInput) (bru sau : FlushFeedback) (flush : Bool) :
    (luTurn cur s inp bru sau flush).phyRegfile = s.phyRegfile := by
  unfold luTurn
  dsimp only
  cases inp.luReplay <;> dsimp only <;> split
  all_goals first
    | rfl
    | (split
       · rfl
       · unfold luAccept
         split <;> rfl)

theorem sduTurn_regfile (h : sduTurn cur s inp bru sau flush = some s') :
    s'.phyRegfile = s.phyRegfile := by
  unfold sduTurn at h
  split at h
  · split at h
    · cases h
      rfl
    · unfold sduRun at h
      split at h
      · simp only [Option.bind_eq_bind, Option.bind_eq_some_iff] at h
        obtain ⟨_, -, _, -, h⟩ := h
        cases h
        rfl
      · cases h
        rfl
  · cases h
    rfl

/-- **No unit writes data.** -/
theorem executeRun_data (h : executeRun cur s inp bru sau flush = some s') :
    s.phyRegfile.Keeps s'.phyRegfile [] := by
  simp only [executeRun, Option.bind_eq_bind, Option.bind_eq_some_iff] at h
  obtain ⟨s₁, h₁, s₂, h₂, h₃⟩ := h
  have hbru : s.phyRegfile.Keeps s₁.phyRegfile [] := by
    unfold bruTurn at h₁
    split at h₁
    · unfold bruRun at h₁
      split at h₁
      · cases h₁
        exact .of_eq rfl
      · dsimp only at h₁
        split at h₁
        · exact bruRecover_data h₁
        · cases h₁
          exact .of_eq rfl
    · cases h₁
      exact .of_eq rfl
  have hsau : s₁.phyRegfile.Keeps s₂.phyRegfile [] := by
    rw [← luTurn_regfile cur inp bru sau flush]
    unfold sauTurn at h₂
    split at h₂
    · split at h₂
      · cases h₂
        exact .of_eq rfl
      · exact sauRun_data h₂
    · cases h₂
      exact .of_eq rfl
  rw [sduTurn_regfile h₃]
  exact hbru.trans hsau

/-- What write-back and commit leave is what the cycle leaves, but for what the units take back. -/
theorem cycle_kept {r : CycleResult} (h : cur.cycle inp = some r) :
    cur.phyRegfile.Keeps r.commit.new.phyRegfile r.commit.retired
      ∧ (wbRun r.commit.new (inp.bruFb cur) (inp.sauFb cur) r.commit.feedback.flush
        (inp.commit.executeCommitPort.take 8)).phyRegfile.Keeps r.next.phyRegfile [] := by
  have hstages := Core.cycle_eq_some h
  obtain ⟨s, hexec, hren⟩ := hstages.execute
  refine ⟨?_, ?_⟩
  · rw [← (early_regs cur inp).2]
    exact commitRun_data hstages.commit
  · rw [hstages.next, (renameRun_turns hren).regs.2]
    exact executeRun_data hexec

/-- **The data of a register after a cycle**, unless the cycle releases it: what write-back has
written to it, or what it was. -/
theorem cycle_data {r : CycleResult} (h : cur.cycle inp = some r) {p : Nat}
    (hp : p ∉ releasedIds r.commit.retired) :
    (∃ rev ∈ inp.written cur r, rev.rdPhy = p ∧ (r.next.phyRegfile p).data = rev.rdValue) ∨
      ((∀ rev ∈ inp.written cur r, rev.rdPhy ≠ p)
        ∧ (r.next.phyRegfile p).data = (cur.phyRegfile p).data) := by
  obtain ⟨hcommit, hlast⟩ := cycle_kept h
  rw [hlast.data p List.not_mem_nil, ← hcommit.data p hp]
  rcases wbRun_regs r.commit.new (inp.bruFb cur) (inp.sauFb cur) r.commit.feedback.flush
    (inp.commit.executeCommitPort.take 8) p with ⟨hkeep, hno⟩ | ⟨rev, hrev, hrd, hreg⟩
  · exact .inr ⟨hno, by rw [hkeep]⟩
  · exact .inl ⟨rev, hrev, hrd, by rw [hreg]⟩

end Cycle

end DreamCore
