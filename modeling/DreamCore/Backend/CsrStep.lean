import DreamCore.Backend.RobStep

/-!
# The CSRs in a cycle

Of the stages only commit writes the CSRs. What the branch unit reads of them in a
cycle is what the last instruction commit has let through has left there.
-/

namespace DreamCore

variable {cur s s' : Core} {rev : DecodeRenamePack} {info : OpInfo}

theorem sauWrite_csrFile (rev : ReadregExecutePack) : (sauWrite cur s rev).csrFile = s.csrFile := by
  unfold sauWrite
  split
  · dsimp only
    split <;> rfl
  · rfl

/-- **No unit writes the CSRs.** -/
theorem executeRun_csrFile {inp : CycleInput} {bru sau : FlushFeedback} {flush : Bool}
    (h : executeRun cur s inp bru sau flush = some s') : s'.csrFile = s.csrFile := by
  simp only [executeRun, Option.bind_eq_bind, Option.bind_eq_some_iff] at h
  obtain ⟨s₁, h₁, s₂, h₂, h₃⟩ := h
  have hbru : s₁.csrFile = s.csrFile := by
    unfold bruTurn at h₁
    split at h₁
    · unfold bruRun at h₁
      split at h₁
      · cases h₁; rfl
      · dsimp only at h₁
        split at h₁
        · simp only [bruRecover, Option.bind_eq_bind, Option.bind_eq_some_iff] at h₁
          obtain ⟨_, -, _, -, h₁⟩ := h₁
          cases h₁
          rfl
        · cases h₁; rfl
    · cases h₁; rfl
  have hlu : (luTurn cur s₁ inp bru sau flush).csrFile = s₁.csrFile := by
    unfold luTurn
    dsimp only
    cases inp.luReplay <;> dsimp only <;> split
    all_goals first
      | rfl
      | (split
         · rfl
         · unfold luAccept
           split <;> rfl)
  have hsau : s₂.csrFile = s₁.csrFile := by
    rw [← hlu]
    unfold sauTurn at h₂
    split at h₂
    · split at h₂
      · cases h₂; rfl
      · unfold sauRun at h₂
        dsimp only at h₂
        split at h₂
        · split at h₂
          · split at h₂
            · simp only [sauRecover, Option.bind_eq_bind, Option.bind_eq_some_iff] at h₂
              obtain ⟨_, -, h₂⟩ := h₂
              cases h₂
              exact sauWrite_csrFile _
            · cases h₂; exact sauWrite_csrFile _
          · cases h₂; exact sauWrite_csrFile _
        · cases h₂; exact sauWrite_csrFile _
    · cases h₂; rfl
  have hsdu : s'.csrFile = s₂.csrFile := by
    unfold sduTurn at h₃
    split at h₃
    · split at h₃
      · cases h₃; rfl
      · unfold sduRun at h₃
        split at h₃
        · simp only [Option.bind_eq_bind, Option.bind_eq_some_iff] at h₃
          obtain ⟨_, -, _, -, h₃⟩ := h₃
          cases h₃
          rfl
        · cases h₃; rfl
    · cases h₃; rfl
  rw [hsdu, hsau, hbru]

/-! ## Rename -/

theorem renameDest_csrFile {oldPhyRegId rdPhy : Nat}
    (h : renameDest cur s rev = some (oldPhyRegId, rdPhy, s')) : s'.csrFile = s.csrFile := by
  unfold renameDest at h
  split at h
  · simp only [renameRd, Option.bind_eq_bind, Option.bind_eq_some_iff] at h
    obtain ⟨_, -, _, -, _, -, _, -, _, -, h⟩ := h
    cases h
    rfl
  · cases h
    rfl

theorem renamePush_csrFile {before : Core} {oldPhyRegId rdPhy : Nat}
    (h : renamePush cur before s rev oldPhyRegId rdPhy = some s') : s'.csrFile = s.csrFile := by
  simp only [renamePush, Option.bind_eq_bind, Option.bind_eq_some_iff] at h
  obtain ⟨_, -, queued, hq, _, -, h⟩ := h
  cases h
  show queued.csrFile = s.csrFile
  unfold renameQueue at hq
  split at hq
  · split at hq
    · simp only [Option.bind_eq_bind, Option.bind_eq_some_iff] at hq
      obtain ⟨_, -, hq⟩ := hq
      cases hq
      rfl
    · split at hq
      · simp only [Option.bind_eq_bind, Option.bind_eq_some_iff] at hq
        obtain ⟨_, -, _, -, hq⟩ := hq
        cases hq
        rfl
      · cases hq; rfl
  · cases hq; rfl

theorem renameOp_csrFile (h : renameOp cur s rev = some (info, s')) : s'.csrFile = s.csrFile := by
  unfold renameOp at h
  split at h
  · cases h; rfl
  · simp only [Option.bind_eq_bind, Option.bind_eq_some_iff] at h
    obtain ⟨_, -, _, -, ⟨_, _, mapped⟩, hdest, pushed, hpush, hmark⟩ := h
    have hmarked : s'.csrFile = pushed.csrFile := by
      unfold renameMark at hmark
      split at hmark
      · simp only [Option.bind_eq_bind, Option.bind_eq_some_iff] at hmark
        obtain ⟨_, -, _, -, hmark⟩ := hmark
        cases hmark
        rfl
      · cases hmark; rfl
    rw [hmarked, renamePush_csrFile hpush, renameDest_csrFile hdest]

theorem renameLoop_csrFile {n i : Nat} {foundFence : Bool} {fifo : List DecodeRenamePack}
    {turns : List (OpInfo × Core)} (h : renameLoop cur n i foundFence s fifo = some turns) :
    ∀ t ∈ turns, t.2.csrFile = s.csrFile := by
  induction n generalizing i foundFence s fifo turns with
  | zero =>
    cases h
    simp
  | succ n ih =>
    cases fifo with
    | nil =>
      cases h
      simp
    | cons rev fifo =>
      unfold renameLoop at h
      split at h
      · cases h
        simp
      · split at h
        · cases h
          simp
        · rw [Option.bind_eq_bind, Option.bind_eq_some_iff] at h
          obtain ⟨⟨info, s₁⟩, hop, h⟩ := h
          have h₁ := renameOp_csrFile hop
          dsimp only at h
          split at h
          · cases h
            simpa using h₁
          · rw [Option.bind_eq_bind, Option.bind_eq_some_iff] at h
            obtain ⟨rest, hrest, h⟩ := h
            cases h
            intro t ht
            rcases List.mem_cons.mp ht with rfl | ht
            · exact h₁
            · exact (ih hrest t ht).trans h₁

theorem renameRun_csrFile {stall flush waiting : Bool} {fifo : List DecodeRenamePack}
    {r : RenameResult} (h : renameRun cur s stall flush waiting fifo = some r) :
    r.new.csrFile = s.csrFile := by
  unfold renameRun at h
  split at h
  · cases h; rfl
  · split at h
    · cases h; rfl
    · split at h
      · cases h; rfl
      · obtain ⟨turns, hturns, h⟩ := Option.bind_eq_some_iff.mp h
        cases h
        show ((turns.getLast?.map Prod.snd).getD s).csrFile = s.csrFile
        cases hlast : turns.getLast? with
        | none => rfl
        | some t => exact renameLoop_csrFile hturns t (List.mem_of_getLast? hlast)

/-- **No stage but commit writes the CSRs.** -/
theorem cycle_csrFile {inp : CycleInput} {r : CycleResult} (h : cur.cycle inp = some r) :
    r.next.csrFile = r.commit.new.csrFile := by
  have hstages := Core.cycle_eq_some h
  obtain ⟨s, hexec, hren⟩ := hstages.execute
  have hwb : ∀ (new : Core) (bru sau : FlushFeedback) (flush : Bool) (ports : List ExecuteWbPack),
      (wbRun new bru sau flush ports).csrFile = new.csrFile := by
    intro new bru sau flush ports
    unfold wbRun
    split <;> rfl
  rw [hstages.next]
  exact (renameRun_csrFile hren).trans ((executeRun_csrFile hexec).trans (hwb ..))

end DreamCore
