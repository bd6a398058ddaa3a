import DreamCore.Backend.CycleStep
import DreamCore.Backend.DispatchStep

/-!
# The entries of the ROB over one cycle

The window says where every entry is and what rename put into it. What the units
have reported since is in the entries themselves, and one cycle changes that in
two places only: commit merges the results on its ports, and rename writes the
entries it allocates.
-/

namespace DreamCore

open Ring

/-- The entry of an instruction no result has reached yet. -/
structure RobItem.Fresh (item : RobItem) (info : OpInfo) : Prop where
  finish : item.finish = false
  hasException : item.hasException = info.hasException
  exceptionId : item.exceptionId = info.exceptionId
  exceptionValue : item.exceptionValue = info.exceptionValue
  pack : item.branchPredictorInfoPack = {}

variable {cur s s' : Core} {rev : DecodeRenamePack} {info : OpInfo}

/-! ## The units -/

theorem sauWrite_rob (rev : ReadregExecutePack) : (sauWrite cur s rev).rob = s.rob := by
  unfold sauWrite
  split
  · dsimp only
    split <;> rfl
  · rfl

/-- **No unit writes a cell of the ROB.** -/
theorem executeRun_robBuffer {inp : CycleInput} {bru sau : FlushFeedback} {flush : Bool}
    (h : executeRun cur s inp bru sau flush = some s') : s'.rob.buffer = s.rob.buffer := by
  simp only [executeRun, Option.bind_eq_bind, Option.bind_eq_some_iff] at h
  obtain ⟨s₁, h₁, s₂, h₂, h₃⟩ := h
  have hbru : s₁.rob.buffer = s.rob.buffer := by
    unfold bruTurn at h₁
    split at h₁
    · unfold bruRun at h₁
      split at h₁
      · cases h₁; rfl
      · dsimp only at h₁
        split at h₁
        · simp only [bruRecover, Option.bind_eq_bind, Option.bind_eq_some_iff] at h₁
          obtain ⟨_, -, _, -, h₁⟩ := h₁
          cases h₁
          rfl
        · cases h₁; rfl
    · cases h₁; rfl
  have hlu : (luTurn cur s₁ inp bru sau flush).rob = s₁.rob := by
    unfold luTurn
    dsimp only
    cases inp.luReplay <;> dsimp only <;> split
    all_goals first
      | rfl
      | (split
         · rfl
         · unfold luAccept
           split <;> rfl)
  have hsau : s₂.rob.buffer = s₁.rob.buffer := by
    rw [← hlu]
    unfold sauTurn at h₂
    split at h₂
    · split at h₂
      · cases h₂; rfl
      · unfold sauRun at h₂
        dsimp only at h₂
        split at h₂
        · split at h₂
          · split at h₂
            · simp only [sauRecover, Option.bind_eq_bind, Option.bind_eq_some_iff] at h₂
              obtain ⟨_, -, h₂⟩ := h₂
              cases h₂
              rw [Fifo.updateWptr_buffer, sauWrite_rob]
            · cases h₂; exact congrArg Fifo.buffer (sauWrite_rob _)
          · cases h₂; exact congrArg Fifo.buffer (sauWrite_rob _)
        · cases h₂; exact congrArg Fifo.buffer (sauWrite_rob _)
    · cases h₂; rfl
  have hsdu : s'.rob = s₂.rob := by
    unfold sduTurn at h₃
    split at h₃
    · split at h₃
      · cases h₃; rfl
      · unfold sduRun at h₃
        split at h₃
        · simp only [Option.bind_eq_bind, Option.bind_eq_some_iff] at h₃
          obtain ⟨_, -, _, -, h₃⟩ := h₃
          cases h₃
          rfl
        · cases h₃; rfl
    · cases h₃; rfl
  rw [hsdu, hsau, hbru]

/-! ## Rename -/

/-- What a turn of rename sends is the instruction it took, but for the checkpoint. -/
def OpInfo.Sends (info : OpInfo) (rev : DecodeRenamePack) : Prop :=
  info.toDecodeRenamePack = { rev with branchPredictorInfoPack := { rev.branchPredictorInfoPack with
    checkpointIdValid := info.branchPredictorInfoPack.checkpointIdValid
    checkpointId := info.branchPredictorInfoPack.checkpointId } }

theorem renameMark_rob {q : Core} {info' : OpInfo} (h : renameMark cur s q info = some (info', s')) :
    s'.rob = q.rob ∧ info'.robId = info.robId ∧ info'.Sends info.toDecodeRenamePack := by
  unfold renameMark at h
  split at h
  · simp only [Option.bind_eq_bind, Option.bind_eq_some_iff] at h
    obtain ⟨_, -, _, -, h⟩ := h
    cases h
    exact ⟨rfl, rfl, rfl⟩
  · cases h
    exact ⟨rfl, rfl, rfl⟩

/-- **One turn writes the entry of the instruction it renames**, and no other. -/
theorem renameOp_item (hen : rev.enable = true) (h : renameOp cur s rev = some (info, s')) :
    info.Sends rev ∧ ∃ (before after : Core) (oldPhyRegId rdPhy : Nat), s'.rob.buffer
      = Function.update s.rob.buffer info.robId.id
          (renameRobItem before after rev oldPhyRegId rdPhy) := by
  unfold renameOp at h
  rw [hen] at h
  simp only [Bool.not_true, Bool.false_eq_true, if_false, Option.bind_eq_bind,
    Option.bind_eq_some_iff] at h
  obtain ⟨rs1Phy, -, rs2Phy, -, ⟨oldPhyRegId, rdPhy, m⟩, hd, q, hp, hm⟩ := h
  have hmrob : m.rob = s.rob := by
    unfold renameDest at hd
    split at hd
    · simp only [renameRd, Option.bind_eq_bind, Option.bind_eq_some_iff] at hd
      obtain ⟨_, -, _, -, _, -, _, -, _, -, hd⟩ := hd
      cases hd
      rfl
    · cases hd; rfl
  simp only [renamePush, Option.bind_eq_bind, Option.bind_eq_some_iff] at hp
  obtain ⟨-, -, qd, hq, rob, hrob, hp⟩ := hp
  cases hp
  have hqrob : qd.rob = m.rob := by
    unfold renameQueue at hq
    split at hq
    · split at hq
      · simp only [Option.bind_eq_bind, Option.bind_eq_some_iff] at hq
        obtain ⟨_, -, hq⟩ := hq
        cases hq
        rfl
      · split at hq
        · simp only [Option.bind_eq_bind, Option.bind_eq_some_iff] at hq
          obtain ⟨_, -, _, -, hq⟩ := hq
          cases hq
          rfl
        · cases hq; rfl
    · cases hq; rfl
  obtain ⟨-, -, -, hbuf⟩ := Fifo.push_eq_some hrob
  obtain ⟨hrobm, hid, hsend⟩ := renameMark_rob hm
  refine ⟨hsend, s, m, oldPhyRegId, rdPhy, ?_⟩
  rw [hrobm, hid]
  simp only [hbuf, hqrob, hmrob]
  rfl

theorem renameOp_rob (hen : rev.enable = true) (h : renameOp cur s rev = some (info, s')) :
    info.Sends rev ∧ ∃ item : RobItem, item.Fresh info
      ∧ s'.rob.buffer = Function.update s.rob.buffer info.robId.id item := by
  obtain ⟨hsend, before, after, oldPhyRegId, rdPhy, hbuf⟩ := renameOp_item hen h
  refine ⟨hsend, renameRobItem before after rev oldPhyRegId rdPhy, ⟨rfl, ?_, ?_, ?_, rfl⟩, hbuf⟩
  · rw [show info.hasException = rev.hasException from congrArg (·.hasException) hsend]
    rfl
  · rw [show info.exceptionId = rev.exceptionId from congrArg (·.exceptionId) hsend]
    rfl
  · rw [show info.exceptionValue = rev.exceptionValue from congrArg (·.exceptionValue) hsend]
    rfl

theorem OpInfo.Sends.waits (h : info.Sends rev) : info.waits = rev.waits := by
  rw [OpInfo.Sends] at h
  rw [h]
  rfl

/-- What the rules of rename look at. -/
def DecodeRenamePack.kind (rev : DecodeRenamePack) : Bool × Bool × Bool × Bool × Bool :=
  (rev.waits, rev.isFence, rev.opUnit.isLsu, rev.takesLoadQueue, rev.takesStoreBuffer)

theorem OpInfo.Sends.kind (h : info.Sends rev) :
    info.kind = rev.kind := by
  rw [OpInfo.Sends] at h
  rw [h]
  rfl

/-- **What one run of rename does to the cells**, turn by turn. -/
structure RobWrites (s s' : Core) (turns : List (OpInfo × Core)) : Prop where
  kept : ∀ slot, (∀ t ∈ turns, t.1.robId.id ≠ slot) → s'.rob.buffer slot = s.rob.buffer slot
  fresh : (turns.map fun t => t.1.robId.id).Nodup →
    ∀ t ∈ turns, (s'.rob.buffer t.1.robId.id).Fresh t.1
  enable : ∀ t ∈ turns, t.1.enable = true

theorem renameLoop_rob {n i : Nat} {foundFence : Bool} {fifo : List DecodeRenamePack}
    {turns : List (OpInfo × Core)} (hfifo : ∀ p ∈ fifo, p.enable = true)
    (h : renameLoop cur n i foundFence s fifo = some turns) :
    RobWrites s ((turns.getLast?.map Prod.snd).getD s) turns := by
  have hnil : RobWrites s ((([] : List (OpInfo × Core)).getLast?.map Prod.snd).getD s) [] :=
    ⟨fun _ _ => rfl, fun _ => by simp, by simp⟩
  induction n generalizing i foundFence s fifo turns with
  | zero => cases h; exact hnil
  | succ n ih =>
    cases fifo with
    | nil => cases h; exact hnil
    | cons rev fifo =>
      unfold renameLoop at h
      split at h
      · cases h; exact hnil
      · split at h
        · cases h; exact hnil
        · rename_i last fence _
          obtain ⟨⟨info, s₁⟩, ho, h⟩ := Option.bind_eq_some_iff.mp h
          have hen := hfifo rev (List.mem_cons_self ..)
          obtain ⟨hsend, item, hfresh, hbuf⟩ := renameOp_rob hen ho
          have hone : RobWrites s s₁ [(info, s₁)] := by
            refine ⟨fun slot hs => ?_, fun _ t ht => ?_, fun t ht => ?_⟩
            · rw [hbuf, Function.update_of_ne (hs _ (List.mem_singleton_self _)).symm]
            · rw [List.mem_singleton.mp ht]
              simp only [hbuf, Function.update_self]
              exact hfresh
            · rw [List.mem_singleton.mp ht]
              exact (congrArg (·.enable) hsend).trans hen
          cases last with
          | true => cases h; exact hone
          | false =>
            simp only [Bool.false_eq_true, if_false] at h
            obtain ⟨rest, hrest, h⟩ := Option.bind_eq_some_iff.mp h
            cases h
            have hlast : ((((info, s₁) :: rest).getLast?.map Prod.snd).getD s)
                = (rest.getLast?.map Prod.snd).getD s₁ := by
              cases rest with
              | nil => rfl
              | cons t rest =>
                rw [List.getLast?_cons_cons]
                cases hx : (t :: rest).getLast? with
                | none => simp at hx
                | some x => rfl
            rw [hlast]
            have hr := ih (fun p hp => hfifo p (List.mem_cons_of_mem _ hp)) hrest
              ⟨fun _ _ => rfl, fun _ => by simp, by simp⟩
            refine ⟨fun slot hs => ?_, fun hnd t ht => ?_, fun t ht => ?_⟩
            · rw [hr.kept slot fun t ht => hs t (List.mem_cons_of_mem _ ht)]
              exact hone.kept slot fun t ht => hs t (by simp_all)
            · rw [List.map_cons, List.nodup_cons] at hnd
              rcases List.mem_cons.mp ht with rfl | ht
              · have hkept := hr.kept info.robId.id fun t ht he =>
                  hnd.1 (List.mem_map.mpr ⟨t, ht, he⟩)
                simp only [hkept]
                exact hone.fresh (by simp) _ (List.mem_singleton_self _)
              · exact hr.fresh hnd.2 t ht
            · rcases List.mem_cons.mp ht with rfl | ht
              · exact hone.enable _ (List.mem_singleton_self _)
              · exact hr.enable t ht

theorem renameRun_rob {stall flush waiting : Bool} {fifo : List DecodeRenamePack}
    {r : RenameResult} (hfifo : ∀ p ∈ fifo, p.enable = true)
    (h : renameRun cur s stall flush waiting fifo = some r) : RobWrites s r.new r.turns := by
  have hidle : RobWrites s s [] := ⟨fun _ _ => rfl, fun _ => by simp, by simp⟩
  unfold renameRun at h
  split at h
  · cases h; exact hidle
  · split at h
    · cases h; exact hidle
    · split at h
      · cases h; exact hidle
      · obtain ⟨turns, ht, h⟩ := Option.bind_eq_some_iff.mp h
        cases h
        exact renameLoop_rob hfifo ht

/-- **Rename takes from the front of its fifo**, one instruction a turn. -/
theorem renameLoop_sends {n i : Nat} {foundFence : Bool} {fifo : List DecodeRenamePack}
    {turns : List (OpInfo × Core)} (hfifo : ∀ p ∈ fifo, p.enable = true)
    (h : renameLoop cur n i foundFence s fifo = some turns) :
    List.Forall₂ (fun t rev => t.1.Sends rev) turns (fifo.take turns.length) := by
  induction n generalizing i foundFence s fifo turns with
  | zero => cases h; exact .nil
  | succ n ih =>
    cases fifo with
    | nil => cases h; exact .nil
    | cons rev fifo =>
      unfold renameLoop at h
      split at h
      · cases h; exact .nil
      · split at h
        · cases h; exact .nil
        · rename_i last fence _
          obtain ⟨⟨info, s₁⟩, ho, h⟩ := Option.bind_eq_some_iff.mp h
          have hsend := (renameOp_rob (hfifo rev (List.mem_cons_self ..)) ho).1
          cases last with
          | true => cases h; exact .cons hsend .nil
          | false =>
            simp only [Bool.false_eq_true, if_false] at h
            obtain ⟨rest, hrest, h⟩ := Option.bind_eq_some_iff.mp h
            cases h
            exact .cons hsend (ih (fun p hp => hfifo p (List.mem_cons_of_mem _ hp)) hrest)

theorem renameRun_sends {stall flush waiting : Bool} {fifo : List DecodeRenamePack}
    {r : RenameResult} (hfifo : ∀ p ∈ fifo, p.enable = true)
    (h : renameRun cur s stall flush waiting fifo = some r) :
    List.Forall₂ (fun t rev => t.1.Sends rev) r.turns (fifo.take r.turns.length) := by
  unfold renameRun at h
  split at h
  · cases h; exact .nil
  · split at h
    · cases h; exact .nil
    · split at h
      · cases h; exact .nil
      · obtain ⟨turns, ht, h⟩ := Option.bind_eq_some_iff.mp h
        cases h
        exact renameLoop_sends hfifo ht

theorem mem_left_of_forall₂ {α β : Type} {R : α → β → Prop} {l : List α} {l' : List β}
    (h : List.Forall₂ R l l') {a : α} (ha : a ∈ l) : ∃ b ∈ l', R a b := by
  induction h with
  | nil => cases ha
  | cons hab _ ih =>
    rcases List.mem_cons.mp ha with rfl | ha
    · exact ⟨_, List.mem_cons_self .., hab⟩
    · obtain ⟨b, hb, hR⟩ := ih ha
      exact ⟨b, List.mem_cons_of_mem _ hb, hR⟩

/-- What rename leaves on the port, apart from the instructions it renamed. -/
theorem renameRun_port {stall flush waiting : Bool} {fifo : List DecodeRenamePack}
    {r : RenameResult} (h : renameRun cur s stall flush waiting fifo = some r) :
    (flush = true → r.port = some [] ∧ r.turns = []) ∧
      (flush = false → stall = true → r.port = none ∧ r.turns = []) ∧
      (flush = false → stall = false → r.port = some (r.turns.map Prod.fst)) := by
  unfold renameRun at h
  split at h
  · rename_i hf
    cases h
    have hno : flush ≠ false := by simp [hf]
    exact ⟨fun _ => ⟨rfl, rfl⟩, fun hc => absurd hc hno, fun hc => absurd hc hno⟩
  · rename_i hf
    refine ⟨fun hc => absurd hc hf, ?_⟩
    split at h
    · rename_i hs
      cases h
      exact ⟨fun _ _ => ⟨rfl, rfl⟩, fun _ hc => absurd hc (by simp [hs])⟩
    · rename_i hs
      refine ⟨fun _ hc => absurd hc hs, fun _ _ => ?_⟩
      split at h
      · cases h; rfl
      · obtain ⟨turns, -, h⟩ := Option.bind_eq_some_iff.mp h
        cases h
        rfl

theorem renameRun_waiting {stall flush : Bool} {fifo : List DecodeRenamePack}
    {r : RenameResult} (h : renameRun cur s stall flush true fifo = some r) : r.turns = [] := by
  unfold renameRun at h
  split at h
  · cases h
    rfl
  · split at h <;> cases h <;> rfl

end DreamCore
