import DreamCore.Component.CsrFile
import DreamCore.Component.FreeList
import DreamCore.Component.LoadStoreQueue
import DreamCore.Component.Rat
import DreamCore.Pipeline.Types

/-!
# The shared components of the core

The components that rename, the execution units and commit all reach into. Every
stage takes the snapshot `cur` the cycle began with and the snapshot `new` the
earlier stages of the cycle have left, and returns the next `new`.
-/

namespace DreamCore

open Ring

/-- One snapshot of every shared component. -/
structure Core where
  rob : Fifo robSize RobItem
  committed : Bool
  globalCommitNum : Nat
  speculativeRat : RatTable
  retireRat : RatTable
  phyIdFreeList : FreeList phyRegNum
  phyRegfile : Regfile
  checkpointBuffer : Fifo checkpointBufferSize Checkpoint
  loadQueue : LoadQueue
  storeBuffer : StoreBuffer
  retiredStoreBuffer : RetiredStoreBuffer
  csrFile : CsrFile
  isWaitingAck : Bool

namespace Core

/-- The state `cycle_model::reset` starts from, before it maps any register. -/
def blank : Core where
  rob := { buffer := fun _ => {} }
  committed := false
  globalCommitNum := 0
  speculativeRat := ⟨fun _ => 0, fun _ => false⟩
  retireRat := ⟨fun _ => 0, fun _ => false⟩
  phyIdFreeList := FreeList.reset phyRegNum
  phyRegfile := fun _ => ⟨0, false, ⟨0, false⟩, true⟩
  checkpointBuffer := { buffer := fun _ => ⟨fun _ => false, ⟨0, false⟩, ⟨0, false⟩, ⟨0, false⟩,
    ⟨0, false⟩, ⟨0, false⟩, ⟨0, false⟩⟩ }
  loadQueue := ⟨{ buffer := fun _ => {} }, fun _ => false, fun _ => 0⟩
  storeBuffer := ⟨{ buffer := fun _ => {} }, fun _ => false, fun _ => 0, fun _ => 0⟩
  retiredStoreBuffer := ⟨{ buffer := fun _ => {} }, false⟩
  csrFile := CsrFile.reset
  isWaitingAck := false

/-- One turn of the loop of `cycle_model::reset`, the `sync_all` at its end included:
architectural register `i` gets the next free physical register in both tables. -/
def resetStep (s : Core) (i : Nat) : Option Core := do
  let (phyId, freeList) ← s.phyIdFreeList.pop s.phyIdFreeList
  let phyId ← phyId
  let speculativeRat ← s.speculativeRat.setMap true i phyId
  let retireRat ← s.retireRat.setMap true i phyId
  return { s with
    phyIdFreeList := freeList
    speculativeRat := speculativeRat
    retireRat := retireRat
    phyRegfile := s.phyRegfile.write phyId 0 true ⟨0, false⟩ true }

/-- `cycle_model::reset`. -/
def resetRun : Option Core :=
  (List.range' 1 (archRegNum - 1)).foldlM resetStep blank

/-- The state after `i` turns of the loop: register `a` lives in physical register `a - 1`. -/
def resetTo (i : Nat) : Core :=
  { blank with
    speculativeRat := ⟨fun p => if p < i then p + 1 else 0, fun p => decide (p < i)⟩
    retireRat := ⟨fun p => if p < i then p + 1 else 0, fun p => decide (p < i)⟩
    phyIdFreeList :=
      { ring := { buffer := id, rptr := ⟨i, false⟩, wptr := ⟨0, true⟩ }
        freeListSet := List.range' i (phyRegNum - i) }
    phyRegfile := fun p => ⟨0, decide (p < i), ⟨0, false⟩, true⟩ }

/-- The state after reset, in closed form. -/
def reset : Core := resetTo (archRegNum - 1)

/-- Mapping the next register in a table that holds the first `i`. -/
theorem setMap_resetTo {i : Nat} (hi : i < archRegNum - 1) :
    RatTable.setMap ⟨fun p => if p < i then p + 1 else 0, fun p => decide (p < i)⟩ true (i + 1) i
      = some ⟨fun p => if p < i + 1 then p + 1 else 0, fun p => decide (p < i + 1)⟩ := by
  simp only [archRegNum] at hi
  have hnone : (List.range phyRegNum).filter (RatTable.maps
      ⟨fun p => if p < i then p + 1 else 0, fun p => decide (p < i)⟩ (i + 1)) = [] := by
    rw [List.filter_eq_nil_iff]
    intro p _
    rw [RatTable.maps_iff]
    rintro ⟨hp, hm⟩
    simp only [decide_eq_true_eq] at hp
    simp only [hp, if_true] at hm
    omega
  have hlookup : RatTable.producerGetPhyId
      ⟨fun p => if p < i then p + 1 else 0, fun p => decide (p < i)⟩ (i + 1) = some none := by
    have hreg : 0 < i + 1 ∧ i + 1 < archRegNum := by
      simp only [archRegNum]
      omega
    unfold RatTable.producerGetPhyId
    rw [hnone]
    simp [guard, hreg]
  have hmap : Function.update (fun p => if p < i then p + 1 else 0) i (i + 1)
      = fun p => if p < i + 1 then p + 1 else 0 := by
    funext p
    rcases Nat.lt_trichotomy p i with h | rfl | h
    · rw [Function.update_of_ne (by omega), if_pos h, if_pos (by omega)]
    · rw [Function.update_self, if_pos (by omega)]
    · rw [Function.update_of_ne (by omega), if_neg (by omega), if_neg (by omega)]
  have hvalid : Function.update (fun p => decide (p < i)) i true = fun p => decide (p < i + 1) := by
    funext p
    rcases Nat.lt_trichotomy p i with h | rfl | h
    · rw [Function.update_of_ne (by omega), decide_eq_true h, decide_eq_true (by omega)]
    · rw [Function.update_self, decide_eq_true (by omega)]
    · rw [Function.update_of_ne (by omega), decide_eq_false (by omega), decide_eq_false (by omega)]
  have hi' : i < 128 ∧ 0 < i + 1 ∧ i + 1 < 32 := by omega
  simp [RatTable.setMap, hlookup, hmap, hvalid, guard, phyRegNum, archRegNum, hi']

/-- The pop of one turn of the loop. -/
theorem pop_resetTo {i : Nat} (hi : i < archRegNum - 1) :
    FreeList.pop (resetTo i).phyIdFreeList (resetTo i).phyIdFreeList
      = some (some i, (resetTo (i + 1)).phyIdFreeList) := by
  simp only [archRegNum] at hi
  have hring : Fifo.pop (resetTo i).phyIdFreeList.ring (resetTo i).phyIdFreeList.ring
      = some (i, (resetTo (i + 1)).phyIdFreeList.ring) := by
    have hne : ((⟨0, true⟩ : Ptr) == ⟨i, false⟩) = false := by simp
    have hnext : Ptr.next phyRegNum ⟨i, false⟩ = ⟨i + 1, false⟩ :=
      if_neg (by simp only [phyRegNum]; omega)
    simp only [Fifo.pop, Fifo.customerIsEmpty, resetTo, hne, hnext]
    rfl
  have hset : List.range' i (phyRegNum - i) = i :: List.range' (i + 1) (phyRegNum - (i + 1)) := by
    rw [show phyRegNum - i = phyRegNum - (i + 1) + 1 by simp only [phyRegNum]; omega]
    exact List.range'_succ ..
  have hsize : FreeList.sizeOk (resetTo (i + 1)).phyIdFreeList = true := by
    have hgap : Ptr.gap phyRegNum ⟨i + 1, false⟩ ⟨0, true⟩ = phyRegNum - (i + 1) := by
      have hfull : Ptr.full ⟨i + 1, false⟩ ⟨0, true⟩ = false := by simp [Ptr.full]
      simp only [Ptr.gap, hfull, phyRegNum, Bool.false_eq_true, if_false]
      omega
    simp only [FreeList.sizeOk, Fifo.newGetUsedSpace, resetTo, hgap]
    simp
  have hlt : i < phyRegNum := by
    simp only [phyRegNum]
    omega
  have hmem : i ∈ (resetTo i).phyIdFreeList.freeListSet := by simp [resetTo, hset]
  have herase : (resetTo i).phyIdFreeList.freeListSet.erase i
      = (resetTo (i + 1)).phyIdFreeList.freeListSet := by
    simp [resetTo, hset]
  unfold FreeList.pop
  rw [hring]
  simp [guard, hlt, hmem, herase, hsize]

/-- One turn of the loop. -/
theorem resetStep_resetTo {i : Nat} (hi : i < archRegNum - 1) :
    resetStep (resetTo i) (i + 1) = some (resetTo (i + 1)) := by
  have hrat : ∀ rat, rat = (resetTo i).speculativeRat → rat.setMap true (i + 1) i
      = some (resetTo (i + 1)).speculativeRat := by
    rintro rat rfl
    exact setMap_resetTo hi
  have hregs : (resetTo i).phyRegfile.write i 0 true ⟨0, false⟩ true
      = (resetTo (i + 1)).phyRegfile := by
    funext p
    rcases Nat.lt_trichotomy p i with h | rfl | h
    · have h₁ : p < i + 1 := by omega
      simp only [Regfile.write, resetTo, Function.update_of_ne (Nat.ne_of_lt h), h, h₁]
    · simp [Regfile.write, resetTo]
    · have h₁ : ¬ p < i := by omega
      have h₂ : ¬ p < i + 1 := by omega
      simp only [Regfile.write, resetTo, Function.update_of_ne (Nat.ne_of_gt h), h₁, h₂]
  unfold resetStep
  rw [pop_resetTo hi]
  simp only [Option.bind_eq_bind, Option.bind_some]
  rw [hrat _ rfl, hrat (resetTo i).retireRat rfl, hregs]
  rfl

/-- **The loop of `cycle_model::reset` ends in the closed form.** -/
theorem resetRun_eq : resetRun = some reset := by
  have hstart : blank = resetTo 0 := by
    simp [blank, resetTo, FreeList.reset, List.range_eq_range']
  have hloop : ∀ k, k ≤ archRegNum - 1 →
      (List.range' 1 k).foldlM resetStep blank = some (resetTo k) := by
    intro k hk
    induction k with
    | zero => rw [hstart]; rfl
    | succ k ih =>
      rw [List.range'_concat, List.foldlM_append, ih (Nat.le_of_succ_le hk)]
      simp only [Option.bind_eq_bind, Option.bind_some, List.foldlM_cons, List.foldlM_nil]
      rw [Nat.one_mul, Nat.add_comm 1 k, resetStep_resetTo hk]
      rfl
  exact hloop _ (Nat.le_refl _)

end Core

end DreamCore
