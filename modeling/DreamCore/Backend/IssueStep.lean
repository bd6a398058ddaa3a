import DreamCore.Pipeline.Issue
import Mathlib.Data.List.Perm.Basic

/-!
# What an issue stage does in one cycle

A stage is a set of valid queue entries and a pack it could not place. In one
cycle it loses the entries that issue for good and those a flush squashes, and
takes a prefix of what it is offered; the rest it holds.
-/

namespace DreamCore

open Ring

/-- The instructions of a pack. The other slots are holes. -/
def enabled (ops : List OpInfo) : List OpInfo := ops.filter fun op => op.enable

@[simp] theorem enabled_nil : enabled [] = [] := rfl

theorem enabled_cons (op : OpInfo) (ops : List OpInfo) :
    enabled (op :: ops) = if op.enable then op :: enabled ops else enabled ops := by
  simp [enabled, List.filter_cons]

/-- **Squashing a pack** filters its instructions. -/
theorem enabled_squashPack (squashed : Ptr → Bool) (ops : List OpInfo) :
    enabled (squashPack squashed ops) = (enabled ops).filter fun op => !squashed op.robId := by
  induction ops with
  | nil => rfl
  | cons op ops ih =>
    rw [squashPack, List.map_cons, ← squashPack, enabled_cons, ih, enabled_cons]
    cases hen : op.enable with
    | false => simp [hen]
    | true => cases hsq : squashed op.robId <;> simp [hen, hsq]

theorem squashPack_false {squashed : Ptr → Bool} (h : ∀ p, squashed p = false)
    (ops : List OpInfo) : squashPack squashed ops = ops := by
  simp [squashPack, h]

namespace IssueStage

/-- The pack the stage holds. -/
def held (s : IssueStage) : List OpInfo := if s.busy then enabled s.holdRevPack else []

/-- The instructions in the queue, by slot. -/
def queue (size : Nat) (s : IssueStage) : List OpInfo :=
  ((List.range size).filter s.valid).map s.item

/-- The entry issues for good in a cycle with this choice. -/
def leaves (s : IssueStage) (choice : IssueChoice) (i : Nat) : Bool :=
  (s.issued i || choice.select i) && choice.confirm i

/-- The instructions that leave the queue because they issue. -/
def left (size : Nat) (s : IssueStage) (choice : IssueChoice) : List Ptr :=
  ((List.range size).filter fun i => s.valid i && s.leaves choice i).map fun i => (s.item i).robId

variable {size : Nat} {s cur : IssueStage} {choice : IssueChoice}

/-! ## The output side -/

theorem valid_output {bru sau : FlushFeedback} (hsau : sau.flush = false) (i : Nat) :
    (cur.squash (cur.output choice) bru sau).valid i
      = (cur.valid i && (!cur.leaves choice i && !bru.squashes (cur.item i).robId)) := by
  have hsq : sau.squashesEqual (cur.item i).robId = false := by
    simp [FlushFeedback.squashesEqual, hsau]
  simp only [squash, output, hsq, Bool.or_false, leaves]
  cases cur.valid i <;> simp

/-- **What the output side leaves in the queue.** -/
theorem queue_output (hnd : ((cur.queue size).map OpInfo.robId).Nodup) {bru sau : FlushFeedback}
    (hsau : sau.flush = false) :
    (cur.squash (cur.output choice) bru sau).queue size
      = (cur.queue size).filter fun op =>
          !decide (op.robId ∈ cur.left size choice) && !bru.squashes op.robId := by
  have hinj : ∀ i ∈ (List.range size).filter cur.valid,
      ∀ j ∈ (List.range size).filter cur.valid,
        (cur.item i).robId = (cur.item j).robId → i = j := by
    rw [queue, List.map_map] at hnd
    exact fun i hi j hj he => List.inj_on_of_nodup_map hnd hi hj he
  unfold queue
  rw [List.filter_map, List.filter_filter]
  refine congrArg (List.map cur.item) (List.filter_congr fun i hi => ?_)
  rw [valid_output hsau]
  cases hv : cur.valid i with
  | false => simp
  | true =>
    have hmem : (cur.item i).robId ∈ cur.left size choice ↔ cur.leaves choice i = true := by
      simp only [left, List.mem_map, List.mem_filter, List.mem_range, Bool.and_eq_true]
      constructor
      · rintro ⟨j, ⟨hj, hvj, hlj⟩, he⟩
        rw [← hinj j (by simp [hj, hvj]) i (by simpa [hv] using hi) he]
        exact hlj
      · exact fun hl => ⟨i, ⟨List.mem_range.mp hi, hv, hl⟩, rfl⟩
    have hdec : decide ((cur.item i).robId ∈ cur.left size choice) = cur.leaves choice i := by
      rw [Bool.eq_iff_iff, decide_eq_true_eq, hmem]
    simp [hdec]

/-! ## The input side -/

/-- A free slot is a slot, and free. -/
theorem newId_eq_some {id : Nat} (h : newId size s = some id) : id < size ∧ s.valid id = false := by
  have hmem := List.mem_of_find?_eq_some h
  have hp := List.find?_some h
  exact ⟨List.mem_range.mp hmem, by simpa using hp⟩

/-- **Filling a free slot** adds one instruction to the queue. -/
theorem queue_insert {id : Nat} (hid : id < size) (hfree : s.valid id = false) (op : OpInfo)
    (issued : Nat → Bool) (busy : Bool) (hold : List OpInfo) :
    ((queue size ⟨busy, hold, Function.update s.item id op, Function.update s.valid id true,
      issued⟩)).Perm (s.queue size ++ [op]) := by
  have hmem : id ∈ List.range size := List.mem_range.mpr hid
  have hnd : (List.range size).Nodup := List.nodup_range
  have hperm := List.perm_cons_erase hmem
  have hout : ∀ i ∈ (List.range size).erase id, i ≠ id := by
    rintro i hi rfl
    exact hnd.not_mem_erase hi
  have hnew : (((List.range size).erase id).filter (Function.update s.valid id true)).map
      (Function.update s.item id op)
      = (((List.range size).erase id).filter s.valid).map s.item := by
    have hf : ((List.range size).erase id).filter (Function.update s.valid id true)
        = ((List.range size).erase id).filter s.valid :=
      List.filter_congr fun i hi => by rw [Function.update_of_ne (hout i hi)]
    rw [hf]
    refine List.map_congr_left fun i hi => ?_
    rw [Function.update_of_ne (hout i (List.mem_of_mem_filter hi))]
  have h₁ := (hperm.filter (Function.update s.valid id true)).map (Function.update s.item id op)
  have h₂ := (hperm.filter s.valid).map s.item
  rw [List.filter_cons, Function.update_self, if_pos rfl, List.map_cons, Function.update_self,
    hnew] at h₁
  rw [List.filter_cons, hfree, if_neg Bool.false_ne_true] at h₂
  exact (h₁.trans (h₂.symm.cons op)).trans (List.perm_append_singleton _ _).symm

/-- What the loop pushes before it finds the queue full, in order. -/
def pushed (size : Nat) : List OpInfo → IssueStage → List OpInfo
  | [], _ => []
  | op :: ops, new =>
      if !op.enable then pushed size ops new
      else match newId size new with
        | some id =>
            op :: pushed size ops { new with
              item := Function.update new.item id op
              valid := Function.update new.valid id true
              issued := Function.update new.issued id false }
        | none => []

/-- **The stage takes a prefix of what it is offered**, and holds the rest. -/
theorem pushPack_spec (ops : List OpInfo) (hb : s.busy = false) :
    enabled ops = pushed size ops s ++ (pushPack size ops s).held
      ∧ ((pushPack size ops s).queue size).Perm (s.queue size ++ pushed size ops s) := by
  induction ops generalizing s with
  | nil => exact ⟨by simp [pushPack, pushed, held, hb], by simp [pushPack, pushed]⟩
  | cons op ops ih =>
    unfold pushPack pushed
    cases hen : op.enable with
    | false =>
      simp only [Bool.not_false, if_true]
      rw [enabled_cons, hen, if_neg Bool.false_ne_true]
      exact ih hb
    | true =>
      simp only [Bool.not_true, Bool.false_eq_true, if_false]
      cases hid : newId size s with
      | none => exact ⟨by simp [held], by simp [queue]⟩
      | some id =>
        obtain ⟨hlt, hfree⟩ := newId_eq_some hid
        obtain ⟨ht, hq⟩ := ih (s := { s with
          item := Function.update s.item id op
          valid := Function.update s.valid id true
          issued := Function.update s.issued id false }) hb
        refine ⟨?_, hq.trans ?_⟩
        · rw [enabled_cons, hen, if_pos rfl, ht]
          rfl
        · have hins := queue_insert hlt hfree op (Function.update s.issued id false) s.busy
            s.holdRevPack
          have := hins.append_right (pushed size ops { s with
            item := Function.update s.item id op
            valid := Function.update s.valid id true
            issued := Function.update s.issued id false })
          rwa [List.append_assoc] at this

/-- What the stage is offered in a cycle. -/
def offered (s : IssueStage) (port : List OpInfo) : List OpInfo :=
  if s.busy then s.held else enabled port

/-- What the stage takes into its queue in a cycle that no commit flush hits, in order. -/
def taken (size : Nat) (cur : IssueStage) (choice : IssueChoice) (port : List OpInfo)
    (bru sau : FlushFeedback) : List OpInfo :=
  pushed size
    (squashPack sau.squashesEqual
      (squashPack bru.squashes (if cur.busy then cur.holdRevPack else port)))
    { cur.squash (cur.output choice) bru sau with
      busy := false
      holdRevPack := [] }

/-- **One cycle of an issue stage** that no commit flush hits. -/
theorem run_spec (port : List OpInfo) {bru sau : FlushFeedback} (hsau : sau.flush = false)
    (hnd : ((cur.queue size).map OpInfo.robId).Nodup) :
    (cur.offered port).filter (fun op => !bru.squashes op.robId)
        = cur.taken size choice port bru sau ++ (cur.run size choice port bru sau false).held
      ∧ ((cur.run size choice port bru sau false).queue size).Perm
        ((cur.queue size).filter (fun op =>
          !decide (op.robId ∈ cur.left size choice) && !bru.squashes op.robId)
          ++ cur.taken size choice port bru sau) := by
  have hkeep : ∀ p, sau.squashesEqual p = false := fun p => by
    simp [FlushFeedback.squashesEqual, hsau]
  have hrun : cur.run size choice port bru sau false
      = pushPack size (squashPack bru.squashes (if cur.busy then cur.holdRevPack else port))
          { cur.squash (cur.output choice) bru sau with busy := false, holdRevPack := [] } := by
    simp only [run, Bool.false_eq_true, if_false, runInput, squashPack_false hkeep]
    rfl
  have hoffer : enabled (squashPack bru.squashes (if cur.busy then cur.holdRevPack else port))
      = (cur.offered port).filter fun op => !bru.squashes op.robId := by
    rw [enabled_squashPack, offered, held]
    cases cur.busy <;> rfl
  rw [hrun, ← hoffer, ← queue_output hnd hsau, taken, squashPack_false hkeep]
  exact pushPack_spec _ rfl

/-- After a commit flush the stage is empty. -/
theorem run_flushed (port : List OpInfo) (bru sau : FlushFeedback) :
    (cur.run size choice port bru sau true).held = []
      ∧ (cur.run size choice port bru sau true).queue size = [] := by
  simp [run, flush, held, queue]

end IssueStage

end DreamCore
