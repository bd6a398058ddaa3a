import DreamCore.Backend.CommitLoop

/-!
# What commit does in one cycle

The interrupt at the front, the output loop, and the results written into the
ROB at the end, put together: after commit the window has lost a prefix, or it
has been dropped.
-/

namespace DreamCore

open Ring

/-! ## The results -/

/-- **A result leaves the static part of its entry alone.** -/
theorem RobItem.Tracks.applyResult {item : RobItem} {σ : Shadow} {f : Flight}
    (h : item.Tracks σ f) {rev : ExecuteWbPack} (hrev : ResultOf f.info rev) :
    (item.applyResult rev).Tracks σ f where
  newPhyRegId := h.newPhyRegId
  allocates := h.allocates
  oldPhyRegId := h.oldPhyRegId
  oldFree := h.oldFree
  newFree := h.newFree
  loadQueue := h.loadQueue
  storeBuffer := h.storeBuffer
  bruOp := by
    have := hrev.bru
    rw [Bool.eq_iff_iff]
    simp only [RobItem.applyResult, beq_iff_eq]
    exact this
  pack := fun _ => hrev.pack

/-- Only the cells of the ROB differ, and every entry still tracks its instruction. -/
theorem Inv.withRobBuffer {s s' : Core} {g : Ghost} (h : Inv s g) {b : Nat → RobItem}
    (hs : s' = { s with rob := { s.rob with buffer := b } })
    (hb : ∀ l₁ f l₂, g.flight = l₁ ++ f :: l₂ →
      (b ((tip g.base l₁).rob % robSize)).Tracks (tip g.base l₁) f) : Inv s' g := by
  subst hs
  refine ⟨⟨h.rob.rptr, h.rob.wptr, h.rob.le, h.rob.size⟩, h.free, h.nodup, h.bound, h.retire,
    h.spec, h.rewind, h.ck, h.ckHead, h.lq, h.sb, h.lqPlain, h.entries.imp fun l₁ f l₂ hl he => ?_⟩
  exact ⟨he.shaped, he.robId, hb l₁ f l₂ hl, he.dest, he.checkpointId, he.checkpoint,
    ⟨he.recorded.map, he.recorded.before, he.recorded.free, he.recorded.rob, he.recorded.ck,
      he.recorded.lq, he.recorded.sb, he.recorded.checkpoint⟩⟩

/-- One result, on the cells of the ROB. What is written is the result applied to the entry the
cycle began with. -/
def Core.mergeOne (cur : Core) (b : Nat → RobItem) (rev : ExecuteWbPack) : Nat → RobItem :=
  if rev.enable then
    Function.update b rev.robId.id ((cur.rob.buffer rev.robId.id).applyResult rev)
  else b

/-- The cells of the ROB after the results on `ports`. -/
def Core.merged (cur : Core) (ports : List ExecuteWbPack) : Nat → RobItem :=
  ports.foldl cur.mergeOne cur.rob.buffer

theorem foldl_commitInput (cur : Core) (ports : List ExecuteWbPack) {s : Core}
    (hs : s.rob.buffer = cur.rob.buffer) :
    ports.foldl (commitInput cur) s
      = { s with rob := { s.rob with buffer := cur.merged ports } } := by
  suffices hfold : ∀ b, ports.foldl (commitInput cur) { s with rob := { s.rob with buffer := b } }
      = { s with rob := { s.rob with buffer := ports.foldl cur.mergeOne b } } by
    rw [Core.merged, ← hs]
    exact hfold s.rob.buffer
  induction ports with
  | nil => exact fun b => rfl
  | cons rev ports ih =>
    intro b
    rw [List.foldl_cons, List.foldl_cons, ← ih]
    congr 1
    unfold commitInput Core.mergeOne
    split <;> rfl

/-- Without a result the ROB keeps its cells. -/
theorem Core.merged_of_disabled (cur : Core) {ports : List ExecuteWbPack}
    (h : ∀ rev ∈ ports, rev.enable = false) : cur.merged ports = cur.rob.buffer := by
  unfold Core.merged
  induction ports with
  | nil => rfl
  | cons rev ports ih =>
    rw [List.foldl_cons, Core.mergeOne, h rev (List.mem_cons_self ..)]
    exact ih fun r hr => h r (List.mem_cons_of_mem _ hr)

/-- **A cell after the results** is the one before, or that one with a result applied to it. -/
theorem Core.merged_cases (cur : Core) (ports : List ExecuteWbPack) (slot : Nat) :
    cur.merged ports slot = cur.rob.buffer slot
      ∨ ∃ rev ∈ ports, rev.enable = true ∧ rev.robId.id = slot
        ∧ cur.merged ports slot = (cur.rob.buffer slot).applyResult rev := by
  unfold Core.merged
  induction ports using List.reverseRecOn with
  | nil => exact .inl rfl
  | append_singleton ports rev ih =>
    rw [List.foldl_append, List.foldl_cons, List.foldl_nil]
    have hold : ports.foldl cur.mergeOne cur.rob.buffer slot = cur.rob.buffer slot
        ∨ ∃ rev' ∈ ports ++ [rev], rev'.enable = true ∧ rev'.robId.id = slot
          ∧ ports.foldl cur.mergeOne cur.rob.buffer slot
            = (cur.rob.buffer slot).applyResult rev' := by
      rcases ih with ih | ⟨rev', hmem, ih⟩
      · exact .inl ih
      · exact .inr ⟨rev', List.mem_append_left _ hmem, ih⟩
    unfold Core.mergeOne at hold ⊢
    split
    · rename_i hen
      by_cases hid : rev.robId.id = slot
      · subst hid
        rw [Function.update_self]
        exact .inr ⟨rev, List.mem_append_right _ (List.mem_singleton_self _), hen, rfl, rfl⟩
      · rw [Function.update_of_ne (Ne.symm hid)]
        exact hold
    · exact hold

/-- **The input part of commit keeps the invariant.** -/
theorem Inv.results {cur s : Core} {g₀ : Ghost} {k : Nat} (hcur : Inv cur g₀)
    (h : Inv s (g₀.retireN k)) (hs : s.rob.buffer = cur.rob.buffer) {ports : List ExecuteWbPack}
    (hports : ∀ rev ∈ ports, rev.enable = true → ∃ f ∈ g₀.flight, ResultOf f.info rev) :
    Inv { s with rob := { s.rob with buffer := cur.merged ports } } (g₀.retireN k) := by
  have hold : ∀ l₁ f l₂, (g₀.retireN k).flight = l₁ ++ f :: l₂ →
      g₀.flight = (g₀.flight.take k ++ l₁) ++ f :: l₂
        ∧ tip (g₀.retireN k).base l₁ = tip g₀.base (g₀.flight.take k ++ l₁) := by
    intro l₁ f l₂ hl
    rw [Ghost.retireN_flight] at hl
    refine ⟨?_, ?_⟩
    · rw [List.append_assoc, ← hl, List.take_append_drop]
    · rw [Ghost.retireN_base, tip, tip, tip, Window.tip_append]
  suffices hfold : ∀ b : Nat → RobItem,
      (∀ l₁ f l₂, (g₀.retireN k).flight = l₁ ++ f :: l₂ →
        (b ((tip (g₀.retireN k).base l₁).rob % robSize)).Tracks (tip (g₀.retireN k).base l₁) f) →
      ∀ l₁ f l₂, (g₀.retireN k).flight = l₁ ++ f :: l₂ →
        ((ports.foldl cur.mergeOne b) ((tip (g₀.retireN k).base l₁).rob % robSize)).Tracks
          (tip (g₀.retireN k).base l₁) f by
    exact h.withRobBuffer rfl (hfold cur.rob.buffer fun l₁ f l₂ hl => hs ▸ (h.entry hl).item)
  induction ports with
  | nil => exact fun b h => h
  | cons rev ports ih =>
    intro b hb
    rw [List.foldl_cons]
    refine ih (fun r hr => hports r (List.mem_cons_of_mem _ hr)) _ ?_
    unfold Core.mergeOne
    split
    · rename_i hen
      obtain ⟨f', hf', hrev⟩ := hports rev (List.mem_cons_self ..) hen
      obtain ⟨l₁', l₂', hl'⟩ := List.append_of_mem hf'
      have hslot : rev.robId.id = (tip g₀.base l₁').rob % robSize := by
        rw [hrev.robId, (hcur.entry hl').robId, Ptr.fold_id]
      intro l₁ f l₂ hl
      obtain ⟨hl₀, htip⟩ := hold l₁ f l₂ hl
      rw [hslot]
      by_cases hs : (tip (g₀.retireN k).base l₁).rob % robSize = (tip g₀.base l₁').rob % robSize
      · rw [hs, Function.update_self]
        rw [htip] at hs ⊢
        obtain ⟨hpre, rfl⟩ := hcur.slot_inj hl₀ hl' hs
        rw [hpre]
        exact (hcur.entry hl').item.applyResult hrev
      · rw [Function.update_of_ne hs]
        exact hb l₁ f l₂ hl
    · exact hb

/-! ## The whole of commit -/

/-- Commit has retired `k` entries, and the rest of the window stands. -/
structure Committed (cur : Core) (g₀ : Ghost) (ports : List ExecuteWbPack) (k : Nat)
    (st : CommitState) : Prop where
  inv : Inv st.new (g₀.retireN k)
  flush : st.feedback.flush = false
  hasException : st.feedback.hasException = false
  le : k ≤ g₀.flight.length
  queue : st.retireQueue.map Prod.fst = (g₀.flight.take k).map fun f => f.info.robId.id
  finished : ∀ f ∈ g₀.flight.take k, (cur.rob.buffer f.info.robId.id).finish = true
  /-- The results of the cycle are in the ROB. -/
  merged : st.new.rob.buffer = cur.merged ports
  released : (g₀.retireN k).released = g₀.released ++ releasedIds st.retired
  frame : ∀ j, g₀.tip.free ≤ j → j < g₀.freed →
    st.new.phyIdFreeList.ring.buffer (j % phyRegNum) = cur.phyIdFreeList.ring.buffer (j % phyRegNum)

theorem Committed.retired_length {cur : Core} {g₀ : Ghost} {ports : List ExecuteWbPack} {k : Nat}
    {st : CommitState} (h : Committed cur g₀ ports k st) : st.retired.length = k := by
  have := congrArg List.length h.queue
  rw [List.length_map, List.length_map, List.length_take, Nat.min_eq_left h.le] at this
  rw [CommitState.retired, h.hasException, ← this]
  rfl

/-- **What commit does in one cycle.** `leak` and `drops` say whether the cycle may have lost a
register or a checkpoint. -/
inductive CommitEffect (cur : Core) (g₀ : Ghost) (ports : List ExecuteWbPack) (leak drops : Bool)
    (st : CommitState) : Prop where
  | retired (k : Nat) : Committed cur g₀ ports k st →
      (drops = false → ∀ f ∈ g₀.flight.take k, f.pops = f.info.hasCheckpoint) →
      CommitEffect cur g₀ ports leak drops st
  | dropped (k j : Nat) : Dropped cur g₀ leak k j st → CommitEffect cur g₀ ports leak drops st
  /-- An interrupt is taken, which waits for an empty window. -/
  | interrupted : g₀.flight = [] → Inv st.new g₀ → st.feedback.flush = true →
      st.retired = [] → CommitEffect cur g₀ ports leak drops st

/-- The interrupt block waits, or finds the ROB empty. -/
theorem commitInterrupt_cases (cur new : Core) (inp : CommitInput) :
    (∃ w, commitInterrupt cur new inp = { new := new, feedback := { waitingForInterrupt := w } }) ∨
    (Fifo.customerIsEmpty cur.rob new.rob = true
      ∧ new.SameWindow (commitInterrupt cur new inp).new
      ∧ (commitInterrupt cur new inp).feedback.flush = true
      ∧ (commitInterrupt cur new inp).retired = []) := by
  unfold commitInterrupt
  split
  · exact .inl ⟨false, rfl⟩
  · split
    · rename_i he _
      exact .inr ⟨he, ⟨rfl, rfl, rfl, rfl, rfl, rfl, rfl, fun h => h, rfl, rfl⟩, rfl, rfl⟩
    · exact .inl ⟨true, rfl⟩

theorem front_none {cur new : Core} :
    Fifo.customerGetFrontId cur.rob new.rob = none ↔
      Fifo.customerIsEmpty cur.rob new.rob = true := by
  unfold Fifo.customerGetFrontId
  split <;> simp_all

/-- An empty ROB has an empty window. -/
theorem Inv.flight_nil {cur new : Core} {g₀ : Ghost} (hcur : Inv cur g₀)
    (hsame : cur.SameWindow new) (he : Fifo.customerIsEmpty cur.rob new.rob = true) :
    g₀.flight = [] := by
  have hrob := hcur.rob
  rw [Fifo.customerIsEmpty_iff (by decide) (hsame.rob ▸ hrob.rptr) hrob.wptr hrob.le hrob.size,
    Ghost.tip, tip_rob] at he
  exact List.eq_nil_of_length_eq_zero (by omega)

/-- The loop starts on the window the cycle began with. -/
theorem Committing.start {cur new : Core} {g₀ : Ghost} {fb : CommitFeedback} (hcur : Inv cur g₀)
    (hsame : cur.SameWindow new) (h₁ : fb.flush = false) (h₂ : fb.hasException = false) :
    Committing cur g₀ 0 { new := new, feedback := fb } :=
  ⟨hcur.congr hsame, Core.SameTail.congr ⟨rfl, rfl, rfl, rfl, rfl, rfl⟩ hsame, h₁, rfl, h₂,
    Nat.zero_le _, rfl, (by simp), (List.append_nil _).symm, fun j _ _ => by rw [hsame.free]⟩

/-- **Commit in one cycle**, from a snapshot that differs from the beginning of the cycle only
in what the window does not see. -/
theorem commitRun_effect {cur new : Core} {g₀ : Ghost} {inp : CommitInput} {st : CommitState}
    (hcur : Inv cur g₀) (hsame : cur.SameWindow new) (hack : new.isWaitingAck = cur.isWaitingAck)
    (hrsb : new.retiredStoreBuffer = cur.retiredStoreBuffer)
    (hports : ∀ rev ∈ inp.executeCommitPort, rev.enable = true →
      ∃ f ∈ g₀.flight, ResultOf f.info rev)
    (h : commitRun cur new inp = some st) :
    CommitEffect cur g₀ inp.executeCommitPort (cur.leaks inp.writeAck)
      (cur.dropsCheckpoint inp.writeAck g₀.flight) st := by
  have hnew := hcur.congr hsame
  unfold commitRun at h
  dsimp only at h
  rcases commitInterrupt_cases cur new inp with ⟨w, hint⟩ | ⟨he, hw, hfl, hret⟩
  · rw [hint] at h
    have hdone : ∀ {k st'}, Committing cur g₀ k st' →
        Committed cur g₀ inp.executeCommitPort k { st' with new := { st'.new with
          rob := { st'.new.rob with buffer := cur.merged inp.executeCommitPort } } } := by
      intro k st' hc
      refine ⟨hcur.results hc.inv hc.tail.robBuffer.symm hports, hc.flush, hc.hasException, hc.le,
        ?_, hc.finished, rfl, ?_, hc.frame⟩
      · rw [hc.queue, List.map_map]
        rfl
      · rw [hc.released, CommitState.retired, hc.hasException]
        rfl
    split at h
    · rename_i hfront
      cases h
      have hc : Committing cur g₀ 0
          { new := new, feedback := { waitingForInterrupt := w } } :=
        .start hcur hsame rfl rfl
      have hdis : ∀ rev ∈ inp.executeCommitPort, rev.enable = false := by
        rw [front_none] at hfront
        have hnil := hcur.flight_nil hsame hfront
        intro rev hrev
        rw [Bool.eq_false_iff]
        intro hen
        obtain ⟨f, hf, -⟩ := hports rev hrev hen
        rw [hnil] at hf
        cases hf
      have := hdone hc
      rw [cur.merged_of_disabled hdis, ← hsame.rob] at this
      exact .retired 0 this fun _ f hf => by simp at hf
    · rename_i firstId _
      rw [Option.bind_eq_bind, Option.bind_eq_some_iff] at h
      obtain ⟨st', hloop, h⟩ := h
      have hc : Committing cur g₀ 0 { new := new, feedback := {
          waitingForInterrupt := w
          idle := false
          nextHandleRobId := some firstId } } :=
        .start hcur hsame rfl rfl
      obtain ⟨k, heff, hpops⟩ := commitLoop_effect hcur.rob hc (fun _ => ⟨hack, hrsb⟩) hloop
      rw [List.drop_zero] at heff hpops
      rcases heff with hk | ⟨j, hk⟩
      · rw [if_neg (by rw [hk.needFlush]; exact Bool.false_ne_true)] at h
        cases h
        rw [foldl_commitInput cur _ hk.tail.robBuffer.symm]
        exact .retired k (hdone hk) hpops
      · rw [if_pos hk.needFlush] at h
        cases h
        exact .dropped k j hk
  · -- the ROB is empty, and the loop finds nothing to do
    have hfront : Fifo.customerGetFrontId cur.rob (commitInterrupt cur new inp).new.rob = none := by
      rw [front_none, Fifo.customerIsEmpty, hw.rob]
      exact he
    rw [hfront] at h
    cases h
    exact .interrupted (hcur.flight_nil hsame he) (hnew.congr hw) hfl hret

end DreamCore
