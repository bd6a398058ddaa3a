import DreamCore.Backend.RenameStep

/-!
# One cycle, and every run

The stages put together. A cycle under legal input takes a window to a window;
what is said about ids and checkpoints along the way is what the two counters at
the retired end do.
-/

namespace DreamCore

open Ring

/-! ## Taking a cycle apart -/

/-- The feedback of the store address unit, as the early run computes it. -/
def CycleInput.sauFb (cur : Core) (inp : CycleInput) : FlushFeedback :=
  (inp.sau.map (sauFeedback cur { cur with committed := false })).getD {}

/-- The components commit starts from: the early run of the store address unit has written. -/
def CycleInput.early (cur : Core) (inp : CycleInput) : Core :=
  (inp.sau.map (sauWrite cur { cur with committed := false })).getD { cur with committed := false }

/-- **The stages of a cycle.** -/
structure Core.Stages (cur : Core) (inp : CycleInput) (r : CycleResult) : Prop where
  commit : commitRun cur (inp.early cur) inp.commit = some r.commit
  feedback : (r.bru, r.sau) = arbitrate (inp.bruFb cur) (inp.sauFb cur) r.commit.feedback.flush
  execute : ∃ s, executeRun cur
      (wbRun r.commit.new (inp.bruFb cur) (inp.sauFb cur) r.commit.feedback.flush
        (inp.commit.executeCommitPort.take 8)) inp r.bru r.sau r.commit.feedback.flush = some s
    ∧ renameRun cur s inp.dispatchStall
        (r.commit.feedback.flush || r.bru.flush || r.sau.flush)
        r.commit.feedback.waitingForInterrupt inp.commit.decodeRenameFifo = some r.rename
  next : r.next = { r.rename.new with
    retiredStoreBuffer := retiredStoreBufferRun cur.retiredStoreBuffer
      r.rename.new.retiredStoreBuffer inp.drainAck }

theorem Core.cycle_eq_some {cur : Core} {inp : CycleInput} {r : CycleResult}
    (h : cur.cycle inp = some r) : cur.Stages inp r := by
  simp only [Core.cycle, Option.bind_eq_bind, Option.bind_eq_some_iff] at h
  obtain ⟨commit, hcommit, s, hs, rename, hrename, h⟩ := h
  cases h
  exact ⟨hcommit, rfl, ⟨s, hs, hrename⟩, rfl⟩

variable {w w' : World} {inp : CycleInput} {r : CycleResult} {g₀ g : Ghost}

theorem early_sameWindow (cur : Core) (inp : CycleInput) : cur.SameWindow (inp.early cur) := by
  have h₀ : cur.SameWindow { cur with committed := false } :=
    ⟨rfl, rfl, rfl, rfl, rfl, rfl, rfl, fun h => h, rfl, rfl⟩
  unfold CycleInput.early
  cases inp.sau with
  | none => exact h₀
  | some rev => exact h₀.trans (sauWrite_sameWindow rev)

/-- The early run leaves alone what commit waits for. -/
theorem early_waits (cur : Core) (inp : CycleInput) :
    (inp.early cur).isWaitingAck = cur.isWaitingAck
      ∧ (inp.early cur).retiredStoreBuffer = cur.retiredStoreBuffer := by
  unfold CycleInput.early
  cases inp.sau with
  | none => exact ⟨rfl, rfl⟩
  | some rev =>
    simp only [Option.map_some, Option.getD_some, sauWrite]
    split
    · split <;> exact ⟨rfl, rfl⟩
    · exact ⟨rfl, rfl⟩

theorem wbRun_sameWindow (s : Core) (bru sau : FlushFeedback) (flush : Bool)
    (ports : List ExecuteWbPack) : s.SameWindow (wbRun s bru sau flush ports) := by
  unfold wbRun
  split
  · exact .refl _
  · exact ⟨rfl, rfl, rfl, rfl, rfl, rfl, rfl, fun h => h, rfl, rfl⟩

/-- **No load ever flushes through the store address unit.** -/
theorem Inv.sauFb_flush (h : Inv w.core g₀) (inp : CycleInput) :
    (inp.sauFb w.core).flush = false := by
  unfold CycleInput.sauFb
  cases inp.sau with
  | none => rfl
  | some rev => exact sauFeedback_flush h.lqPlain rev

/-- The arbitration with a store address unit that never flushes. -/
theorem arbitrate_eq {bru sau : FlushFeedback} (hs : sau.flush = false) (flush : Bool) :
    arbitrate bru sau flush
      = (if flush then { bru with flush := false } else bru, sau) := by
  have : sau = { sau with flush := false } := by rw [← hs]
  cases flush <;> simp [arbitrate, hs]
  exact this.symm

/-- The packs for the units belong to instructions in flight. -/
theorem CycleInput.Legal.unitsOk (h : inp.Legal w) : inp.UnitsOk w.flight :=
  ⟨h.bru, h.lu⟩

theorem CycleInput.Legal.shaped (h : inp.Legal w) : ∀ p ∈ inp.commit.decodeRenameFifo, p.Shaped := by
  intro p hp
  obtain ⟨rev, hrev, rfl⟩ := h.decoded p hp
  exact decode_shaped hrev

/-! ## The window after a cycle -/

/-- A window the core of `w` holds. -/
structure World.Holds (w : World) (g : Ghost) : Prop where
  inv : Inv w.core g
  flight : g.flight = w.flight
  released : g.released = w.released

/-- What the retired end of the window has gone through between two ghosts. -/
structure Ghost.Evolves (g₀ g : Ghost) (leak drops : Bool) : Prop where
  ids : leak = false → g.freed + g₀.base.free = g₀.freed + g.base.free
  /-- The two counters of the checkpoint buffer stay in step, or are both reset. -/
  checkpoints : drops = false → g₀.ckHead = g₀.base.ck → g.ckHead = g.base.ck

theorem drop_retired {k : Nat} (hw : w.Holds g₀) :
    (g₀.retireN k).flight = w.flight.drop k := by
  rw [Ghost.retireN_flight, hw.flight]

theorem Ghost.evolves_retireN (g : Ghost) (k : Nat) (leak : Bool) {drops : Bool} {g' : Ghost}
    (hpops : drops = false → ∀ f ∈ g.flight.take k, f.pops = f.info.hasCheckpoint)
    (hb : g'.base = (g.retireN k).base) (hf : g'.freed = (g.retireN k).freed)
    (hc : g'.ckHead = (g.retireN k).ckHead) : g.Evolves g' leak drops := by
  refine ⟨fun _ => ?_, fun hd h => ?_⟩
  · rw [hb, hf]
    exact g.retireN_freed k
  · have := Ghost.retireN_ckHead (k := k) (g := g) (hpops hd)
    rw [hb, hc]
    omega

/-- After a retiring commit, rename may build on the window that is left. -/
theorem Committed.behind {cur s : Core} {ports : List ExecuteWbPack} {k : Nat} {st : CommitState}
    (hcur : Inv cur g₀) (hc : Committed cur g₀ ports k st)
    (hs : s.phyIdFreeList.ring.buffer = st.new.phyIdFreeList.ring.buffer) :
    Behind cur s g₀ (g₀.retireN k) := by
  have htip := g₀.retireN_tip k
  have hbase := g₀.retireN_base k
  refine ⟨⟨?_, ?_⟩, ⟨g₀.retireN_ckHead_le k, ?_⟩, ⟨?_, ?_⟩, ⟨?_, ?_⟩,
    ⟨g₀.retireN_freed_le k, ?_⟩, ?_⟩
  · rw [hbase, tip_rob]
    omega
  · rw [htip]
    exact hcur.rob.size
  · rw [htip]
    exact hcur.ck.size
  · rw [hbase]
    exact lq_le_tip ..
  · rw [htip]
    exact hcur.lq.size
  · rw [hbase]
    exact sb_le_tip ..
  · rw [htip]
    exact hcur.sb.size
  · rw [htip]
    exact hcur.free.le
  · intro j hj hj'
    rw [htip] at hj
    rw [hs]
    exact hc.frame j hj hj'

/-- **Rename starts from a window**, whenever it runs at all. -/
theorem World.Holds.beforeRename (hw : w.Holds g₀) (hl : inp.Legal w)
    {commit : CommitState} {s : Core}
    (hcommit : commitRun w.core (inp.early w.core) inp.commit = some commit)
    (hflush : commit.feedback.flush = false) (hbru : (inp.bruFb w.core).flush = false)
    (hexec : executeRun w.core (wbRun commit.new (inp.bruFb w.core) (inp.sauFb w.core) false
      (inp.commit.executeCommitPort.take 8)) inp (inp.bruFb w.core) (inp.sauFb w.core) false
        = some s) :
    ∃ k, Inv s (g₀.retireN k) ∧ Behind w.core s g₀ (g₀.retireN k) := by
  obtain ⟨hack, hrsb⟩ := early_waits w.core inp
  have hports : ∀ rev ∈ inp.commit.executeCommitPort, rev.enable = true →
      ∃ f ∈ g₀.flight, ResultOf f.info rev := by
    rw [hw.flight]
    exact hl.results
  have hunits : inp.UnitsOk g₀.flight := by
    rw [hw.flight]
    exact hl.unitsOk
  cases commitRun_effect hw.inv (early_sameWindow w.core inp) hack hrsb hports hcommit with
  | retired k hk _ =>
    have hsame := wbRun_sameWindow commit.new (inp.bruFb w.core) (inp.sauFb w.core) false
      (inp.commit.executeCommitPort.take 8)
    obtain ⟨-, hkeep, -⟩ := executeRun_effect hw.inv (hk.inv.congr hsame) hunits
      (hw.inv.sauFb_flush inp) hexec
    refine ⟨_, hk.inv.congr (hsame.trans (hkeep hbru)), hk.behind hw.inv ?_⟩
    rw [(hkeep hbru).free, hsame.free]
  | dropped k j hk =>
    rw [hk.flush] at hflush
    cases hflush
  | interrupted _ _ hfl _ =>
    rw [hfl] at hflush
    cases hflush

/-- **The window after a cycle**, and what happened at its retired end. -/
theorem cycle_effect (hw : w.Holds g₀) (hl : inp.Legal w) (h : w.core.cycle inp = some r) :
    ∃ g, (w.act r).Holds g
      ∧ g₀.Evolves g (w.core.leaks inp.commit.writeAck)
        (w.core.dropsCheckpoint inp.commit.writeAck w.flight)
      ∧ (r.bru.flush = true → ∃ l f, (w.act r).flight = l ++ [f] ∧ f ∈ w.flight
        ∧ f.info.robId = r.bru.robId) := by
  have hstages := Core.cycle_eq_some h
  obtain ⟨s, hexec, hren⟩ := hstages.execute
  obtain ⟨hack, hrsb⟩ := early_waits w.core inp
  have hsau := hw.inv.sauFb_flush inp
  have harb := hstages.feedback
  rw [arbitrate_eq hsau] at harb
  have hrbru : r.bru = if r.commit.feedback.flush then { inp.bruFb w.core with flush := false }
      else inp.bruFb w.core := congrArg Prod.fst harb
  have hrsau : r.sau = inp.sauFb w.core := congrArg Prod.snd harb
  have hports : ∀ rev ∈ inp.commit.executeCommitPort, rev.enable = true →
      ∃ f ∈ g₀.flight, ResultOf f.info rev := by
    rw [hw.flight]
    exact hl.results
  have hunits : inp.UnitsOk g₀.flight := by
    rw [hw.flight]
    exact hl.unitsOk
  have hlast : ∀ g, Inv r.rename.new g → Inv r.next g := fun g hg => by
    rw [hstages.next]
    exact hg.congr ⟨rfl, rfl, rfl, rfl, rfl, rfl, rfl, fun h => h, rfl, rfl⟩
  -- a cycle in which commit has flushed changes nothing else
  have hflushed : ∀ g, r.commit.feedback.flush = true → Inv r.commit.new g → Inv r.next g := by
    intro g hfl hg
    rw [hfl] at hexec hren
    have hwb := hg.congr (wbRun_sameWindow r.commit.new (inp.bruFb w.core) (inp.sauFb w.core) true
      (inp.commit.executeCommitPort.take 8))
    have hs := hwb.congr (executeRun_flushed hunits hwb hexec)
    have hrn := renameRun_effect hw.inv hs hl.shaped (fun hc => by simp at hc) hren
    have hnew := (hrn.2 (by simp)).2
    exact hlast g (hnew ▸ hs)
  cases commitRun_effect hw.inv (early_sameWindow w.core inp) hack hrsb hports hstages.commit with
  | retired k hk hpops =>
    rw [hk.flush] at hexec hren hrbru
    simp only [Bool.false_eq_true, if_false] at hrbru
    rw [hrbru] at hexec hren
    have hwb := hk.inv.congr (wbRun_sameWindow r.commit.new (inp.bruFb w.core) (inp.sauFb w.core)
      false (inp.commit.executeCommitPort.take 8))
    obtain ⟨hs, hsame, hcut⟩ := executeRun_effect hw.inv hwb hunits (hrsau ▸ hsau) hexec
    have hrn := renameRun_effect hw.inv hs hl.shaped (fun hc => ?_) hren
    · have hlen := hk.retired_length
      have hflight : (w.act r).flight = (w.flight.drop k).filter
          (fun f => !(inp.bruFb w.core).squashes f.info.robId)
          ++ flights (w.released ++ releasedIds r.commit.retired).length r.rename.turns := by
        simp only [World.act, World.flightAfter, hk.flush, Bool.false_eq_true, if_false]
        rw [hlen, hrbru, hrsau, flights]
        congr 1
        refine List.filter_congr fun f _ => ?_
        simp [FlushFeedback.squashesEqual, hsau]
      refine ⟨_, ⟨hlast _ hrn.1, ?_, ?_⟩, ?_, fun hfl => ?_⟩
      · rw [hflight, drop_retired hw, hk.released, hw.released]
      · simp only [World.act]
        rw [hk.released, hw.released]
      · rw [← hw.flight]
        exact g₀.evolves_retireN k _ hpops rfl rfl rfl
      · rw [hrbru] at hfl ⊢
        obtain ⟨l, f, hl, hf, hid⟩ := hcut hfl
        rw [drop_retired hw] at hl
        refine ⟨l, f, ?_, hw.flight ▸ hf, hid⟩
        rw [hflight, hl, (hrn.2 (by simp [hfl])).1]
        simp [flights]
    · -- without a flush of the branch unit rename continues on the whole window
      have hnf : (inp.bruFb w.core).flush = false := by
        simp only [Bool.or_eq_false_iff, Bool.false_or] at hc
        exact hc.1
      have hfilter : (g₀.retireN k).flight.filter
          (fun f => !(inp.bruFb w.core).squashes f.info.robId) = (g₀.retireN k).flight := by
        rw [List.filter_eq_self]
        intro f _
        simp [FlushFeedback.squashes, hnf]
      rw [hfilter]
      refine hk.behind hw.inv ?_
      rw [(hsame hnf).free, (wbRun_sameWindow r.commit.new (inp.bruFb w.core) (inp.sauFb w.core)
        false (inp.commit.executeCommitPort.take 8)).free]
  | dropped k j hk =>
    refine ⟨_, ⟨hflushed _ hk.flush hk.inv, ?_, ?_⟩, ?_, fun hc => ?_⟩
    · simp [World.act, World.flightAfter, hk.flush, Ghost.flush]
    · simp only [World.act, Ghost.flush]
      rw [hk.released, hw.released]
    · refine ⟨fun hleak => ?_, fun _ _ => rfl⟩
      rcases hk.restored with hj | ⟨hc, -⟩
      · simp only [Ghost.flush, hj]
        exact g₀.retireN_freed k
      · rw [hleak] at hc
        cases hc
    · simp [hrbru, hk.flush] at hc
  | interrupted hnil hinv hfl hret =>
    refine ⟨g₀, ⟨hflushed _ hfl hinv, ?_, ?_⟩, ?_, fun hc => ?_⟩
    · simp [World.act, World.flightAfter, hfl, hnil]
    · simp [World.act, hret, releasedIds, hw.released]
    · exact ⟨fun _ => rfl, fun _ h => h⟩
    · simp [hrbru, hfl] at hc

/-! ## Reset -/

/-- The window after reset: nothing in flight, register `a` in physical register `a - 1`. -/
def Ghost.init : Ghost where
  base := ⟨0, 31, 0, 0, 0, fun a => a - 1⟩
  flight := []
  freed := 128
  ckHead := 0
  released := []

theorem reset_represents :
    Represents ⟨fun p => if p < 31 then p + 1 else 0, fun p => decide (p < 31)⟩
      fun a => a - 1 where
  valid p _ := by
    simp only [decide_eq_true_eq, IsReg, archRegNum]
    constructor
    · exact fun hp => ⟨p + 1, by omega, by omega⟩
    · rintro ⟨a, ha, rfl⟩
      omega
  arch a ha := by
    simp only [IsReg, archRegNum] at ha ⊢
    split <;> omega
  lt a ha := by
    simp only [IsReg, archRegNum, phyRegNum] at *
    omega

/-- **The invariant holds after reset.** -/
theorem holds_init : World.init.Holds Ghost.init where
  flight := rfl
  released := rfl
  inv := {
    rob := ⟨rfl, rfl, Nat.le_refl _, by decide⟩
    free := ⟨rfl, rfl, by decide, by decide⟩
    nodup := by decide +kernel
    bound := by decide +kernel
    retire := reset_represents
    spec := reset_represents
    rewind := fun l₁ l₂ hl a ha => by
      obtain ⟨rfl, rfl⟩ := List.nil_eq_append_iff.mp hl
      exact ⟨reset_represents.arch a ha, reset_represents.lt a ha⟩
    ck := ⟨rfl, rfl, Nat.le_refl _, by decide⟩
    ckHead := Nat.le_refl _
    lq := ⟨rfl, rfl, Nat.le_refl _, by decide⟩
    sb := ⟨rfl, rfl, Nat.le_refl _, by decide⟩
    lqPlain := fun _ => rfl
    entries := trivial }

/-- **Every reachable world holds a window.** -/
theorem Reachable.holds (h : Reachable w) : ∃ g, w.Holds g := by
  induction h with
  | init => exact ⟨_, holds_init⟩
  | cycle inp r _ hl _ hr ih =>
    obtain ⟨g₀, hg₀⟩ := ih
    obtain ⟨g, hg, -⟩ := cycle_effect hg₀ hl hr
    exact ⟨g, hg⟩

end DreamCore
