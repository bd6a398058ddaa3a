import DreamCore.Backend.RobStep

/-!
# What a cycle does to the instructions in flight

The window theorems speak about counters and pointers. What the stages outside
the core need of a cycle is less: who is left, who joined, who was squashed and
by whom, and how the ROB entries read afterwards.
-/

namespace DreamCore

open Ring

variable {w : World} {g₀ g : Ghost} {inp : CycleInput} {r : CycleResult}

/-- **What a cycle did to the instructions in flight.** -/
inductive Outcome (w : World) (inp : CycleInput) (r : CycleResult) : Prop where
  /-- Commit has dropped them all. -/
  | dropped : r.commit.feedback.flush = true → (w.act r).flight = [] → r.bru.flush = false →
      Outcome w inp r
  /-- The `k` oldest retired, the branch unit may have squashed the youngest, rename added to
  them if it has not. -/
  | stepped (k : Nat) (s : Core) : r.commit.feedback.flush = false → k ≤ w.flight.length →
      r.commit.retired.length = k →
      (∀ f ∈ w.flight.take k, (w.core.rob.buffer f.info.robId.id).finish = true) →
      (w.act r).flight = ((w.flight.drop k).filter fun f => !r.bru.squashes f.info.robId)
        ++ flights (w.released ++ releasedIds r.commit.retired).length r.rename.turns →
      s.rob.buffer = w.core.merged inp.commit.executeCommitPort →
      RobWrites s r.next r.rename.turns → Outcome w inp r

/-- The branch a flush of the branch unit belongs to. -/
theorem CycleInput.Legal.flushing (hl : inp.Legal w) (hfb : (inp.bruFb w.core).flush = true) :
    ∃ f ∈ w.flight, ∃ rev, inp.bru = some rev ∧ OperandsOf f.info rev ∧ rev.opUnit = .bru
      ∧ (inp.bruFb w.core).robId = f.info.robId := by
  unfold CycleInput.bruFb at hfb ⊢
  cases hrev : inp.bru with
  | none => simp [hrev] at hfb
  | some rev =>
    obtain ⟨f, hf, hop, hu⟩ := hl.bru rev hrev
    refine ⟨f, hf, rev, rfl, hop, hu, ?_⟩
    simp [bruFeedback, hop.robId]

/-- **The two feedbacks after the arbitration.** -/
theorem Core.Stages.feedbacks (hs : w.core.Stages inp r) (hw : w.Holds g₀) :
    r.sau.flush = false ∧
      r.bru = if r.commit.feedback.flush then { inp.bruFb w.core with flush := false }
        else inp.bruFb w.core := by
  have hsau := hw.inv.sauFb_flush inp
  have harb := hs.feedback
  rw [arbitrate_eq hsau] at harb
  exact ⟨(congrArg (fun p : FlushFeedback × FlushFeedback => p.2.flush) harb).trans hsau,
    congrArg Prod.fst harb⟩

/-- **Every cycle has an outcome.** -/
theorem cycle_outcome (hw : w.Holds g₀) (hl : inp.Legal w) (h : w.core.cycle inp = some r) :
    Outcome w inp r := by
  have hstages := Core.cycle_eq_some h
  obtain ⟨s, hexec, hren⟩ := hstages.execute
  obtain ⟨hack, hrsb⟩ := early_waits w.core inp
  obtain ⟨hsau, hbru⟩ := hstages.feedbacks hw
  have hports : ∀ rev ∈ inp.commit.executeCommitPort, rev.enable = true →
      ∃ f ∈ g₀.flight, ResultOf f.info rev := by
    rw [hw.flight]
    exact hl.results
  have hwrites := renameRun_rob (fun p hp => (hl.shaped p hp).enable) hren
  have hwb : s.rob.buffer = r.commit.new.rob.buffer := by
    rw [executeRun_robBuffer hexec, (wbRun_sameWindow r.commit.new (inp.bruFb w.core)
      (inp.sauFb w.core) r.commit.feedback.flush (inp.commit.executeCommitPort.take 8)).rob]
  have hnext : r.next.rob = r.rename.new.rob := by rw [hstages.next]
  have hdropped : r.commit.feedback.flush = true → Outcome w inp r := by
    intro hfl
    refine .dropped hfl ?_ ?_
    · simp [World.act, World.flightAfter, hfl]
    · rw [hbru, hfl]
      rfl
  cases commitRun_effect hw.inv (early_sameWindow w.core inp) hack hrsb hports hstages.commit with
  | retired k hk _ =>
    have hfin := hk.finished
    have hle := hk.le
    rw [hw.flight] at hfin hle
    refine .stepped k s hk.flush hle hk.retired_length hfin ?_ (hwb.trans hk.merged)
      ⟨fun slot hs => ?_, fun hnd t ht => ?_, hwrites.enable⟩
    · simp only [World.act, World.flightAfter, hk.flush, Bool.false_eq_true, if_false]
      rw [hk.retired_length]
      congr 1
      refine List.filter_congr fun f _ => ?_
      simp [FlushFeedback.squashesEqual, hsau]
    · rw [hnext]
      exact hwrites.kept slot hs
    · rw [hnext]
      exact hwrites.fresh hnd t ht
  | dropped k j hk => exact hdropped hk.flush
  | interrupted _ _ hfl _ => exact hdropped hfl

/-- **Without a flush rename goes on from the window that retirement has left.** -/
theorem cycle_renames (hw : w.Holds g₀) (hl : inp.Legal w) (h : w.core.cycle inp = some r)
    (hfl : r.commit.feedback.flush = false) (hb : r.bru.flush = false) :
    ∃ s k, Inv s (g₀.retireN k) ∧ Behind w.core s g₀ (g₀.retireN k)
      ∧ renameRun w.core s inp.dispatchStall false r.commit.feedback.waitingForInterrupt
        inp.commit.decodeRenameFifo = some r.rename := by
  have hstages := Core.cycle_eq_some h
  obtain ⟨s, hexec, hren⟩ := hstages.execute
  obtain ⟨hsau, hbru⟩ := hstages.feedbacks hw
  have hrsau : r.sau = inp.sauFb w.core := by
    have harb := hstages.feedback
    rw [arbitrate_eq (hw.inv.sauFb_flush inp)] at harb
    exact congrArg Prod.snd harb
  rw [hfl, if_neg Bool.false_ne_true] at hbru
  rw [hfl, hb, hsau] at hren
  rw [hfl, hbru, hrsau] at hexec
  rw [hbru] at hb
  obtain ⟨k, hs, hbehind⟩ := hw.beforeRename hl hstages.commit hfl hb hexec
  exact ⟨s, k, hs, hbehind, hren⟩

/-! ## Ages -/

/-- **The window is in order of age**, and the order is what the age comparison sees. -/
theorem World.Holds.ages (hw : w.Holds g) :
    w.flight.Pairwise fun f f' => f'.info.robId.younger f.info.robId = true := by
  rw [← hw.flight, List.pairwise_iff_getElem]
  intro i j hi hj hij
  have hsplit : ∀ n (hn : n < g.flight.length),
      g.flight = g.flight.take n ++ g.flight[n] :: g.flight.drop (n + 1) := fun n hn => by
    rw [← List.drop_eq_getElem_cons hn, List.take_append_drop]
  rw [hw.inv.younger_iff (hsplit i hi) (hsplit j hj), List.length_take, List.length_take]
  omega

/-- **No two instructions in flight share a cell of the ROB.** -/
theorem World.Holds.slots_nodup (hw : w.Holds g) :
    (w.flight.map fun f => f.info.robId.id).Nodup := by
  rw [← hw.flight, List.nodup_iff_pairwise_ne, List.pairwise_map, List.pairwise_iff_getElem]
  intro i j hi hj hij he
  have hsplit : ∀ n (hn : n < g.flight.length),
      g.flight = g.flight.take n ++ g.flight[n] :: g.flight.drop (n + 1) := fun n hn => by
    rw [← List.drop_eq_getElem_cons hn, List.take_append_drop]
  have hid : ∀ n (hn : n < g.flight.length),
      g.flight[n].info.robId.id = (tip g.base (g.flight.take n)).rob % robSize := fun n hn =>
    congrArg Ptr.id (hw.inv.entry (hsplit n hn)).robId
  rw [hid i hi, hid j hj] at he
  have hlen := congrArg List.length (hw.inv.slot_inj (hsplit i hi) (hsplit j hj) he).1
  rw [List.length_take, List.length_take] at hlen
  omega

/-- The entry of an instruction in flight says what rename allocated for it. -/
theorem World.Holds.tracks {w : World} {g : Ghost} (hw : w.Holds g) {f : Flight}
    (hf : f ∈ w.flight) : ∃ σ, (w.core.rob.buffer f.info.robId.id).Tracks σ f := by
  rw [← hw.flight] at hf
  obtain ⟨l₁, l₂, hl⟩ := List.append_of_mem hf
  have he := hw.inv.entry hl
  refine ⟨tip g.base l₁, ?_⟩
  rw [he.robId, Ptr.fold_id]
  exact he.item

/-- **Where an instruction in flight after a cycle comes from**, and what its entry holds: it was
in flight before, and its results have been merged into its entry, or it has just been renamed. -/
inductive Survives (w : World) (inp : CycleInput) (r : CycleResult) (f : Flight) : Prop where
  | kept : f ∈ w.flight → r.bru.squashes f.info.robId = false →
      r.next.rob.buffer f.info.robId.id
        = w.core.merged inp.commit.executeCommitPort f.info.robId.id → Survives w inp r f
  | renamed (t : OpInfo × Core) : t ∈ r.rename.turns → f.info = t.1 →
      (r.next.rob.buffer f.info.robId.id).Fresh f.info → Survives w inp r f

/-- **The entries of what a cycle renames are fresh after it.** -/
theorem cycle_fresh (hw : w.Holds g₀) (hl : inp.Legal w) (h : w.core.cycle inp = some r)
    (hnext : (w.act r).Holds g) :
    ∀ f ∈ flights (w.released ++ releasedIds r.commit.retired).length r.rename.turns,
      f ∈ (w.act r).flight → (r.next.rob.buffer f.info.robId.id).Fresh f.info := by
  intro f hf hmem
  obtain ⟨t, ht, rfl⟩ := List.mem_map.mp hf
  cases cycle_outcome hw hl h with
  | dropped _ hempty _ =>
    rw [hempty] at hmem
    cases hmem
  | stepped k s _ _ _ _ hflight _ hwrites =>
    have hnd := hnext.slots_nodup
    rw [hflight, List.map_append, List.nodup_append] at hnd
    have hslots : (flights (w.released ++ releasedIds r.commit.retired).length r.rename.turns).map
        (fun f => f.info.robId.id) = r.rename.turns.map fun t => t.1.robId.id := by
      simp [flights]
    rw [hslots] at hnd
    exact hwrites.fresh hnd.2.1 t ht

theorem cycle_survives (hw : w.Holds g₀) (hl : inp.Legal w) (h : w.core.cycle inp = some r)
    (hnext : (w.act r).Holds g) : ∀ f ∈ (w.act r).flight, Survives w inp r f := by
  intro f hf
  have hfresh := cycle_fresh hw hl h hnext f
  cases cycle_outcome hw hl h with
  | dropped _ hempty _ =>
    rw [hempty] at hf
    cases hf
  | stepped k s _ _ _ _ hflight hmerged hwrites =>
    have hnd := hnext.slots_nodup
    have hmem := hf
    rw [hflight] at hf hnd
    rw [List.map_append, List.nodup_append] at hnd
    rcases List.mem_append.mp hf with hold | hnew
    · have hsq := (List.mem_filter.mp hold).2
      refine .kept (List.mem_of_mem_drop (List.mem_filter.mp hold).1) (by simpa using hsq) ?_
      rw [hwrites.kept _ fun t ht he => ?_, hmerged]
      have hslot : t.1.robId.id ∈ (flights (w.released ++ releasedIds r.commit.retired).length
          r.rename.turns).map fun f => f.info.robId.id :=
        List.mem_map.mpr ⟨_, List.mem_map_of_mem ht, rfl⟩
      exact hnd.2.2 _ (List.mem_map_of_mem hold) _ hslot he.symm
    · have := hfresh hnew hmem
      obtain ⟨t, ht, rfl⟩ := List.mem_map.mp hnew
      exact .renamed t ht rfl this

/-- What a turn of rename sends came from the decoder. -/
theorem turn_decoded (hl : inp.Legal w) (h : w.core.cycle inp = some r) {t : OpInfo × Core}
    (ht : t ∈ r.rename.turns) : ∃ rev : Fetch2DecodePack, rev.FetchOk ∧ t.1.Sends (decode rev) := by
  obtain ⟨s, -, hren⟩ := (Core.cycle_eq_some h).execute
  obtain ⟨p, hp, hsend⟩ :=
    mem_left_of_forall₂ (renameRun_sends (fun p hp => (hl.shaped p hp).enable) hren) ht
  obtain ⟨rev, hrev, rfl⟩ := hl.decoded p (List.mem_of_mem_take hp)
  exact ⟨rev, hrev, hsend⟩

/-- **Every instruction in flight came from the decoder.** -/
theorem Reachable.decoded (h : Reachable w) :
    ∀ f ∈ w.flight, ∃ rev : Fetch2DecodePack, rev.FetchOk ∧ f.info.Sends (decode rev) := by
  induction h with
  | init => simp [World.init]
  | @cycle w inp r hrun hl _ hr ih =>
    intro f hf
    obtain ⟨g₀, hw⟩ := Reachable.holds hrun
    obtain ⟨g, hw'⟩ := Reachable.holds (.cycle inp r hrun hl trivial hr)
    cases cycle_survives hw hl hr hw' f hf with
    | kept hmem _ _ => exact ih f hmem
    | renamed t ht hinfo _ =>
      rw [hinfo]
      exact turn_decoded hl hr ht

end DreamCore
