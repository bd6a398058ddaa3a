import DreamCore.Backend.RenameTurns
import DreamCore.Backend.StoreSide

/-!
# The entries of the store buffer

Whose entry is whose. A store in flight owns the entry rename gave it, its ROB
entry names the same one, and nobody but its own two parts writes it until it is
gone. So what commit has decided about a store it has asked the bus for is still
what the store buffer says when the answer comes.
-/

namespace DreamCore

open Ring

/-- `rev` is a part of the store `info`, and carries the entry it was renamed with. -/
structure OpInfo.StorePart (info : OpInfo) (rev : ReadregExecutePack) : Prop where
  robId : rev.robId = info.robId
  slot : info.storeSlot = some rev.storeBufferId

/-- **What the issue stages hand over in time.** The part of a store that is issued last carries
`last_uop`, and its result is the last of the store; so while an entry is not finished its parts
and results may come in any order, and none comes afterwards. -/
structure CycleInput.Timely (w : World) (inp : CycleInput) : Prop where
  results : ∀ rev ∈ inp.commit.executeCommitPort, rev.enable = true →
    (w.core.rob.buffer rev.robId.id).finish = false
  sau : ∀ rev, inp.sau = some rev → ∃ f ∈ w.flight, f.info.StorePart rev
    ∧ (w.core.rob.buffer f.info.robId.id).finish = false
  sdu : ∀ rev, inp.sdu = some rev → ∃ f ∈ w.flight, f.info.StorePart rev
    ∧ (w.core.rob.buffer f.info.robId.id).finish = false

variable {w : World} {g₀ g : Ghost} {inp : CycleInput} {r : CycleResult} {cur s s' : Core} {k : Nat}

/-! ## What a cycle does to one entry -/

theorem Core.SameCells.storeCell (h : s.SameCells s') (k : Nat) : s'.storeCell k = s.storeCell k := by
  rw [Core.storeCell, Core.storeCell, h.addr, h.size, h.cells]

theorem sauWrite_storeCell (rev : ReadregExecutePack) (hk : rev.storeBufferId ≠ k) :
    (sauWrite cur s rev).storeCell k = s.storeCell k := by
  have hne := hk.symm
  unfold sauWrite
  split
  · dsimp only
    split <;>
      simp only [Core.storeCell, StoreBuffer.writeAddr, Function.update_of_ne hne]
  · rfl

theorem early_storeCell (cur : Core) (hsau : ∀ rev, inp.sau = some rev → rev.storeBufferId ≠ k) :
    (inp.early cur).storeCell k = cur.storeCell k := by
  unfold CycleInput.early
  cases hs : inp.sau with
  | none => rfl
  | some rev => exact sauWrite_storeCell rev (hsau rev hs)

theorem bruTurn_stores {sau : FlushFeedback} {flush : Bool}
    (h : bruTurn cur s inp sau flush = some s') : s.SameStores s' := by
  unfold bruTurn at h
  split at h
  · unfold bruRun at h
    split at h
    · cases h; exact .refl _
    · dsimp only at h
      split at h
      · simp only [bruRecover, Option.bind_eq_bind, Option.bind_eq_some_iff] at h
        obtain ⟨_, -, _, -, h⟩ := h
        cases h
        exact ⟨⟨rfl, rfl, rfl⟩, rfl, rfl⟩
      · cases h; exact .refl _
  · cases h; exact .refl _

theorem luTurn_stores (cur s : Core) (inp : CycleInput) (bru sau : FlushFeedback) (flush : Bool) :
    s.SameStores (luTurn cur s inp bru sau flush) := by
  have haccept : ∀ (t : Core) (rev : ReadregExecutePack), t.SameStores (luAccept t rev) := by
    intro t rev
    unfold luAccept
    split
    · exact ⟨⟨rfl, rfl, rfl⟩, rfl, rfl⟩
    · exact .refl _
  unfold luTurn
  dsimp only
  cases inp.luReplay <;> dsimp only <;> split
  · split
    · exact .refl _
    · exact haccept ..
  · exact .refl _
  · split
    · exact ⟨⟨rfl, rfl, rfl⟩, rfl, rfl⟩
    · refine Core.SameStores.trans ?_ (haccept _ _)
      exact ⟨⟨rfl, rfl, rfl⟩, rfl, rfl⟩
  · exact ⟨⟨rfl, rfl, rfl⟩, rfl, rfl⟩

theorem sauWrite_drain (cur s : Core) (rev : ReadregExecutePack) :
    (sauWrite cur s rev).retiredStoreBuffer = s.retiredStoreBuffer
      ∧ (sauWrite cur s rev).isWaitingAck = s.isWaitingAck := by
  unfold sauWrite
  split
  · dsimp only
    split <;> exact ⟨rfl, rfl⟩
  · exact ⟨rfl, rfl⟩

/-- **The units and the store side**: they write the entries of the parts they are given. -/
theorem executeRun_stores {bru sau : FlushFeedback} {flush : Bool}
    (h : executeRun cur s inp bru sau flush = some s') :
    s'.retiredStoreBuffer = s.retiredStoreBuffer ∧ s'.isWaitingAck = s.isWaitingAck
      ∧ ∀ k, (∀ rev, inp.sau = some rev → rev.storeBufferId ≠ k) →
        (∀ rev, inp.sdu = some rev → rev.storeBufferId ≠ k) → s'.storeCell k = s.storeCell k := by
  simp only [executeRun, Option.bind_eq_bind, Option.bind_eq_some_iff] at h
  obtain ⟨s₁, h₁, s₂, h₂, h₃⟩ := h
  have hstart := (bruTurn_stores h₁).trans (luTurn_stores cur _ inp bru sau flush)
  generalize luTurn cur s₁ inp bru sau flush = s₀ at hstart h₂
  have hsau : s₂.retiredStoreBuffer = s₀.retiredStoreBuffer ∧ s₂.isWaitingAck = s₀.isWaitingAck
      ∧ ∀ k, (∀ rev, inp.sau = some rev → rev.storeBufferId ≠ k) →
        s₂.storeCell k = s₀.storeCell k := by
    unfold sauTurn at h₂
    split at h₂
    · rename_i rev hrev
      split at h₂
      · cases h₂; exact ⟨rfl, rfl, fun _ _ => rfl⟩
      · obtain ⟨hr, hw⟩ := sauWrite_drain cur s₀ rev
        have hwrite : ∀ k, (∀ rev, inp.sau = some rev → rev.storeBufferId ≠ k) →
            (sauWrite cur s₀ rev).storeCell k = s₀.storeCell k :=
          fun k hk => sauWrite_storeCell rev (hk rev hrev)
        unfold sauRun at h₂
        dsimp only at h₂
        split at h₂
        · split at h₂
          · split at h₂
            · simp only [sauRecover, Option.bind_eq_bind, Option.bind_eq_some_iff] at h₂
              obtain ⟨_, -, h₂⟩ := h₂
              cases h₂
              exact ⟨hr, hw, hwrite⟩
            · cases h₂; exact ⟨hr, hw, hwrite⟩
          · cases h₂; exact ⟨hr, hw, hwrite⟩
        · cases h₂; exact ⟨hr, hw, hwrite⟩
    · cases h₂; exact ⟨rfl, rfl, fun _ _ => rfl⟩
  have hsdu : s'.retiredStoreBuffer = s₂.retiredStoreBuffer ∧ s'.isWaitingAck = s₂.isWaitingAck
      ∧ ∀ k, (∀ rev, inp.sdu = some rev → rev.storeBufferId ≠ k) →
        s'.storeCell k = s₂.storeCell k := by
    unfold sduTurn at h₃
    split at h₃
    · rename_i rev hrev
      split at h₃
      · cases h₃; exact ⟨rfl, rfl, fun _ _ => rfl⟩
      · unfold sduRun at h₃
        split at h₃
        · simp only [StoreBuffer.setItem, Option.bind_eq_bind, Option.bind_eq_some_iff] at h₃
          obtain ⟨_, -, _, ⟨_, -, hset⟩, h₃⟩ := h₃
          cases hset
          cases h₃
          refine ⟨rfl, rfl, fun k hk => ?_⟩
          simp only [Core.storeCell, Fifo.setItem, Function.update_of_ne (hk rev hrev).symm]
        · cases h₃; exact ⟨rfl, rfl, fun _ _ => rfl⟩
    · cases h₃; exact ⟨rfl, rfl, fun _ _ => rfl⟩
  refine ⟨hsdu.1.trans (hsau.1.trans hstart.retired), hsdu.2.1.trans (hsau.2.1.trans hstart.waiting),
    fun k hk hk' => ?_⟩
  rw [hsdu.2.2 k hk', hsau.2.2 k hk, hstart.storeCell k]

theorem StoreEffect.sameCells {new : Core} {writeAck : Option BusErrno} {c : CommitState}
    (h : StoreEffect cur new writeAck c) : new.SameCells c.new := by
  cases h with
  | quiet _ hs _ => exact hs.toSameCells
  | pushed _ _ _ _ _ _ _ _ _ _ _ _ _ hs => exact hs
  | asked _ _ _ _ _ _ _ _ hs => exact hs
  | waits _ _ _ _ hs => exact hs.toSameCells
  | answered _ _ _ _ _ _ _ _ _ hs => exact hs
  | failed _ _ _ _ _ hs => exact hs

theorem wbRun_stores (s : Core) (bru sau : FlushFeedback) (flush : Bool)
    (ports : List ExecuteWbPack) : s.SameStores (wbRun s bru sau flush ports) := by
  unfold wbRun
  split
  · exact .refl _
  · exact ⟨⟨rfl, rfl, rfl⟩, rfl, rfl⟩

/-- The window rename starts from. -/
theorem cycle_executed (hw : w.Holds g₀) (hl : inp.Legal w) (h : w.core.cycle inp = some r) :
    ∃ s g, Inv s g ∧ executeRun w.core (wbRun r.commit.new (inp.bruFb w.core) (inp.sauFb w.core)
        r.commit.feedback.flush (inp.commit.executeCommitPort.take 8)) inp r.bru r.sau
          r.commit.feedback.flush = some s
      ∧ renameRun w.core s inp.dispatchStall
        (r.commit.feedback.flush || r.bru.flush || r.sau.flush)
        r.commit.feedback.waitingForInterrupt inp.commit.decodeRenameFifo = some r.rename := by
  have hstages := Core.cycle_eq_some h
  obtain ⟨s, hexec, hren⟩ := hstages.execute
  obtain ⟨hack, hrsb⟩ := early_waits w.core inp
  obtain ⟨hsau, hbru⟩ := hstages.feedbacks hw
  have hports : ∀ rev ∈ inp.commit.executeCommitPort, rev.enable = true →
      ∃ f ∈ g₀.flight, ResultOf f.info rev := by
    rw [hw.flight]
    exact hl.results
  have hunits : inp.UnitsOk g₀.flight := by
    rw [hw.flight]
    exact hl.unitsOk
  have hwb : ∀ {g}, Inv r.commit.new g → Inv (wbRun r.commit.new (inp.bruFb w.core)
      (inp.sauFb w.core) r.commit.feedback.flush (inp.commit.executeCommitPort.take 8)) g :=
    fun hi => hi.congr (wbRun_sameWindow ..)
  have hflushed : ∀ g, r.commit.feedback.flush = true → Inv r.commit.new g → ∃ g, Inv s g := by
    intro g hfl hg
    have hg' := hwb hg
    rw [hfl] at hexec hg'
    exact ⟨g, hg'.congr (executeRun_flushed hunits hg' hexec)⟩
  suffices hs : ∃ g, Inv s g by
    obtain ⟨g, hg⟩ := hs
    exact ⟨s, g, hg, hexec, hren⟩
  cases commitRun_effect hw.inv (early_sameWindow w.core inp) hack hrsb hports hstages.commit with
  | retired n hn =>
    have hi := hwb hn.inv
    rw [hn.flush] at hexec hi hbru
    rw [if_neg Bool.false_ne_true] at hbru
    rw [hbru] at hexec
    exact ⟨_, (executeRun_effect hw.inv hi hunits hsau hexec).1⟩
  | dropped n j hn => exact hflushed _ hn.flush hn.inv
  | interrupted _ hinv hfl _ => exact hflushed _ hfl hinv

/-- **What a cycle does to the store side behind commit.** -/
theorem cycle_stores (hw : w.Holds g₀) (hl : inp.Legal w) (h : w.core.cycle inp = some r) :
    r.rename.new.retiredStoreBuffer = r.commit.new.retiredStoreBuffer
      ∧ r.next.isWaitingAck = r.commit.new.isWaitingAck
      ∧ (∀ k, (∀ rev, inp.sau = some rev → rev.storeBufferId ≠ k) →
          (∀ rev, inp.sdu = some rev → rev.storeBufferId ≠ k) →
          (∀ t ∈ r.rename.turns, t.1.storeSlot ≠ some k) → r.next.storeCell k = r.commit.new.storeCell k)
      ∧ ∀ t ∈ r.rename.turns, ∃ s, s.SbTail ∧ StorePlaced s t.2 t.1 := by
  obtain ⟨s, g, hg, hexec, hren⟩ := cycle_executed hw hl h
  have hnext := (Core.cycle_eq_some h).next
  have hturns := renameRun_turns hren
  have hen : ∀ p ∈ inp.commit.decodeRenameFifo, p.enable = true :=
    fun p hp => (hl.shaped p hp).enable
  have htail : s.SbTail := by
    rw [Core.SbTail, hg.sb.wptr, Ptr.fold_id]
    exact Nat.mod_lt _ (by decide)
  have hwb := wbRun_stores r.commit.new (inp.bruFb w.core) (inp.sauFb w.core)
    r.commit.feedback.flush (inp.commit.executeCommitPort.take 8)
  obtain ⟨hr, hwait, hcells⟩ := executeRun_stores hexec
  have hren : r.rename.new.retiredStoreBuffer = s.retiredStoreBuffer
      ∧ r.rename.new.isWaitingAck = s.isWaitingAck := by
    have := (hturns.each (I := fun t => t.SbTail ∧ t.retiredStoreBuffer = s.retiredStoreBuffer
      ∧ t.isWaitingAck = s.isWaitingAck) (Q := fun _ => True) (fun t info t' rev he ht ho => ?_)
      hen ⟨htail, rfl, rfl⟩).1
    · exact this.2
    · have hp := renameOp_stores he ht.1 ho
      exact ⟨⟨(storeCell_writes w.core t info t' rev he ht.1 ho).1, hp.retired.trans ht.2.1,
        hp.waiting.trans ht.2.2⟩, trivial⟩
  refine ⟨?_, ?_, fun k h₁ h₂ h₃ => ?_, ?_⟩
  · rw [hren.1, hr, hwb.retired]
  · rw [hnext]
    exact hren.2.trans (hwait.trans hwb.waiting)
  · have hk := hturns.kept (storeCell_writes w.core) hen htail h₃
    rw [hnext]
    exact hk.trans ((hcells k h₁ h₂).trans (hwb.storeCell k))
  · exact (hturns.each (fun t info t' rev he ht ho =>
      ⟨(storeCell_writes w.core t info t' rev he ht ho).1, t, ht, renameOp_stores he ht ho⟩)
      hen htail).2

/-! ## Owners -/

/-- What rename has written down about the store side, as the components right after it hold it. -/
structure Flight.Placed (f : Flight) : Prop where
  entry : (f.after.rob.buffer f.info.robId.id).storeBufferId = f.info.storeBufferId
  slot : f.info.takesStoreBuffer = true → ∃ p : Ptr, p.id < storeBufferSize
    ∧ f.info.storeBufferId = p.id ∧ f.after.storeBuffer.ring.wptr = p.next storeBufferSize

theorem StorePlaced.placed {info : OpInfo} (hs : s.SbTail) (h : StorePlaced s s' info) (n : Nat) :
    Flight.Placed ⟨info, s', n⟩ :=
  ⟨h.entry, fun ht => ⟨s.storeBuffer.ring.wptr, hs, (h.slot ht).1, (h.slot ht).2.1⟩⟩

/-- **A store in flight owns the entry its place in the window says.** -/
theorem EntryOk.storeSlot {freed : Nat} {released : List Nat} {σ : Shadow} {f : Flight}
    (h : EntryOk s freed released σ f) (hp : f.Placed) (ht : f.info.takesStoreBuffer = true) :
    f.info.storeBufferId = σ.sb % storeBufferSize := by
  obtain ⟨p, hlt, hid, hw⟩ := hp.slot ht
  have hsb := h.recorded.sb
  rw [hw] at hsb
  have hnext := congrArg Ptr.id hsb
  have hadv : (advance f σ).sb = σ.sb + 1 := by simp [advance, ht]
  rw [hadv, Ptr.fold_id] at hnext
  rw [hid]
  unfold Ptr.next at hnext
  by_cases hc : p.id ≥ storeBufferSize - 1
  · rw [if_pos hc] at hnext
    simp only [storeBufferSize] at hlt hnext hc ⊢
    omega
  · rw [if_neg hc] at hnext
    simp only [storeBufferSize] at hlt hnext hc ⊢
    omega

/-- **No two stores in flight own the same entry.** -/
theorem World.Holds.storeSlots (hw : w.Holds g) (hp : ∀ f ∈ w.flight, f.Placed) :
    (w.flight.filterMap fun f => f.info.storeSlot).Nodup := by
  rw [List.nodup_iff_pairwise_ne, List.pairwise_filterMap, ← hw.flight,
    List.pairwise_iff_getElem]
  rw [← hw.flight] at hp
  intro i j hi hj hij a ha b hb he
  have hsplit : ∀ n (hn : n < g.flight.length),
      g.flight = g.flight.take n ++ g.flight[n] :: g.flight.drop (n + 1) := fun n hn => by
    rw [← List.drop_eq_getElem_cons hn, List.take_append_drop]
  have hslot : ∀ n (hn : n < g.flight.length) c, g.flight[n].info.storeSlot = some c →
      g.flight[n].info.takesStoreBuffer = true
        ∧ c = (tip g.base (g.flight.take n)).sb % storeBufferSize := by
    intro n hn c hc
    unfold OpInfo.storeSlot at hc
    split at hc
    · rename_i ht
      rw [← Option.some.inj hc]
      exact ⟨ht, (hw.inv.entry (hsplit n hn)).storeSlot (hp _ (List.getElem_mem hn)) ht⟩
    · cases hc
  obtain ⟨hti, hai⟩ := hslot i hi a ha
  obtain ⟨htj, hbj⟩ := hslot j hj b hb
  have hmono : ∀ (f : Flight) (σ : Shadow), σ.sb ≤ (advance f σ).sb := fun _ _ => Nat.le_add_right _ _
  have hstep : ∀ n (hn : n < g.flight.length), g.flight[n].info.takesStoreBuffer = true →
      (tip g.base (g.flight.take (n + 1))).sb = (tip g.base (g.flight.take n)).sb + 1 := by
    intro n hn ht
    rw [List.take_succ_eq_append_getElem hn, tip, Window.tip_snoc]
    simp [advance, ht]
  have hij' : (tip g.base (g.flight.take (i + 1))).sb ≤ (tip g.base (g.flight.take j)).sb := by
    have htake : g.flight.take j = g.flight.take (i + 1) ++ (g.flight.take j).drop (i + 1) := by
      conv_lhs => rw [← List.take_append_drop (i + 1) (g.flight.take j)]
      rw [List.take_take, Nat.min_eq_left (by omega)]
    rw [htake]
    exact Window.tip_le_tip hmono _ _ _
  have htop : (tip g.base (g.flight.take (j + 1))).sb ≤ g.tip.sb := by
    have := Window.tip_le_tip hmono g.base (g.flight.take (j + 1)) (g.flight.drop (j + 1))
    rwa [List.take_append_drop] at this
  have hbase : g.base.sb ≤ (tip g.base (g.flight.take i)).sb := sb_le_tip ..
  have hsize := hw.inv.sb.size
  rw [hstep j hj htj] at htop
  rw [hstep i hi hti] at hij'
  exact mod_ne_of_window (by omega) (by omega) (hai ▸ hbj ▸ he)

/-- An instruction in flight after a cycle was in flight before, or it has just been renamed. -/
theorem mem_flightAfter {f : Flight} (hf : f ∈ (w.act r).flight) :
    f ∈ w.flight ∨ ∃ t ∈ r.rename.turns, f.info = t.1 ∧ f.after = t.2 := by
  simp only [World.act, World.flightAfter] at hf
  split at hf
  · cases hf
  · rcases List.mem_append.mp hf with hf | hf
    · exact .inl (List.mem_of_mem_drop (List.mem_filter.mp hf).1)
    · obtain ⟨t, ht, rfl⟩ := List.mem_map.mp hf
      exact .inr ⟨t, ht, rfl, rfl⟩

/-- The renamed instructions of a cycle are in flight after it. -/
theorem mem_flight_of_turn (hw : w.Holds g₀) (hl : inp.Legal w) (h : w.core.cycle inp = some r)
    {t : OpInfo × Core} (ht : t ∈ r.rename.turns) :
    r.commit.feedback.flush = false ∧ ∃ f ∈ (w.act r).flight, f.info = t.1 ∧ f.after = t.2 := by
  obtain ⟨s, g, -, -, hren⟩ := cycle_executed hw hl h
  have hnf : r.commit.feedback.flush = false := by
    rw [Bool.eq_false_iff]
    intro hfl
    rw [hfl, Bool.true_or, Bool.true_or] at hren
    rw [((renameRun_port hren).1 rfl).2] at ht
    cases ht
  refine ⟨hnf, ⟨t.1, t.2, (w.released ++ releasedIds r.commit.retired).length⟩, ?_, rfl, rfl⟩
  simp only [World.act, World.flightAfter, hnf, Bool.false_eq_true, if_false]
  exact List.mem_append_right _ (List.mem_map_of_mem ht)

/-- **The ROB still holds what a turn has written** into the entry it allocated. -/
theorem cycle_recorded (hw : w.Holds g₀) (hl : inp.Legal w) (h : w.core.cycle inp = some r)
    (hnext : (w.act r).Holds g) {t : OpInfo × Core} (ht : t ∈ r.rename.turns) :
    r.next.rob.buffer t.1.robId.id = t.2.rob.buffer t.1.robId.id := by
  obtain ⟨s, g', -, -, hren⟩ := cycle_executed hw hl h
  have hnd := hnext.slots_nodup
  simp only [World.act, World.flightAfter, (mem_flight_of_turn hw hl h ht).1, Bool.false_eq_true,
    if_false, List.map_append, List.nodup_append, List.map_map] at hnd
  rw [(Core.cycle_eq_some h).next]
  refine (renameRun_turns hren).recorded (robCell_writes w.core)
    (fun p hp => (hl.shaped p hp).enable) trivial ?_ t ht _ rfl
  rw [List.filterMap_eq_map']
  exact hnd.2.1

/-- **What rename writes and every result keeps** is so of every entry in flight. -/
theorem entries_step {P : OpInfo → RobItem → Prop} (hw : w.Holds g₀) (hl : inp.Legal w)
    (h : w.core.cycle inp = some r) (hnext : (w.act r).Holds g)
    (hnew : ∀ (info : OpInfo) (rev : DecodeRenamePack) (before after : Core) (old new : Nat),
      info.Sends rev → P info (renameRobItem before after rev old new))
    (hresult : ∀ f ∈ w.flight, ∀ rev ∈ inp.commit.executeCommitPort, rev.enable = true →
      rev.robId.id = f.info.robId.id → P f.info (w.core.rob.buffer f.info.robId.id) →
      P f.info ((w.core.rob.buffer f.info.robId.id).applyResult rev))
    (hP : ∀ f ∈ w.flight, P f.info (w.core.rob.buffer f.info.robId.id)) :
    ∀ f ∈ (w.act r).flight, P f.info (r.next.rob.buffer f.info.robId.id) := by
  intro f hf
  cases cycle_survives hw hl h hnext f hf with
  | kept hmem _ hcell =>
    rw [hcell]
    rcases w.core.merged_cases inp.commit.executeCommitPort f.info.robId.id with
      hm | ⟨rev, hrev, hen, hslot, hm⟩
    · rw [hm]
      exact hP f hmem
    · rw [hm]
      exact hresult f hmem rev hrev hen hslot (hP f hmem)
  | renamed t htm hinfo _ =>
    obtain ⟨s, -, hren⟩ := (Core.cycle_eq_some h).execute
    have hturns := (renameRun_turns hren).each (I := fun _ => True)
      (Q := fun t => P t.1 (t.2.rob.buffer t.1.robId.id))
      (fun s info s' rev hrev _ hop => by
        obtain ⟨hsends, before, after, old, new, hbuf⟩ := renameOp_item hrev hop
        refine ⟨trivial, ?_⟩
        dsimp only
        rw [hbuf, Function.update_self]
        exact hnew _ _ _ _ _ _ hsends) (fun p hp => (hl.shaped p hp).enable) trivial
    rw [hinfo, cycle_recorded hw hl h hnext htm]
    exact hturns.2 t htm

end DreamCore
