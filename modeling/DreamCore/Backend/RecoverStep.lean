import DreamCore.Backend.CommitEffect

/-!
# The execution units and the young end of the window

Of all the units only the branch unit moves the window: it cuts it right behind
the branch whose checkpoint it restores. The checkpoint holds valid bits, not a
map; what makes the cut exact is that the table still knows every map of the
window, which `Inv.rewind` says.

The store address unit has a recovery of its own. It never runs, because the load
it would go back to carries no checkpoint.
-/

namespace DreamCore

open Ring

/-! ## Cutting the window -/

/-- **Cutting the window keeps the invariant**: the young ends of all rings go back to the tip
of what is kept. -/
theorem Inv.cut {s s' : Core} {g : Ghost} {l₁ l₂ : List Flight} (h : Inv s g)
    (hg : g.flight = l₁ ++ l₂)
    (hrob : s'.rob = s.rob.updateWptr (Ptr.fold robSize (tip g.base l₁).rob))
    (hfree : s'.phyIdFreeList.ring
      = { s.phyIdFreeList.ring with rptr := Ptr.fold phyRegNum (tip g.base l₁).free })
    (hret : s'.retireRat = s.retireRat)
    (htab : s'.speculativeRat.phyMapTable = s.speculativeRat.phyMapTable)
    (hval : ∀ p, p < phyRegNum → (s'.speculativeRat.phyMapTableValid p = true ↔
      ∃ a, IsReg a ∧ (tip g.base l₁).map a = p))
    (hck : s'.checkpointBuffer
      = s.checkpointBuffer.updateWptr (Ptr.fold checkpointBufferSize (tip g.base l₁).ck))
    (hlq : s'.loadQueue.ring
      = s.loadQueue.ring.updateWptr (Ptr.fold loadQueueSize (tip g.base l₁).lq))
    (hsb : s'.storeBuffer.ring
      = s.storeBuffer.ring.updateWptr (Ptr.fold storeBufferSize (tip g.base l₁).sb)) :
    Inv s' { g with flight := l₁ } := by
  have htip : g.tip = tip (tip g.base l₁) l₂ := by rw [Ghost.tip, hg, tip, Window.tip_append]
  have hbuf : s'.phyIdFreeList.ring.buffer = s.phyIdFreeList.ring.buffer := by rw [hfree]
  have hle := h.free.le
  have hfreed := h.freed_le
  simp only [archRegNum, phyRegNum] at hfreed
  have hf₁ := free_le_tip g.base l₁
  have hf₂ := free_le_tip (tip g.base l₁) l₂
  have hk₁ := ck_le_tip g.base l₁
  have hk₂ := ck_le_tip (tip g.base l₁) l₂
  have hq₁ := lq_le_tip g.base l₁
  have hq₂ := lq_le_tip (tip g.base l₁) l₂
  have hs₁ := sb_le_tip g.base l₁
  have hs₂ := sb_le_tip (tip g.base l₁) l₂
  have hr₁ := tip_rob g.base l₁
  have hr₂ := tip_rob (tip g.base l₁) l₂
  rw [← htip] at hf₂ hk₂ hq₂ hs₂ hr₂
  have hrs := h.rob.size
  have hks := h.ck.size
  have hqs := h.lq.size
  have hss := h.sb.size
  have hkh := h.ckHead
  refine ⟨?_, ?_, hbuf ▸ h.nodup, hbuf ▸ h.bound, hret ▸ h.retire, ⟨hval, ?_, ?_⟩, ?_, ?_, hkh, ?_,
    ?_, ?_, ?_⟩
  · exact ⟨by rw [hrob]; exact h.rob.rptr, by rw [hrob]; rfl, by simp only [Ghost.tip]; omega,
      by simp only [Ghost.tip]; omega⟩
  · exact ⟨by rw [hfree]; rfl, by rw [hfree]; exact h.free.wptr, by simp only [Ghost.tip]; omega,
      by simp only [Ghost.tip, phyRegNum]; omega⟩
  · intro a ha
    rw [htab]
    exact (h.rewind l₁ l₂ hg a ha).1
  · exact fun a ha => (h.rewind l₁ l₂ hg a ha).2
  · intro l₃ l₄ hl a ha
    rw [htab]
    exact h.rewind l₃ (l₄ ++ l₂) (by rw [hg, ← List.append_assoc]; exact congrArg (· ++ l₂) hl) a ha
  · exact ⟨by rw [hck]; exact h.ck.rptr, by rw [hck]; rfl, by simp only [Ghost.tip]; omega,
      by simp only [Ghost.tip]; omega⟩
  · exact ⟨by rw [hlq]; exact h.lq.rptr, by rw [hlq]; rfl, by simp only [Ghost.tip]; omega,
      by simp only [Ghost.tip]; omega⟩
  · exact ⟨by rw [hsb]; exact h.sb.rptr, by rw [hsb]; rfl, by simp only [Ghost.tip]; omega,
      by simp only [Ghost.tip]; omega⟩
  · intro id
    rw [hlq]
    exact h.lqPlain id
  · exact (h.prefixEntries hg).imp fun _ _ _ _ he =>
      he.congr (by rw [hrob]; rfl) hbuf fun _ => by rw [hck]; rfl

/-! ## The branch unit -/

/-- The branch unit only adds results to the pack it received. -/
@[simp] theorem bruCompute_rev (csr : CsrFile) (rev : ReadregExecutePack) :
    (bruCompute csr rev).toReadregExecutePack = rev := by
  have hout : ∀ op send, (bruOutcome csr rev op send).toReadregExecutePack
      = send.toReadregExecutePack := by
    intro op send
    cases op <;> rfl
  unfold bruCompute
  dsimp only
  split <;> split <;> simp only [hout] <;> rfl

/-- What the feedback of the branch unit says about the branch. -/
theorem bruFeedback_flush {csr : CsrFile} {rev : ReadregExecutePack}
    (h : (bruFeedback (bruCompute csr rev)).flush = true) :
    rev.branchPredictorInfoPack.checkpointIdValid = true := by
  simp only [bruFeedback, Bool.and_eq_true, bruCompute_rev] at h
  exact h.2

/-- The branch whose operands `rev` are, when it has a checkpoint. -/
theorem OperandsOf.branch {f : Flight} {rev : ReadregExecutePack} (h : OperandsOf f.info rev)
    (hb : rev.opUnit = .bru) :
    f.info.opUnit = .bru ∧ rev.branchPredictorInfoPack = f.info.branchPredictorInfoPack := by
  have hu := h.bru.mp hb
  refine ⟨hu, ?_⟩
  rw [h.pack]
  simp [OpInfo.toIssue, hu, OpUnit.isLsu]

/-- **The recovery cuts the window right behind its branch**, wherever that stands in what
commit has left. -/
theorem Inv.recover {cur s s' : Core} {g₀ : Ghost} {k : Nat} {f : Flight}
    {rev : ReadregExecutePack} (hcur : Inv cur g₀) (h : Inv s (g₀.retireN k))
    (hf : f ∈ g₀.flight) (hrev : OperandsOf f.info rev) (hb : rev.opUnit = .bru)
    (hck : rev.branchPredictorInfoPack.checkpointIdValid = true)
    (hr : bruRecover cur s (bruCompute cur.csrFile rev) = some s') :
    ∃ l₁ l₂, (g₀.retireN k).flight = l₁ ++ f :: l₂
      ∧ Inv s' { g₀.retireN k with flight := l₁ ++ [f] } := by
  obtain ⟨l₀, l₂, hl₀⟩ := List.append_of_mem hf
  have he := hcur.entry hl₀
  obtain ⟨hu, hpack⟩ := hrev.branch hb
  have hhas : f.info.hasCheckpoint = true := by
    rw [OpInfo.hasCheckpoint, ← hpack]
    exact hck
  simp only [bruRecover, Option.bind_eq_bind, Option.bind_eq_some_iff, bruCompute_rev] at hr
  obtain ⟨robWptr, hw, fl, hfl, hr⟩ := hr
  rw [hpack, he.checkpointId hhas, Fifo.customerGetItem] at hfl hr
  have hm := he.checkpoint hhas
  rw [hm.free] at hfl
  rw [hrev.robId, he.robId] at hw
  -- the range check of the ROB places the branch in the window that is left
  have hplace : k ≤ l₀.length := by
    unfold Fifo.customerGetNextIdStage at hw
    split at hw
    · rename_i hv
      have htip := g₀.retireN_tip k
      rw [Fifo.customerCheckIdValid, h.rob.rptr, hcur.rob.wptr, ← htip, Ptr.fold_id,
        Fifo.checkIdValid_fold (by decide) h.rob.le h.rob.size] at hv
      obtain ⟨j, hj₁, hj₂, hj₃⟩ := hv
      rw [Ghost.retireN_base, tip_rob] at hj₁
      rw [htip] at hj₂
      have hsize := hcur.rob.size
      have hpos := tip_rob g₀.base l₀
      have hend := tip_rob g₀.base g₀.flight
      have hlen : l₀.length < g₀.flight.length := by rw [hl₀]; simp
      simp only [Ghost.tip] at hsize hj₂
      have hje : (tip g₀.base l₀).rob = j := by
        rcases Nat.lt_trichotomy (tip g₀.base l₀).rob j with hlt | heq | hlt
        · exact absurd hj₃ (mod_ne_of_window hlt (by omega))
        · exact heq
        · exact absurd hj₃.symm (mod_ne_of_window hlt (by omega))
      rw [List.length_take] at hj₁
      omega
    · cases hw
  have hdrop : (g₀.retireN k).flight = l₀.drop k ++ f :: l₂ := by
    rw [Ghost.retireN_flight, hl₀, List.drop_append_of_le_length hplace]
  have htake : g₀.flight.take k ++ l₀.drop k = l₀ := by
    rw [hl₀, List.take_append_of_le_length hplace, List.take_append_drop]
  have htip : tip (g₀.retireN k).base (l₀.drop k ++ [f]) = advance f (tip g₀.base l₀) := by
    rw [Ghost.retireN_base, tip, tip, ← Window.tip_append, ← List.append_assoc, htake,
      Window.tip_snoc]
  have hwptr : robWptr = Ptr.fold robSize (advance f (tip g₀.base l₀)).rob := by
    unfold Fifo.customerGetNextIdStage at hw
    split at hw
    · rw [← Option.some.inj hw, Fifo.staticGetNextIdStage_fold (by decide)]
      rfl
    · cases hw
  refine ⟨l₀.drop k, l₂, hdrop, ?_⟩
  have hnoq : f.info.takesLoadQueue = false ∧ f.info.takesStoreBuffer = false := by
    simp [DecodeRenamePack.takesLoadQueue, DecodeRenamePack.takesStoreBuffer, hu]
  have hlq : (advance f (tip g₀.base l₀)).lq = (tip g₀.base l₀).lq := by simp [advance, hnoq.1]
  have hsb : (advance f (tip g₀.base l₀)).sb = (tip g₀.base l₀).sb := by simp [advance, hnoq.2]
  cases hr
  have hcut : (g₀.retireN k).flight = (l₀.drop k ++ [f]) ++ l₂ := by
    rw [hdrop, List.append_assoc]
    rfl
  refine h.cut hcut ?_ ?_ rfl rfl ?_ ?_ ?_ ?_
  · rw [htip, hwptr]
  · rw [htip]
    exact FreeList.restore_eq_some hfl
  · rw [htip]
    exact hm.valid
  · rw [htip, hm.checkpoint]
  · rw [htip, hlq, hm.loadQueue]
  · rw [htip, hsb, hm.storeBuffer]

/-! ## Ages -/

/-- **Younger means further back in the window.** -/
theorem Inv.younger_iff {s : Core} {g : Ghost} (h : Inv s g) {l₁ l₂ l₁' l₂' : List Flight}
    {f f' : Flight} (hl : g.flight = l₁ ++ f :: l₂) (hl' : g.flight = l₁' ++ f' :: l₂') :
    f'.info.robId.younger f.info.robId = true ↔ l₁.length < l₁'.length := by
  have hsize := h.rob.size
  have hend := tip_rob g.base g.flight
  have hpos := tip_rob g.base l₁
  have hpos' := tip_rob g.base l₁'
  have hlen : l₁.length < g.flight.length := by rw [hl]; simp
  have hlen' : l₁'.length < g.flight.length := by rw [hl']; simp
  simp only [Ghost.tip] at hsize
  rw [(h.entry hl).robId, (h.entry hl').robId, Ptr.younger_fold (by decide) (by omega) (by omega)]
  omega

/-- **What a flush of the branch unit leaves** is the window up to the branch. -/
theorem Inv.filter_squashes {s : Core} {g : Ghost} (h : Inv s g) {l₁ l₂ : List Flight}
    {f : Flight} (hl : g.flight = l₁ ++ f :: l₂) {fb : FlushFeedback} (hfb : fb.flush = true)
    (hid : fb.robId = f.info.robId) :
    g.flight.filter (fun i => !fb.squashes i.info.robId) = l₁ ++ [f] := by
  have hsq : ∀ (l₁' l₂' : List Flight) (f' : Flight), g.flight = l₁' ++ f' :: l₂' →
      (fb.squashes f'.info.robId = true ↔ l₁.length < l₁'.length) := by
    intro l₁' l₂' f' hl'
    rw [FlushFeedback.squashes, hfb, hid, Bool.true_and, h.younger_iff hl hl']
  have hkeep : l₁.filter (fun i => !fb.squashes i.info.robId) = l₁ := by
    rw [List.filter_eq_self]
    intro i hi
    obtain ⟨a, b, rfl⟩ := List.append_of_mem hi
    have := hsq a (b ++ f :: l₂) i (by rw [hl, List.append_assoc, List.cons_append])
    rw [Bool.not_eq_true', Bool.eq_false_iff, Ne, this]
    simp
  have hself : fb.squashes f.info.robId = false := by
    rw [Bool.eq_false_iff, Ne, hsq l₁ l₂ f hl]
    omega
  have hdrop : l₂.filter (fun i => !fb.squashes i.info.robId) = [] := by
    rw [List.filter_eq_nil_iff]
    intro i hi
    obtain ⟨a, b, rfl⟩ := List.append_of_mem hi
    have := hsq (l₁ ++ f :: a) b i (by rw [hl, List.append_assoc, List.cons_append])
    rw [Bool.not_eq_true', Bool.not_eq_false, this]
    simp
  rw [hl, List.filter_append, List.filter_cons, hkeep, hself, hdrop]
  rfl

/-! ## The units that stay inside the window -/

variable {cur s s' : Core}

theorem sauWrite_sameWindow (rev : ReadregExecutePack) : s.SameWindow (sauWrite cur s rev) := by
  unfold sauWrite
  split
  · dsimp only
    split <;> exact ⟨rfl, rfl, rfl, rfl, rfl, rfl, rfl, fun h => h, rfl, rfl⟩
  · exact .refl _

/-- The load a store address finds carries no checkpoint. -/
theorem sauConflict_plain (hp : ∀ id, (s.loadQueue.ring.buffer id).checkpointIdValid = false)
    {rev : ReadregExecutePack} {id : Nat} {item : LoadQueueItem}
    (h : sauConflict cur s rev = some (id, item)) : item.checkpointIdValid = false := by
  simp only [sauConflict, LoadQueue.getConflictItem, Option.map_eq_some_iff, Prod.mk.injEq] at h
  obtain ⟨i, -, -, rfl⟩ := h
  exact hp i

/-- **The store address unit never flushes.** -/
theorem sauFeedback_flush (hp : ∀ id, (s.loadQueue.ring.buffer id).checkpointIdValid = false)
    (rev : ReadregExecutePack) : (sauFeedback cur s rev).flush = false := by
  unfold sauFeedback
  split
  · split
    · rename_i hc
      simp [sauConflict_plain hp hc]
    · rfl
  · rfl

theorem sauRun_sameWindow (hp : ∀ id, (s.loadQueue.ring.buffer id).checkpointIdValid = false)
    {rev : ReadregExecutePack} (h : sauRun cur s rev = some s') : s.SameWindow s' := by
  have hw : s.SameWindow (sauWrite cur s rev) := sauWrite_sameWindow rev
  unfold sauRun at h
  dsimp only at h
  split at h
  · split at h
    · rename_i hc
      simp only [sauConflict_plain hp hc, Bool.false_eq_true, if_false, Option.some.injEq] at h
      exact h ▸ hw
    · exact Option.some.inj h ▸ hw
  · exact Option.some.inj h ▸ hw

theorem sduRun_sameWindow {rev : ReadregExecutePack} (h : sduRun cur s rev = some s') :
    s.SameWindow s' := by
  unfold sduRun at h
  split at h
  · simp only [StoreBuffer.setItem, Option.bind_eq_bind, Option.bind_eq_some_iff] at h
    obtain ⟨_, -, sb, ⟨_, -, hsb⟩, h⟩ := h
    cases hsb
    cases h
    exact ⟨rfl, rfl, rfl, rfl, rfl, rfl, rfl, fun h => h, rfl, rfl⟩
  · exact Option.some.inj h ▸ .refl _

/-- The first level of the load unit, on a load that dispatch stripped of its checkpoint. -/
theorem luAccept_sameWindow {rev : ReadregExecutePack}
    (hrev : rev.branchPredictorInfoPack.checkpointIdValid = false) :
    s.SameWindow (luAccept s rev) := by
  unfold luAccept
  split
  · refine ⟨rfl, rfl, rfl, rfl, rfl, rfl, rfl, fun hp id => ?_, rfl, rfl⟩
    simp only [LoadQueue.writeConflict, Fifo.setItem]
    by_cases h : id = rev.loadQueueId
    · rw [h, Function.update_self]
      exact hrev
    · rw [Function.update_of_ne h]
      exact hp id
  · exact .refl _

/-- What the load unit receives carries no checkpoint. -/
theorem OperandsOf.load {i : OpInfo} {rev : ReadregExecutePack} (h : OperandsOf i rev)
    (hu : rev.opUnit = .lu) : rev.branchPredictorInfoPack.checkpointIdValid = false := by
  have hl : i.opUnit.isLsu = true := by rw [← h.lsu, hu]; rfl
  rw [h.pack]
  simp [OpInfo.toIssue, OpInfo.toLsu, hl]

/-! ## All units -/

/-- What the units are given in one cycle belongs to the window `g`. -/
structure CycleInput.UnitsOk (inp : CycleInput) (fl : List Flight) : Prop where
  bru : ∀ rev, inp.bru = some rev → ∃ f ∈ fl, OperandsOf f.info rev ∧ rev.opUnit = .bru
  lu : ∀ rev, inp.lu = some rev → ∃ f ∈ fl, OperandsOf f.info rev ∧ rev.opUnit = .lu

/-- What the load unit's count of a replay leaves, before it takes the next load. -/
def luReplayed (cur s : Core) (inp : CycleInput) : Core :=
  match inp.luReplay with
  | some id => { s with loadQueue := LoadQueue.addReplayNum cur.loadQueue s.loadQueue id }
  | none => s

theorem luReplayed_sameWindow (inp : CycleInput) : s.SameWindow (luReplayed cur s inp) := by
  unfold luReplayed
  split
  · exact ⟨rfl, rfl, rfl, rfl, rfl, rfl, rfl, fun h => h, rfl, rfl⟩
  · exact .refl _

theorem luTurn_sameWindow {inp : CycleInput} {fl : List Flight} (hok : inp.UnitsOk fl)
    (bru sau : FlushFeedback) (flush : Bool) : s.SameWindow (luTurn cur s inp bru sau flush) := by
  have hreplay : s.SameWindow (luReplayed cur s inp) := luReplayed_sameWindow inp
  unfold luReplayed at hreplay
  unfold luTurn
  dsimp only
  split
  · rename_i rev hrev
    split
    · exact hreplay
    · obtain ⟨f, -, hop, hu⟩ := hok.lu rev hrev
      exact hreplay.trans (luAccept_sameWindow (hop.load hu))
  · exact hreplay

theorem sauTurn_sameWindow (hp : ∀ id, (s.loadQueue.ring.buffer id).checkpointIdValid = false)
    {inp : CycleInput} {bru : FlushFeedback} {flush : Bool}
    (h : sauTurn cur s inp bru flush = some s') : s.SameWindow s' := by
  unfold sauTurn at h
  split at h
  · split at h
    · exact Option.some.inj h ▸ .refl _
    · exact sauRun_sameWindow hp h
  · exact Option.some.inj h ▸ .refl _

theorem sduTurn_sameWindow {inp : CycleInput} {bru sau : FlushFeedback} {flush : Bool}
    (h : sduTurn cur s inp bru sau flush = some s') : s.SameWindow s' := by
  unfold sduTurn at h
  split at h
  · split at h
    · exact Option.some.inj h ▸ .refl _
    · exact sduRun_sameWindow h
  · exact Option.some.inj h ▸ .refl _

/-- Behind the branch unit the window stays as it is. -/
theorem executeRun_rest {s'' : Core} {inp : CycleInput} {fl : List Flight} {g : Ghost}
    (hok : inp.UnitsOk fl) {bru sau : FlushFeedback} {flush : Bool}
    (hinv : Inv s' g)
    (h : ((sauTurn cur (luTurn cur s' inp bru sau flush) inp bru flush).bind fun s₂ =>
      sduTurn cur s₂ inp bru sau flush) = some s'') : s'.SameWindow s'' := by
  obtain ⟨s₂, h₂, h₃⟩ := Option.bind_eq_some_iff.mp h
  have hlu : s'.SameWindow (luTurn cur s' inp bru sau flush) := luTurn_sameWindow hok bru sau flush
  exact (hlu.trans (sauTurn_sameWindow (hlu.lqPlain hinv.lqPlain) h₂)).trans (sduTurn_sameWindow h₃)

/-- **The units after a flush of commit** do nothing to the window. -/
theorem executeRun_flushed {inp : CycleInput} {fl : List Flight} {g : Ghost}
    (hok : inp.UnitsOk fl) {bru sau : FlushFeedback} (hinv : Inv s g)
    (h : executeRun cur s inp bru sau true = some s') : s.SameWindow s' := by
  simp only [executeRun, Option.bind_eq_bind, bruTurn, Option.bind_some] at h
  exact executeRun_rest hok hinv h

/-- The feedback of the branch unit, as the early run computes it. -/
def CycleInput.bruFb (cur : Core) (inp : CycleInput) : FlushFeedback :=
  (inp.bru.map fun rev => bruFeedback (bruCompute cur.csrFile rev)).getD {}

/-- **The units on a window commit has not dropped**: what a flush of the branch unit squashes
is gone, the rest stands. -/
theorem executeRun_effect {inp : CycleInput} {g₀ : Ghost} {k : Nat} (hcur : Inv cur g₀)
    (hinv : Inv s (g₀.retireN k)) (hok : inp.UnitsOk g₀.flight) {sau : FlushFeedback}
    (hsau : sau.flush = false)
    (h : executeRun cur s inp (inp.bruFb cur) sau false = some s') :
    Inv s' { g₀.retireN k with
      flight := (g₀.retireN k).flight.filter fun f => !(inp.bruFb cur).squashes f.info.robId }
    ∧ ((inp.bruFb cur).flush = false → s.SameWindow s')
    ∧ ((inp.bruFb cur).flush = true → ∃ l f,
        (g₀.retireN k).flight.filter (fun f => !(inp.bruFb cur).squashes f.info.robId) = l ++ [f]
          ∧ f ∈ g₀.flight ∧ f.info.robId = (inp.bruFb cur).robId) := by
  simp only [executeRun, Option.bind_eq_bind] at h
  obtain ⟨s₁, h₁, hrest⟩ := Option.bind_eq_some_iff.mp h
  have hkeep : (inp.bruFb cur).flush = false →
      (g₀.retireN k).flight.filter (fun f => !(inp.bruFb cur).squashes f.info.robId)
        = (g₀.retireN k).flight := by
    intro hfl
    rw [List.filter_eq_self]
    intro f _
    simp [FlushFeedback.squashes, hfl]
  suffices hb : Inv s₁ { g₀.retireN k with
      flight := (g₀.retireN k).flight.filter fun f => !(inp.bruFb cur).squashes f.info.robId }
      ∧ ((inp.bruFb cur).flush = false → s₁ = s)
      ∧ ((inp.bruFb cur).flush = true → ∃ l f,
          (g₀.retireN k).flight.filter (fun f => !(inp.bruFb cur).squashes f.info.robId) = l ++ [f]
            ∧ f ∈ g₀.flight ∧ f.info.robId = (inp.bruFb cur).robId) by
    have hw := executeRun_rest hok hb.1 hrest
    exact ⟨hb.1.congr hw, fun hfl => hb.2.1 hfl ▸ hw, hb.2.2⟩
  cases hrev : inp.bru with
  | none =>
    have hfl : (inp.bruFb cur).flush = false := by simp [CycleInput.bruFb, hrev]
    simp only [bruTurn, hrev, Option.some.injEq] at h₁
    rw [hkeep hfl]
    exact ⟨h₁ ▸ hinv, fun _ => h₁.symm, fun hc => by rw [hfl] at hc; cases hc⟩
  | some rev =>
    have hfb : inp.bruFb cur = bruFeedback (bruCompute cur.csrFile rev) := by
      simp [CycleInput.bruFb, hrev]
    have hsq : sau.squashesEqual rev.robId = false := by simp [FlushFeedback.squashesEqual, hsau]
    simp only [bruTurn, hrev, bruRun, hsq, Bool.false_eq_true, if_false] at h₁
    cases hfl : (inp.bruFb cur).flush with
    | false =>
      rw [hfb] at hfl
      simp only [hfl, Bool.false_eq_true, if_false, Option.some.injEq] at h₁
      rw [hkeep (hfb ▸ hfl)]
      exact ⟨h₁ ▸ hinv, fun _ => h₁.symm, fun hc => by cases hc⟩
    | true =>
      have hfl' := hfl
      rw [hfb] at hfl'
      simp only [hfl', if_true] at h₁
      obtain ⟨f, hf, hop, hu⟩ := hok.bru rev hrev
      obtain ⟨l₁, l₂, hl, hinv'⟩ := hcur.recover hinv hf hop hu (bruFeedback_flush hfl') h₁
      have hid : (inp.bruFb cur).robId = f.info.robId := by
        rw [hfb, ← hop.robId]
        simp [bruFeedback]
      rw [hinv.filter_squashes hl hfl hid]
      refine ⟨hinv', (fun hc => by cases hc), fun _ => ⟨l₁, f, rfl, hf, hid.symm⟩⟩

end DreamCore
