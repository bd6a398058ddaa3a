import DreamCore.Backend.Allocation
import DreamCore.Backend.StoreWait
import DreamCore.Backend.Truthful

/-!
# What dispatch waits for

Two flags hold dispatch back: behind a CSR instruction, an `mret` or a fence it
waits until commit has reported the one it sent, behind a fence it also waits until
the store buffer is empty. The first wait names an instruction that has left
dispatch and is in flight. The second ends only if the buffer holds no store that
dispatch itself keeps back, and rename can put one there: it fills its port in the
very cycle in which dispatch takes the fence off it.
-/

namespace DreamCore

open Ring

/-! ## What rename takes in a cycle -/

variable {w : World} {g₀ g : Ghost} {inp : CycleInput} {r : CycleResult}

/-- **A pack of rename was let through**, where there was room for it. -/
theorem admitted_of_pack {l : List DecodeRenamePack} (ops : List OpInfo) {width robRoom lqRoom
    sbRoom : Nat} (hkind : l.map DecodeRenamePack.kind = ops.map fun op => op.kind)
    (hpack : PackOk ops) (hwidth : ops.length ≤ width) (hrob : ops.length ≤ robRoom)
    (hlq : ops.countP (fun op => op.takesLoadQueue) ≤ lqRoom)
    (hsb : ops.countP (fun op => op.takesStoreBuffer) ≤ sbRoom) :
    Admitted 0 false width robRoom lqRoom sbRoom l := by
  have hlen : l.length = ops.length := by
    have := congrArg List.length hkind
    rwa [List.length_map, List.length_map] at this
  have hcount : ∀ q : Bool × Bool × Bool × Bool × Bool → Bool,
      l.countP (fun rev => q rev.kind) = ops.countP fun op => q op.kind := by
    intro q
    have := congrArg (List.countP q) hkind
    rwa [List.countP_map, List.countP_map] at this
  have hfenced := hpack.fenced
  refine ⟨hlen ▸ hwidth, hlen ▸ hrob, ?_, ?_, fun rev hrev hw => ⟨rfl, ?_⟩,
    fun hc => absurd hc Bool.false_ne_true, ?_⟩
  · exact (hcount fun k => k.2.2.2.1).trans_le hlq
  · exact (hcount fun k => k.2.2.2.2).trans_le hsb
  · have hmem := List.mem_map_of_mem (f := DecodeRenamePack.kind) hrev
    rw [hkind] at hmem
    obtain ⟨op, hop, he⟩ := List.mem_map.mp hmem
    have hone := (hpack.alone op hop ((congrArg Prod.fst he).trans hw)).1
    rw [hone, List.length_singleton, List.length_eq_one_iff] at hlen
    obtain ⟨x, rfl⟩ := hlen
    rw [List.mem_singleton.mp hrev]
  · have hpair : (ops.map fun op => op.kind).Pairwise
        fun a b => a.2.1 = true → b.2.2.1 = false := by
      rw [List.pairwise_map]
      exact hfenced
    rw [← hkind, List.pairwise_map] at hpair
    exact hpair

/-- The young end after rename, as far as a counter goes. -/
theorem tip_renamed {c : Shadow → Nat} (takes : OpInfo → Bool)
    (hstep : ∀ f σ, c (advance f σ) = c σ + (takes f.info).toNat) (g : Ghost) (k n : Nat)
    (turns : List (OpInfo × Core)) :
    c (tip (g.retireN k).base ((g.retireN k).flight ++ flights n turns))
      = c g.tip + (turns.map Prod.fst).countP takes := by
  rw [tip, Window.tip_append, tip_count _ hstep]
  change c (g.retireN k).tip + _ = _
  rw [g.retireN_tip, flights, List.countP_map, List.countP_map]
  rfl

/-- **What rename takes in a cycle** is what its rules and the free entries let through. -/
theorem cycle_admitted (hw : w.Holds g₀) (hl : inp.Legal w) (h : w.core.cycle inp = some r) :
    Admitted 0 false renameWidth (Fifo.producerGetFreeSpace w.core.rob w.core.rob)
      (Fifo.producerGetFreeSpace w.core.loadQueue.ring w.core.loadQueue.ring)
      (Fifo.producerGetFreeSpace w.core.storeBuffer.ring w.core.storeBuffer.ring)
      (inp.commit.decodeRenameFifo.take r.rename.turns.length) := by
  obtain ⟨s₀, -, hren₀⟩ := (Core.cycle_eq_some h).execute
  obtain ⟨hsau, -⟩ := (Core.cycle_eq_some h).feedbacks hw
  cases hf : r.commit.feedback.flush || r.bru.flush with
  | true =>
    rw [((renameRun_port hren₀).1 (by rw [hf]; rfl)).2]
    exact admitted_nil
  | false =>
    rw [Bool.or_eq_false_iff] at hf
    obtain ⟨s, k, hs, hb, hren⟩ := cycle_renames hw hl h hf.1 hf.2
    have hturns := renameRun_turns hren
    have hroom := hturns.behind hw.inv hs hb hl.shaped
    have hsends := renameRun_sends (fun p hp => (hl.shaped p hp).enable) hren
    have hrob := hw.inv.rob
    have hlq := hw.inv.lq
    have hsb := hw.inv.sb
    have hlen := tip_renamed (c := Shadow.rob) (fun _ => true) (fun _ _ => rfl) g₀ k
      (g₀.retireN k).released.length r.rename.turns
    have hloads := tip_renamed (c := Shadow.lq) (fun i => i.takesLoadQueue) (fun _ _ => rfl) g₀ k
      (g₀.retireN k).released.length r.rename.turns
    have hstores := tip_renamed (c := Shadow.sb) (fun i => i.takesStoreBuffer) (fun _ _ => rfl) g₀
      k (g₀.retireN k).released.length r.rename.turns
    rw [List.countP_true] at hlen
    have hrobRoom := hlen.symm.trans_le hroom.rob.2
    have hlqRoom := hloads.symm.trans_le hroom.lq.2
    have hsbRoom := hstores.symm.trans_le hroom.sb.2
    rw [Fifo.Filled.freeSpace (by decide) ⟨hrob.rptr, hrob.wptr, hrob.le, hrob.size⟩,
      Fifo.Filled.freeSpace (by decide) ⟨hlq.rptr, hlq.wptr, hlq.le, hlq.size⟩,
      Fifo.Filled.freeSpace (by decide) ⟨hsb.rptr, hsb.wptr, hsb.le, hsb.size⟩]
    refine admitted_of_pack (r.rename.turns.map Prod.fst) ?_ (hturns.pack hl.shaped).1 ?_ ?_ ?_ ?_
    · rw [List.map_map, ← List.forall₂_eq_eq_eq, List.forall₂_map_left_iff,
        List.forall₂_map_right_iff]
      exact hsends.flip.imp fun rev t hst => (OpInfo.Sends.kind hst).symm
    · rw [List.length_map]
      exact renameRun_length hren
    · omega
    · omega
    · omega

/-- Rename finds a store among what its rules and the free entries let through. -/
def Core.offersStore (cur : Core) (fifo : List DecodeRenamePack) : Prop :=
  ∃ l, l <+: fifo ∧ Admitted 0 false renameWidth (Fifo.producerGetFreeSpace cur.rob cur.rob)
      (Fifo.producerGetFreeSpace cur.loadQueue.ring cur.loadQueue.ring)
      (Fifo.producerGetFreeSpace cur.storeBuffer.ring cur.storeBuffer.ring) l
    ∧ ∃ rev ∈ l, rev.takesStoreBuffer = true

namespace Pipe

variable {p : Pipe} {inp : PipeInput} {r : CycleResult} {d : Dispatch} {g₀ g : Ghost}
  {sent sent' moved : List OpInfo} {entered entered' : Bool → List OpInfo} {k : Nat}

/-! ## What the flags stand for -/

/-- What has left dispatch, retired or in flight, after a cycle. -/
theorem Moves.left (hm : p.Moves r d sent sent' moved k) (hp : p.Places sent entered) :
    (p.act inp r d).retired ++ sent' = ((p.retired ++ sent.take k)
      ++ Dispatch.kept (p.dispatchInput r) (sent.drop k)) ++ moved := by
  have hret : (p.act inp r d).retired = p.retired ++ sent.take k := by
    change p.retired ++ (p.world.flight.take r.commit.retired.length).map Flight.info = _
    rw [hm.retired, List.map_take, ← Pipe.infos, hp.flight, List.take_append_of_le_length hm.le]
  rw [hret, hm.sent, ← List.append_assoc]

/-- While dispatch waits nothing comes to it. -/
theorem Moves.upstream_closed (hm : p.Moves r d sent sent' moved k) (hp : p.Places sent entered)
    (hw : p.world.Holds g₀) (hc : p.Cycle inp r d)
    (hopen : p.dispatch.opens (p.dispatchInput r) = false) :
    ∀ op ∈ (p.act inp r d).upstream, op ∈ p.upstream := by
  have hstall : inp.cycle.dispatchStall = true := by
    rw [hc.stall, Dispatch.stall_eq, hopen, Bool.not_false, Bool.or_true]
  have hnone : r.rename.turns = [] := by
    obtain ⟨s, -, hren⟩ := (Core.cycle_eq_some hc.core).execute
    obtain ⟨hflushed, hstalled, -⟩ := renameRun_port hren
    cases hf : r.commit.feedback.flush || r.bru.flush || r.sau.flush with
    | true => exact (hflushed hf).2
    | false => exact (hstalled hf hstall).2
  intro op hop
  have hnext := hp.upstream_next hw hc hm.commitFlush hm.turn
  rw [hnone, List.map_nil, List.append_nil] at hnext
  have hmem : op ∈ moved ++ (d.front ++ r.rename.port.getD p.renamePort) :=
    List.mem_append_right _ hop
  rw [hnext] at hmem
  exact List.mem_of_mem_filter hmem

/-- **What the two waiting flags stand for**: an instruction that has left dispatch and is still
in flight; a fence that has left dispatch, with no memory access behind it. -/
structure Named (p : Pipe) (sent : List OpInfo) : Prop where
  inst : p.dispatch.isInstWaiting = true → ∃ op ∈ sent,
    op.robId = p.dispatch.instWaitingRobId ∧ (op.isFence = true ∨ op.waits = true)
  same : p.dispatch.isInstWaiting = true → p.dispatch.isStbufEmptyWaiting = true →
    p.dispatch.instWaitingRobId = p.dispatch.stbufEmptyWaitingRobId
  fence : p.dispatch.isStbufEmptyWaiting = true → ∃ older op younger,
    p.retired ++ sent = older ++ op :: younger ∧ op.isFence = true
      ∧ op.robId = p.dispatch.stbufEmptyWaitingRobId
      ∧ (∀ op' ∈ younger, op'.opUnit.isLsu = false)
      ∧ ∀ op' ∈ younger ++ p.upstream, op'.robId ≠ op.robId

/-- Where neither flag is set there is nothing to say. -/
theorem named_of_idle (hi : p.dispatch.isInstWaiting = false)
    (hs : p.dispatch.isStbufEmptyWaiting = false) : p.Named sent :=
  ⟨fun h => absurd (hi.symm.trans h) Bool.false_ne_true,
    fun h => absurd (hi.symm.trans h) Bool.false_ne_true,
    fun h => absurd (hs.symm.trans h) Bool.false_ne_true⟩

/-- **A cycle keeps it so.** -/
theorem Named.step (hn : p.Named sent) (hp : p.Places sent entered) (hw : p.world.Holds g₀)
    (hc : p.Cycle inp r d) (hm : p.Moves r d sent sent' moved k)
    (hp' : (p.act inp r d).Places sent' entered') (hw' : (p.act inp r d).world.Holds g) :
    (p.act inp r d).Named sent' := by
  have hsq := squashesWaiting_eq hw hc
  have hgate := hm.gate
  cases hgate with
  | closed hopen hwaiting hrob hstbuf =>
    -- what is waited for is not reported and not squashed, so it stays
    have hstays : d.isInstWaiting = true → p.dispatch.isInstWaiting = true
        ∧ p.dispatch.instWaitingOk r.commit.feedback = false
        ∧ r.bru.squashes p.dispatch.instWaitingRobId = false := by
      intro h
      rw [hwaiting, Bool.and_eq_true, Bool.not_eq_true', Bool.or_eq_false_iff, hsq] at h
      exact h
    refine ⟨fun h => ?_, fun h hs => ?_, fun hs => ?_⟩
    · obtain ⟨hi, hok, hnosq⟩ := hstays h
      obtain ⟨op, hop, hid, hkind⟩ := hn.inst hi
      refine ⟨op, ?_, hid.trans (hrob h).symm, hkind⟩
      rw [← List.take_append_drop k sent] at hop
      rcases List.mem_append.mp hop with hop | hop
      · rw [instWaitingOk_of_retires hp hw hc hm hop hid] at hok
        cases hok
      · rw [hm.sent, List.append_nil]
        refine List.mem_filter.mpr ⟨hop, ?_⟩
        rw [hid]
        simpa [dispatchInput] using hnosq
    · obtain ⟨hi, -, -⟩ := hstays h
      obtain ⟨hs', hid, -⟩ := hstbuf hs
      exact (hrob h).trans ((hn.same hi hs').trans hid.symm)
    · obtain ⟨hs', hid, hwhy⟩ := hstbuf hs
      obtain ⟨older, op, younger, hcut, hf, hop, hlsu, hids⟩ := hn.fence hs'
      have hnosq : r.bru.squashes op.robId = false := by
        rw [hop]
        rcases hwhy with h | h
        · obtain ⟨hi, -, hnosq⟩ := hstays h
          rw [← hn.same hi hs']
          exact hnosq
        · rw [← hsq]
          exact h
      rw [← List.take_append_drop k sent, ← List.append_assoc] at hcut
      obtain ⟨older', younger', hcut', hsub⟩ := filter_cut hcut
        (q := fun op => !(p.dispatchInput r).bru.squashes op.robId)
        (by simpa [dispatchInput] using hnosq)
      refine ⟨older', op, younger', ?_, hf, hop.trans hid.symm, fun op' h => hlsu op' (hsub.mem h),
        fun op' h => hids op' ?_⟩
      · rw [hm.left hp, List.append_nil]
        exact hcut'
      · rcases List.mem_append.mp h with h | h
        · exact List.mem_append_left _ (hsub.mem h)
        · exact List.mem_append_right _ (hm.upstream_closed hp hw hc hopen op' h)
  | passing _ _ hi hs _ => exact named_of_idle hi hs
  | inst op _ hwait _ hi hid hs =>
    refine ⟨fun _ => ⟨op, ?_, hid.symm, .inr hwait⟩, fun _ h => ?_, fun h => ?_⟩
    · rw [hm.sent]
      exact List.mem_append_right _ (List.mem_singleton_self _)
    · rw [show (p.act inp r d).dispatch.isStbufEmptyWaiting = _ from hs] at h
      cases h
    · rw [show (p.act inp r d).dispatch.isStbufEmptyWaiting = _ from hs] at h
      cases h
  | fence _ op _ hlast _ _ hid _ hsid =>
    obtain ⟨hf, l₁, l₂, hmoved, -⟩ := lastFence_eq_some hlast
    have hfenced := hm.turn.pack.fenced
    have hcut : sent' = (Dispatch.kept (p.dispatchInput r) (sent.drop k) ++ l₁) ++ op :: l₂ := by
      rw [hm.sent, hmoved, List.append_assoc]
    have hy := hp'.younger hw'
    refine ⟨fun _ => ⟨op, ?_, hid.symm, .inl hf⟩, fun _ _ => hid.trans hsid.symm, fun _ => ?_⟩
    · rw [hcut]
      exact List.mem_append_right _ (List.mem_cons_self ..)
    · refine ⟨(p.act inp r d).retired
        ++ (Dispatch.kept (p.dispatchInput r) (sent.drop k) ++ l₁), op, l₂, ?_, hf, hsid.symm,
        fun op' hop' => ?_, fun op' hop' he => ?_⟩
      · rw [hcut, ← List.append_assoc]
      · rw [hmoved] at hfenced
        exact List.rel_of_pairwise_cons (List.pairwise_append.mp hfenced).2.1 hop' hf
      · rw [hcut, List.append_assoc, List.cons_append] at hy
        exact (List.rel_of_pairwise_cons (List.pairwise_append.mp hy).2.1 hop').ne he

/-- **Every state of a run has its places**, and the waiting flags name what is there. -/
theorem Run.named {P : Pipe → PipeInput → CycleResult → Prop} (h : Run P p) :
    ∃ sent entered, p.Places sent entered ∧ p.Named sent := by
  induction h with
  | init => exact ⟨[], fun _ => [], places_init, named_of_idle rfl rfl⟩
  | @cycle p inp r d hrun hc hP ih =>
    obtain ⟨sent, entered, hp, hn⟩ := ih
    obtain ⟨g₀, hw⟩ := hrun.world.holds
    obtain ⟨g, hw'⟩ := (Run.cycle inp r d hrun hc hP).world.holds
    rcases hp.step hw hw' hc with ⟨hfl, hp'⟩ | ⟨sent', entered', moved, k, hm, -, hp'⟩
    · have hd := hc.dropped hfl
      exact ⟨[], fun _ => [], hp', named_of_idle (by rw [act, hd]) (by rw [act, hd])⟩
    · exact ⟨sent', entered', hp', hn.step hp hw hc hm hp' hw'⟩

/-! ## Stores behind a fence -/

/-- **Dispatch takes a pack with a fence off its port, and rename may take a store** in the same
cycle. -/
structure StoreBehindFence (p : Pipe) (inp : PipeInput) (r : CycleResult) : Prop where
  commitFlush : r.commit.feedback.flush = false
  bruFlush : r.bru.flush = false
  waiting : r.commit.feedback.waitingForInterrupt = false
  taken : p.dispatch.stall (p.dispatchInput r) = false
  fence : ∃ op ∈ p.renamePort, op.isFence = true
  store : p.world.core.offersStore inp.cycle.commit.decodeRenameFifo

/-- Behind a fence that dispatch keeps, or waits with for the store buffer, the port of rename has
no store. -/
def FenceClear (p : Pipe) : Prop :=
  (p.dispatch.isStbufEmptyWaiting = true ∨ ∃ op ∈ p.dispatch.front, op.isFence = true) →
    ∀ op ∈ p.renamePort, op.takesStoreBuffer = false

/-- **A store that is renamed** was let through, in a cycle without flush, stall or interrupt. -/
theorem store_renamed (hw : p.world.Holds g₀) (hc : p.Cycle inp r d) {t : OpInfo × Core}
    (ht : t ∈ r.rename.turns) (hs : t.1.takesStoreBuffer = true) :
    r.commit.feedback.flush = false ∧ r.bru.flush = false
      ∧ r.commit.feedback.waitingForInterrupt = false
      ∧ p.world.core.offersStore inp.cycle.commit.decodeRenameFifo := by
  obtain ⟨s, -, hren⟩ := (Core.cycle_eq_some hc.core).execute
  have hne : r.rename.turns ≠ [] := List.ne_nil_of_mem ht
  have hfl : (r.commit.feedback.flush || r.bru.flush || r.sau.flush) = false := by
    rw [Bool.eq_false_iff]
    exact fun hf => hne ((renameRun_port hren).1 hf).2
  rw [Bool.or_eq_false_iff, Bool.or_eq_false_iff] at hfl
  have hwait : r.commit.feedback.waitingForInterrupt = false := by
    rw [Bool.eq_false_iff]
    intro hwait
    rw [hwait] at hren
    exact hne (renameRun_waiting hren)
  obtain ⟨rev, hrev, hsend⟩ := mem_left_of_forall₂
    (renameRun_sends (fun p hp => (hc.legal.cycle.shaped p hp).enable) hren) ht
  refine ⟨hfl.1.1, hfl.1.2, hwait, _, List.take_prefix _ _,
    cycle_admitted hw hc.legal.cycle hc.core, rev, hrev, ?_⟩
  rw [← hs]
  exact (congrArg (fun k => k.2.2.2.2) (OpInfo.Sends.kind hsend)).symm

/-- **A cycle keeps the port clear**, unless rename takes a store while dispatch takes a fence. -/
theorem FenceClear.step (hf : p.FenceClear) (hw : p.world.Holds g₀) (hc : p.Cycle inp r d)
    (hm : p.Moves r d sent sent' moved k) (hno : ¬ p.StoreBehindFence inp r) :
    (p.act inp r d).FenceClear := by
  -- a fence dispatch has now was in front of it, or on the port, or it has waited for it before
  have hsource : ((p.act inp r d).dispatch.isStbufEmptyWaiting = true
      ∨ ∃ op ∈ (p.act inp r d).dispatch.front, op.isFence = true) →
      (p.dispatch.isStbufEmptyWaiting = true ∧ p.dispatch.opens (p.dispatchInput r) = false)
        ∨ ∃ op ∈ p.dispatch.front ++ p.dispatch.reads (p.dispatchInput r), op.isFence = true := by
    have hfront : ∀ op ∈ moved ++ d.front,
        op ∈ p.dispatch.front ++ p.dispatch.reads (p.dispatchInput r) := by
      intro op hop
      rw [hm.turn.front] at hop
      exact List.mem_of_mem_filter hop
    rintro (hs | ⟨op, hop, hfence⟩)
    · have hgate := hm.gate
      cases hgate with
      | closed hopen _ _ hstbuf => exact .inl ⟨(hstbuf hs).1, hopen⟩
      | passing _ _ _ hs' _ =>
        rw [show d.isStbufEmptyWaiting = true from hs] at hs'
        cases hs'
      | inst _ _ _ _ _ _ hs' =>
        rw [show d.isStbufEmptyWaiting = true from hs] at hs'
        cases hs'
      | fence _ op _ hlast _ _ _ _ _ =>
        obtain ⟨hfence, l₁, l₂, hmoved, -⟩ := lastFence_eq_some hlast
        refine .inr ⟨op, hfront op (List.mem_append_left _ ?_), hfence⟩
        rw [hmoved]
        simp
    · exact .inr ⟨op, hfront op (List.mem_append_right _ hop), hfence⟩
  intro hwhy op hop
  have hsource := hsource hwhy
  obtain ⟨s, -, hren⟩ := (Core.cycle_eq_some hc.core).execute
  obtain ⟨hflushed, hstalled, hfree⟩ := renameRun_port hren
  change op ∈ r.rename.port.getD p.renamePort at hop
  cases hfl : r.commit.feedback.flush || r.bru.flush || r.sau.flush with
  | true =>
    rw [(hflushed hfl).1] at hop
    cases hop
  | false =>
    cases hst : inp.cycle.dispatchStall with
    | true =>
      rw [(hstalled hfl hst).1] at hop
      refine hf (hsource.imp And.left ?_) op hop
      rw [Dispatch.reads, ← hc.stall, hst, if_pos rfl, List.append_nil]
      exact id
    | false =>
      have hstall : p.dispatch.stall (p.dispatchInput r) = false := hc.stall.symm.trans hst
      have hidle := hstall
      rw [Dispatch.stall_eq, Bool.or_eq_false_iff, Bool.or_eq_false_iff] at hidle
      rw [hfree hfl hst] at hop
      obtain ⟨t, ht, rfl⟩ := List.mem_map.mp hop
      rw [Bool.eq_false_iff]
      intro hs
      obtain ⟨hcf, hbf, hwait, hoffer⟩ := store_renamed hw hc ht hs
      refine hno ⟨hcf, hbf, hwait, hstall, ?_, hoffer⟩
      rcases hsource with ⟨-, hopen⟩ | ⟨op, hop, hfence⟩
      · rw [hopen] at hidle
        cases hidle.2
      · refine ⟨op, ?_, hfence⟩
        rw [Dispatch.front, hidle.1.2, if_neg Bool.false_ne_true, List.nil_append, Dispatch.reads,
          hstall, if_neg Bool.false_ne_true] at hop
        exact hop

/-- **As long as rename takes no store while dispatch takes a fence** the port behind a fence is
clear. -/
theorem Run.fenceClear (h : Run (fun p inp r => ¬ p.StoreBehindFence inp r) p) :
    p.FenceClear := by
  induction h with
  | init => exact fun _ op hop => by cases hop
  | @cycle p inp r d hrun hc hP ih =>
    obtain ⟨sent, entered, hp, -⟩ := hrun.named
    obtain ⟨g₀, hw⟩ := hrun.world.holds
    obtain ⟨g, hw'⟩ := (Run.cycle inp r d hrun hc hP).world.holds
    rcases hp.step hw hw' hc with ⟨hfl, -⟩ | ⟨sent', entered', moved, k, hm, -, -⟩
    · intro hwhy
      rw [act, hc.dropped hfl] at hwhy
      rcases hwhy with h | ⟨op, hop, -⟩
      · cases h
      · cases hop
    · exact ih.step hw hc hm hP

/-! ## The waits of dispatch can end -/

/-- **Dispatch waits for nothing that it holds back.** -/
structure WaitsEnd (p : Pipe) : Prop where
  /-- While it waits for the store buffer, the entries in use belong to stores in flight that are
  older than the fence. -/
  stores : p.dispatch.isStbufEmptyWaiting = true → ∃ older op younger,
    p.program = older ++ op :: younger ∧ op.isFence = true
      ∧ op.robId = p.dispatch.stbufEmptyWaitingRobId ∧ (∀ op' ∈ younger, op'.robId ≠ op.robId)
      ∧ ∀ slot ∈ p.world.storesInUse, ∃ st ∈ older.drop p.retired.length,
        st.storeSlot = some slot
  /-- The instruction it waits for is in flight and has left dispatch. -/
  inst : p.dispatch.isInstWaiting = true → ∃ op ∈ p.infos, op ∉ p.upstream
    ∧ op.robId = p.dispatch.instWaitingRobId ∧ (op.isFence = true ∨ op.waits = true)
  held : ∀ op ∈ p.upstream,
    (p.dispatch.isInstWaiting = true → op.robId ≠ p.dispatch.instWaitingRobId)
      ∧ (p.dispatch.isStbufEmptyWaiting = true → op.storeSlot = none)

/-- A fence goes to the ALU. -/
theorem isFence_isLsu {w : World} (hw : DreamCore.Reachable w) {f : Flight} (hf : f ∈ w.flight)
    (h : f.info.isFence = true) : f.info.opUnit.isLsu = false := by
  obtain ⟨rev, hrev, hsend⟩ := hw.decoded f hf
  rw [OpInfo.Sends] at hsend
  rw [hsend] at h ⊢
  have hop : (decode rev).op = .fence := by
    simp only [DecodeRenamePack.isFence, Bool.and_eq_true, beq_iff_eq] at h
    exact h.2
  change (decode rev).opUnit.isLsu = false
  rw [(decode_shaped hrev).fence hop]
  rfl

/-- Only a memory access has an entry in the store buffer. -/
theorem storeSlot_of_not_lsu {op : OpInfo} (h : op.opUnit.isLsu = false) :
    op.storeSlot = none := by
  rw [OpInfo.storeSlot, if_neg]
  intro ht
  simp only [DecodeRenamePack.takesStoreBuffer, Bool.and_eq_true, beq_iff_eq] at ht
  rw [ht.2] at h
  cases h

/-- **The waits of dispatch can end**, in every run in which rename takes no store while dispatch
takes a fence. -/
theorem waits_end (h : Run (fun p inp r => ¬ p.StoreBehindFence inp r) p) : p.WaitsEnd := by
  obtain ⟨sent, entered, hp, hn⟩ := h.named
  obtain ⟨g, hw⟩ := h.world.holds
  have hheld : p.dispatch.isStbufEmptyWaiting = true → ∀ op ∈ p.upstream, op.storeSlot = none := by
    intro hs op hop
    have hbusy := (hp.ok.waiting (.inr hs)).1
    rw [upstream, Dispatch.front, hbusy, if_neg Bool.false_ne_true, List.nil_append] at hop
    rw [OpInfo.storeSlot, h.fenceClear (.inl hs) op hop]
    rfl
  refine ⟨fun hs => ?_, fun hi => ?_, fun op hop => ⟨fun hi => ?_, fun hs => hheld hs op hop⟩⟩
  · obtain ⟨older, op, younger, hcut, hf, hid, hlsu, hids⟩ := hn.fence hs
    refine ⟨older, op, younger ++ p.upstream, ?_, hf, hid, hids, fun slot hslot => ?_⟩
    · rw [program, hp.flight, ← List.append_assoc, hcut, List.append_assoc, List.cons_append]
    · rw [h.world.storesInUse] at hslot
      obtain ⟨f, hmem, hslot⟩ := List.mem_filterMap.mp hslot
      have hinfo : f.info ∈ sent ++ p.upstream := by
        rw [← hp.flight]
        exact List.mem_map_of_mem hmem
      have hsent : f.info ∈ sent := by
        rcases List.mem_append.mp hinfo with hi | hi
        · exact hi
        · rw [hheld hs _ hi] at hslot
          cases hslot
      refine ⟨f.info, ?_, hslot⟩
      have hdrop := congrArg (List.drop p.retired.length) hcut
      rw [List.drop_left, List.drop_append] at hdrop
      rw [hdrop] at hsent
      rcases List.mem_append.mp hsent with hi | hi
      · exact hi
      · have hno : f.info.opUnit.isLsu = false := by
          rcases List.mem_cons.mp (List.mem_of_mem_drop hi) with he | hi
          · exact isFence_isLsu h.world hmem (he ▸ hf)
          · exact hlsu _ hi
        rw [storeSlot_of_not_lsu hno] at hslot
        cases hslot
  · obtain ⟨op, hop, hid, hkind⟩ := hn.inst hi
    refine ⟨op, ?_, fun hup => hp.not_upstream hw hop hup rfl, hid, hkind⟩
    rw [hp.flight]
    exact List.mem_append_left _ hop
  · obtain ⟨op', hop', hid, -⟩ := hn.inst hi
    rw [← hid]
    exact hp.not_upstream hw hop' hop

/-! ## A store dispatch keeps back -/

/-- `fence`, and `sw x0, 0(x0)` in the cycle after it. -/
def fenceStoreRun : List (Pipe → PipeInput) :=
  [fetches [plainPack 0x80000000 0x0ff0000f], fetches [plainPack 0x80000004 0x00002023]]

/-- The state in which dispatch has sent the fence and the store is on the port of rename. -/
def storeKept : Pipe := (Pipe.play fenceStoreRun Pipe.init).getD Pipe.init

theorem storeKept_reachable : storeKept.Reachable := by
  have hpack : ∀ pc value, ∀ q ∈ [plainPack pc value], q.FetchOk := by
    intro pc value q hq
    rw [List.mem_singleton.mp hq]
    exact plainPack_ok ..
  obtain ⟨p, hp⟩ : ∃ p, Pipe.play fenceStoreRun Pipe.init = some p :=
    Option.isSome_iff_exists.mp (by decide +kernel)
  rw [storeKept, hp, Option.getD_some]
  refine Run.play _ ?_ .init hp
  intro inp hinp p
  simp only [fenceStoreRun, List.mem_cons, List.not_mem_nil, or_false] at hinp
  rcases hinp with rfl | rfl
  · exact ⟨fetches_legal (hpack _ _) p, fun _ => trivial⟩
  · exact ⟨fetches_legal (hpack _ _) p, fun _ => trivial⟩

/-- **The entry the fence waits for belongs to the store behind it**, which dispatch keeps back. -/
theorem storeKept_stuck : ¬ ∀ p : Pipe, p.Reachable → p.WaitsEnd := by
  intro h
  have hwait : storeKept.dispatch.isStbufEmptyWaiting = true := by decide +kernel
  have hslots : storeKept.world.storesInUse = [0] := by decide +kernel
  have hprogram : storeKept.program.map (fun op => op.isFence) = [true, false] := by
    decide +kernel
  obtain ⟨older, op, younger, hcut, hf, -, -, hstores⟩ :=
    (h storeKept storeKept_reachable).stores hwait
  rw [hcut, List.map_append, List.map_cons, hf] at hprogram
  obtain ⟨st, hst, -⟩ := hstores 0 (by rw [hslots]; exact List.mem_singleton_self 0)
  -- nothing is older than the fence
  cases older with
  | nil =>
    rw [List.drop_nil] at hst
    cases hst
  | cons x older => cases older <;> simp at hprogram

/-- `sw x0, 0(x0)` and `fence` behind it. -/
def storeFenceRun : List (Pipe → PipeInput) :=
  [fetches [plainPack 0x80000000 0x00002023, plainPack 0x80000004 0x0ff0000f], fetches []]

/-- Dispatch waits for the store before the fence. -/
theorem waits_end_storeFence : ∃ p : Pipe, p.dispatch.isStbufEmptyWaiting = true
    ∧ p.world.storesInUse = [0] ∧ p.WaitsEnd := by
  have hpacks : ∀ q ∈ [plainPack 0x80000000 0x00002023, plainPack 0x80000004 0x0ff0000f],
      q.FetchOk := by
    intro q hq
    simp only [List.mem_cons, List.not_mem_nil, or_false] at hq
    rcases hq with rfl | rfl <;> exact plainPack_ok ..
  obtain ⟨p, hp⟩ : ∃ p, Pipe.play storeFenceRun Pipe.init = some p :=
    Option.isSome_iff_exists.mp (by decide +kernel)
  have hstate : (Pipe.play storeFenceRun Pipe.init).map (fun p =>
      (p.dispatch.isStbufEmptyWaiting, p.world.storesInUse)) = some (true, [0]) := by
    decide +kernel
  rw [hp, Option.map_some, Option.some.injEq, Prod.mk.injEq] at hstate
  obtain ⟨p₁, h₁, h₂⟩ := Option.bind_eq_some_iff.mp hp
  obtain ⟨r, d, hc, rfl⟩ := step_eq_some (fetches_legal hpacks _) h₁
  refine ⟨p, hstate.1, hstate.2, waits_end (Run.play _ ?_ (.cycle _ r d .init hc ?_) h₂)⟩
  · -- in the second cycle rename finds nothing
    intro inp hinp p
    rw [List.mem_singleton.mp hinp]
    refine ⟨fetches_legal (by simp) p, fun r hno => ?_⟩
    obtain ⟨l, hl, -, rev, hrev, -⟩ := hno.store
    rw [List.prefix_nil.mp hl] at hrev
    cases hrev
  · -- in the first the port of rename is empty
    intro hno
    obtain ⟨op, hop, -⟩ := hno.fence
    cases hop

end Pipe

end DreamCore
