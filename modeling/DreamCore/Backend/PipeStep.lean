import DreamCore.Backend.Pipe

/-!
# Where the instructions in flight are

Read from the old end to the young end, the window is what dispatch has sent out,
then the pack it keeps, then the rename port. What it has sent out splits by class
into what has entered the issue queue of the class and what still waits for it, in
program order. A cycle moves the three cuts, and nothing else.
-/

namespace DreamCore

open Ring

namespace Pipe

variable {p : Pipe} {inp : PipeInput} {r : CycleResult} {d : Dispatch} {g g₀ : Ghost}
  {sent : List OpInfo} {entered : Bool → List OpInfo}

/-- What dispatch has not sent out yet. -/
def upstream (p : Pipe) : List OpInfo := p.dispatch.front ++ p.renamePort

/-- What waits for the issue queue of a class, behind dispatch. -/
def waiting (p : Pipe) (c : Bool) : List OpInfo :=
  (p.stage c).held ++ (p.dispatch.port c ++ p.dispatch.held c)

/-- The issue queue of a class. -/
def queue (p : Pipe) (c : Bool) : List OpInfo := (p.stage c).queue (issueQueueSize c)

/-- The instructions that have not issued. -/
def unissued (p : Pipe) (ops : List OpInfo) : List OpInfo :=
  ops.filter fun op => !decide (op.robId ∈ p.issued)

/-- **Every instruction in flight has one place.** Dispatch has sent out `sent`, and of that
`entered` has reached the issue queues. -/
structure Places (p : Pipe) (sent : List OpInfo) (entered : Bool → List OpInfo) : Prop where
  ok : p.dispatch.Ok
  port : PackOk p.renamePort
  flight : p.infos = sent ++ p.upstream
  sent : ∀ c, ofClass c sent = entered c ++ p.waiting c
  queue : ∀ c, (p.queue c).Perm (p.unissued (entered c))
  upstream : ∀ op ∈ p.upstream, op.robId ∉ p.issued
  waiting : ∀ c, ∀ op ∈ p.waiting c, op.robId ∉ p.issued
  finished : ∀ f ∈ p.world.flight, (p.world.core.rob.buffer f.info.robId.id).finish = true →
    f.info.robId ∈ p.issued

theorem places_init : Pipe.init.Places [] fun _ => [] where
  ok := ⟨fun h => absurd h Bool.false_ne_true, fun _ => ⟨rfl, rfl, rfl⟩,
    fun h => absurd h Bool.false_ne_true⟩
  port := packOk_nil
  flight := rfl
  sent := fun c => by cases c <;> rfl
  queue := fun c => by
    have : Pipe.init.queue c = [] := by simp [Pipe.queue, Pipe.init, IssueStage.queue]
    rw [this]
    exact .nil
  upstream := by simp [Pipe.upstream, Pipe.init, Dispatch.front]
  waiting := fun c => by
    cases c <;> simp [Pipe.waiting, Pipe.init, Dispatch.port, Dispatch.held, IssueStage.held]
  finished := by simp [Pipe.init, World.init]

/-! ## Ages -/

/-- `op'` is younger than `op`. -/
def Younger (op op' : OpInfo) : Prop := op'.robId.younger op.robId = true

theorem infos_younger (hw : p.world.Holds g) : p.infos.Pairwise Younger := by
  rw [infos, List.pairwise_map]
  exact hw.ages

theorem Younger.ne {op op' : OpInfo} (h : Younger op op') : op'.robId ≠ op.robId := by
  intro he
  rw [Younger, he, Ptr.younger_irrefl] at h
  cases h

theorem robIds_nodup {ops : List OpInfo} (h : ops.Pairwise Younger) :
    (ops.map OpInfo.robId).Nodup := by
  rw [List.nodup_iff_pairwise_ne, List.pairwise_map]
  exact h.imp fun hy he => hy.ne he.symm

theorem ofClass_younger {ops : List OpInfo} (c : Bool) (h : ops.Pairwise Younger) :
    (ofClass c ops).Pairwise Younger := by
  rw [ofClass, List.pairwise_map]
  refine (h.filter _).imp fun {op op'} hy => ?_
  rw [Younger, OpInfo.toIssue_robId, OpInfo.toIssue_robId]
  exact hy

theorem mem_ofClass {op : OpInfo} {c : Bool} {ops : List OpInfo} (h : op ∈ ofClass c ops) :
    ∃ op' ∈ ops, op'.toIssue = op ∧ op'.opUnit.isLsu = c := by
  obtain ⟨op', hop, rfl⟩ := List.mem_map.mp h
  obtain ⟨hmem, hc⟩ := List.mem_filter.mp hop
  exact ⟨op', hmem, rfl, by simpa using hc⟩

/-- Two members of a list of distinct instructions with one ROB id are the same. -/
theorem eq_of_robId {ops : List OpInfo} (h : ops.Pairwise Younger) {op op' : OpInfo} (hop : op ∈ ops)
    (hop' : op' ∈ ops) (he : op.robId = op'.robId) : op = op' :=
  List.inj_on_of_nodup_map (robIds_nodup h) hop hop' he

/-- Cutting a list in two ways, where the inner pieces differ in kind. -/
theorem append_cut {α : Type} {a b x y : List α} {P : α → Prop} (h : a ++ b = x ++ y)
    (ha : ∀ u ∈ a, P u) (hy : ∀ u ∈ y, ¬ P u) : ∃ e, x = a ++ e ∧ b = e ++ y := by
  rcases List.append_eq_append_iff.mp h with ⟨e, hx, hb⟩ | ⟨e, hx, hb⟩
  · exact ⟨e, hx, hb⟩
  · cases e with
    | nil => exact ⟨[], by simpa using hx.symm, by simpa using hb.symm⟩
    | cons u e =>
      refine absurd (ha u ?_) (hy u ?_)
      · rw [hx]
        simp
      · rw [hb]
        simp

/-- A member of a list that a filter keeps, and what is behind it. -/
theorem filter_cut {α : Type} {a b l₁ l₂ : List α} {x : α} {q : α → Bool}
    (h : a ++ b = l₁ ++ x :: l₂) (hx : q x = true) :
    ∃ l₁' l₂', a ++ b.filter q = l₁' ++ x :: l₂' ∧ l₂'.Sublist l₂ := by
  rcases List.append_eq_append_iff.mp h with ⟨e, rfl, hb⟩ | ⟨e, rfl, he⟩
  · refine ⟨a ++ e.filter q, l₂.filter q, ?_, List.filter_sublist⟩
    rw [hb, List.filter_append, List.filter_cons_of_pos hx, List.append_assoc]
  · cases e with
    | nil =>
      rw [List.append_nil, List.nil_append] at *
      refine ⟨l₁, l₂.filter q, ?_, List.filter_sublist⟩
      rw [← he, List.filter_cons_of_pos hx]
    | cons y e =>
      obtain ⟨rfl, rfl⟩ := List.cons.inj he
      exact ⟨l₁, e ++ b.filter q, by simp, List.Sublist.append_left List.filter_sublist _⟩

theorem kept_ofClass (inp : DispatchInput) (c : Bool) (ops : List OpInfo) :
    ofClass c (Dispatch.kept inp ops) = Dispatch.kept inp (ofClass c ops) := by
  simp only [ofClass, Dispatch.kept, List.filter_map, List.filter_filter, Function.comp_def,
    OpInfo.toIssue_robId]
  congr 1
  exact List.filter_congr fun op _ => Bool.and_comm _ _

/-! ## What has retired -/

/-- What is unissued is not finished, so what retires has been sent out. -/
theorem Places.retired (hp : p.Places sent entered) {k : Nat} (hk : k ≤ p.world.flight.length)
    (hfin : ∀ f ∈ p.world.flight.take k,
      (p.world.core.rob.buffer f.info.robId.id).finish = true) :
    k ≤ sent.length ∧ ∀ op ∈ sent.take k, op.robId ∈ p.issued := by
  have hall : ∀ op ∈ p.infos.take k, op.robId ∈ p.issued := by
    intro op hop
    rw [infos, ← List.map_take] at hop
    obtain ⟨f, hf, rfl⟩ := List.mem_map.mp hop
    exact hp.finished f (List.mem_of_mem_take hf) (hfin f hf)
  have hlen : k ≤ sent.length := by
    by_contra hlt
    have hlen : sent.length < p.infos.length := by
      rw [infos, List.length_map]
      omega
    -- the first instruction dispatch has not sent out would have retired
    have hmem : p.infos[sent.length] ∈ p.infos.take k := by
      rw [List.mem_take_iff_getElem]
      exact ⟨sent.length, by omega, rfl⟩
    refine hp.upstream _ ?_ (hall _ hmem)
    have hup : p.infos[sent.length]? = p.upstream[0]? := by
      rw [hp.flight, List.getElem?_append_right (Nat.le_refl _), Nat.sub_self]
    rw [List.getElem?_eq_getElem hlen] at hup
    exact List.mem_of_getElem? hup.symm
  refine ⟨hlen, fun op hop => hall op ?_⟩
  rw [hp.flight, List.take_append_of_le_length hlen]
  exact hop

/-- **The oldest instructions of a class** have all entered, when they have issued. -/
theorem Places.cut (hp : p.Places sent entered) {k : Nat}
    (hret : ∀ op ∈ sent.take k, op.robId ∈ p.issued) (c : Bool) :
    ∃ e, entered c = ofClass c (sent.take k) ++ e ∧ ofClass c (sent.drop k) = e ++ p.waiting c := by
  have h : ofClass c (sent.take k) ++ ofClass c (sent.drop k) = entered c ++ p.waiting c := by
    rw [← ofClass_append, List.take_append_drop, hp.sent]
  refine append_cut (P := fun op => op.robId ∈ p.issued) h (fun op hop => ?_)
    (fun op hop => hp.waiting c op hop)
  obtain ⟨op', hop', rfl, -⟩ := mem_ofClass hop
  rw [OpInfo.toIssue_robId]
  exact hret op' hop'

/-! ## Under a flush of the branch unit -/

theorem Places.younger (hp : p.Places sent entered) (hw : p.world.Holds g₀) :
    (sent ++ p.upstream).Pairwise Younger := by
  rw [← hp.flight]
  exact infos_younger hw

/-- **What has left dispatch is not in front of it.** -/
theorem Places.not_upstream (hp : p.Places sent entered) (hw : p.world.Holds g₀) {op op' : OpInfo}
    (hop : op ∈ sent) (hop' : op' ∈ p.upstream) : op'.robId ≠ op.robId :=
  ((List.pairwise_append.mp (hp.younger hw)).2.2 op hop op' hop').ne

/-- **What dispatch drops unseen is younger than the branch**, which has issued. -/
theorem Places.squashed (hp : p.Places sent entered) (hw : p.world.Holds g₀)
    (hc : p.Cycle inp r d) : p.dispatch.Squashed (p.dispatchInput r) := by
  intro hflush op hop
  obtain ⟨-, hbru⟩ := (Core.cycle_eq_some hc.core).feedbacks hw
  have hfb : r.bru = inp.cycle.bruFb p.world.core := by
    cases hfl : r.commit.feedback.flush with
    | false => rw [hbru, hfl]; rfl
    | true =>
      rw [show (p.dispatchInput r).bru = r.bru from rfl, hbru, hfl] at hflush
      cases hflush
  have hflush' : (inp.cycle.bruFb p.world.core).flush = true := by
    rw [← hfb]
    exact hflush
  obtain ⟨f, hf, rev, hrev, hopnd, hunit, hid⟩ := hc.legal.cycle.flushing hflush'
  have hissued : f.info.robId ∈ p.issued := by
    rw [← hopnd.robId]
    exact hc.legal.branch rev hrev
  have hinfo : f.info ∈ sent ++ p.upstream := by
    rw [← hp.flight]
    exact List.mem_map_of_mem hf
  have hsent : f.info ∈ sent := by
    rcases List.mem_append.mp hinfo with h | h
    · exact h
    · exact absurd hissued (hp.upstream _ h)
  have hage := hp.younger hw
  suffices hy : op.robId.younger f.info.robId = true by
    rw [show (p.dispatchInput r).bru = r.bru from rfl, hfb, FlushFeedback.squashes, hflush', hid, hy]
    rfl
  rw [List.append_assoc, List.mem_append, List.mem_append] at hop
  rcases hop with (hop | hop) | hop
  · exact (List.pairwise_append.mp hage).2.2 _ hsent _ (List.mem_append_left _ hop)
  · exact (List.pairwise_append.mp hage).2.2 _ hsent _ (List.mem_append_right _ hop)
  · -- behind dispatch, the branch has entered its queue and what is still waiting has not
    have hclass : f.info.toIssue ∈ ofClass false sent := by
      refine List.mem_map_of_mem (List.mem_filter.mpr ⟨hsent, ?_⟩)
      have : f.info.opUnit = .bru := hopnd.bru.mp hunit
      rw [this]
      rfl
    have hord := ofClass_younger false (List.pairwise_append.mp hage).1
    rw [hp.sent] at hord hclass
    have hent : f.info.toIssue ∈ entered false := by
      rcases List.mem_append.mp hclass with h | h
      · exact h
      · refine absurd ?_ (hp.waiting false _ h)
        rw [OpInfo.toIssue_robId]
        exact hissued
    have hwait : op ∈ p.waiting false := List.mem_append_right _ hop
    have hy := (List.pairwise_append.mp hord).2.2 _ hent _ hwait
    rw [Younger, OpInfo.toIssue_robId] at hy
    exact hy

/-! ## The cuts after a cycle -/

/-- A flush that commit does not overrule, as dispatch and the issue stages see it. -/
theorem kept_infos (k : Nat) (r : CycleResult) (p : Pipe) :
    (((p.world.flight.drop k).filter fun f => !r.bru.squashes f.info.robId).map Flight.info)
      = Dispatch.kept (p.dispatchInput r) (p.infos.drop k) := by
  rw [Dispatch.kept, infos, ← List.map_drop, List.filter_map]
  rfl

/-- **How the first cut moves**: what has retired leaves at the old end, what the branch unit
squashes at the young end, and `moved` is what dispatch lets go. -/
structure Moves (p : Pipe) (r : CycleResult) (d : Dispatch) (sent sent' moved : List OpInfo) (k : Nat) :
    Prop where
  commitFlush : r.commit.feedback.flush = false
  retired : r.commit.retired.length = k
  le : k ≤ sent.length
  finished : ∀ f ∈ p.world.flight.take k,
    (p.world.core.rob.buffer f.info.robId.id).finish = true
  sent : sent' = Dispatch.kept (p.dispatchInput r) (sent.drop k) ++ moved
  turn : p.dispatch.Turn d (p.dispatchInput r) moved
  gate : p.dispatch.Gate d (p.dispatchInput r) moved

/-- What retires has issued. -/
theorem Moves.issued {sent' moved : List OpInfo} {k : Nat} (hm : p.Moves r d sent sent' moved k)
    (hp : p.Places sent entered) : ∀ op ∈ sent.take k, op.robId ∈ p.issued := by
  refine (hp.retired ?_ hm.finished).2
  have hlen := congrArg List.length hp.flight
  rw [infos, List.length_map, List.length_append] at hlen
  have := hm.le
  omega

/-- **What rename leaves on its port** after a cycle joins what dispatch did not take. -/
theorem Places.upstream_next (hp : p.Places sent entered) (hw : p.world.Holds g₀)
    (hc : p.Cycle inp r d) (hflush : r.commit.feedback.flush = false) {moved : List OpInfo}
    (hturn : p.dispatch.Turn d (p.dispatchInput r) moved) :
    moved ++ (d.front ++ r.rename.port.getD p.renamePort)
      = Dispatch.kept (p.dispatchInput r) p.upstream ++ r.rename.turns.map Prod.fst := by
  obtain ⟨s, -, hren⟩ := (Core.cycle_eq_some hc.core).execute
  obtain ⟨hsau, -⟩ := (Core.cycle_eq_some hc.core).feedbacks hw
  obtain ⟨hflushed, hstalled, hfree⟩ := renameRun_port hren
  rw [hflush, hsau, Bool.false_or, Bool.or_false] at hflushed hstalled hfree
  rw [← List.append_assoc, hturn.front, Pipe.upstream]
  cases hb : r.bru.flush with
  | true =>
    -- all of it is squashed, and rename starts over
    obtain ⟨hport, hturns⟩ := hflushed hb
    have hall := hp.squashed hw hc hb
    have hnil : ∀ ops, (∀ op ∈ ops, op ∈ p.dispatch.front ++ p.renamePort) →
        Dispatch.kept (p.dispatchInput r) ops = [] := by
      intro ops hsub
      refine Dispatch.kept_eq_nil fun op hop => hall op ?_
      exact List.mem_append_left _ (List.mem_append_left _ (hsub op hop))
    have hreads : ∀ op ∈ p.dispatch.front ++ p.dispatch.reads (p.dispatchInput r),
        op ∈ p.dispatch.front ++ p.renamePort := by
      intro op hop
      unfold Dispatch.reads at hop
      split at hop
      · rw [List.append_nil] at hop
        exact List.mem_append_left _ hop
      · exact hop
    rw [hnil _ hreads, hnil _ fun op hop => hop, hport, hturns]
    rfl
  | false =>
    have hkept : ∀ ops, Dispatch.kept (p.dispatchInput r) ops = ops :=
      fun ops => Dispatch.kept_of_flush hb ops
    rw [hkept, hkept, Dispatch.reads, ← hc.stall]
    cases hst : inp.cycle.dispatchStall with
    | true =>
      obtain ⟨hport, hturns⟩ := hstalled hb hst
      rw [hport, hturns]
      simp
    | false =>
      rw [hfree hb hst]
      rfl

/-- The pack on the port of rename is in order. -/
theorem Places.port_next (hp : p.Places sent entered) (hc : p.Cycle inp r d) :
    PackOk (r.rename.port.getD p.renamePort) := by
  obtain ⟨s, -, hren⟩ := (Core.cycle_eq_some hc.core).execute
  have hpack := ((renameRun_turns hren).pack hc.legal.cycle.shaped).1
  obtain ⟨hflushed, hstalled, hfree⟩ := renameRun_port hren
  cases hf : r.commit.feedback.flush || r.bru.flush || r.sau.flush with
  | true =>
    rw [(hflushed hf).1]
    exact packOk_nil
  | false =>
    cases hst : inp.cycle.dispatchStall with
    | true =>
      rw [(hstalled hf hst).1]
      exact hp.port
    | false =>
      rw [hfree hf hst]
      exact hpack

/-! ## The issue queues after a cycle -/

/-- The instructions of one class have different ROB ids, in the queue as in the program. -/
theorem Places.queue_nodup (hp : p.Places sent entered) (hw : p.world.Holds g₀) (c : Bool) :
    ((p.queue c).map OpInfo.robId).Nodup := by
  have hord := ofClass_younger c (List.pairwise_append.mp (hp.younger hw)).1
  rw [hp.sent] at hord
  have hent := (List.pairwise_append.mp hord).1
  have hun := robIds_nodup (hent.filter fun op => !decide (op.robId ∈ p.issued))
  exact (hp.queue c).map OpInfo.robId |>.nodup_iff.mpr hun

/-- **What issues for good in a cycle** has entered its queue and has not issued before. -/
theorem Places.leaving (hp : p.Places sent entered) {id : Ptr} (h : id ∈ p.leaving inp) :
    ∃ c, ∃ op ∈ entered c, op.robId = id
      ∧ id ∈ (p.stage c).left (issueQueueSize c) (inp.choice c) := by
  have hleft : ∀ c, id ∈ (p.stage c).left (issueQueueSize c) (inp.choice c) →
      ∃ op ∈ entered c, op.robId = id := by
    intro c hid
    obtain ⟨i, hi, rfl⟩ := List.mem_map.mp hid
    have hmem : (p.stage c).item i ∈ p.queue c := by
      refine List.mem_map_of_mem (List.mem_filter.mpr ?_)
      obtain ⟨hi, hv⟩ := List.mem_filter.mp hi
      rw [Bool.and_eq_true] at hv
      exact ⟨hi, hv.1⟩
    exact ⟨_, List.mem_of_mem_filter ((hp.queue c).mem_iff.mp hmem), rfl⟩
  rcases List.mem_append.mp h with h | h
  · obtain ⟨op, hop, hid⟩ := hleft false h
    exact ⟨false, op, hop, hid, h⟩
  · obtain ⟨op, hop, hid⟩ := hleft true h
    exact ⟨true, op, hop, hid, h⟩

/-- An instruction that has entered a queue was sent out. -/
theorem Places.entered_sent (hp : p.Places sent entered) {c : Bool} {op : OpInfo}
    (h : op ∈ entered c) : ∃ x ∈ sent, x.toIssue = op ∧ x.opUnit.isLsu = c := by
  refine mem_ofClass (c := c) ?_
  rw [hp.sent]
  exact List.mem_append_left _ h

theorem Places.waiting_sent (hp : p.Places sent entered) {c : Bool} {op : OpInfo}
    (h : op ∈ p.waiting c) : ∃ x ∈ sent, x.toIssue = op ∧ x.opUnit.isLsu = c := by
  refine mem_ofClass (c := c) ?_
  rw [hp.sent]
  exact List.mem_append_right _ h

/-- **What dispatch still has does not issue.** -/
theorem Places.upstream_stays (hp : p.Places sent entered) (hw : p.world.Holds g₀) {op : OpInfo}
    (h : op ∈ p.upstream) : op.robId ∉ p.leaving inp := by
  intro hid
  obtain ⟨c, op', hop', he, -⟩ := hp.leaving hid
  obtain ⟨x, hx, rfl, -⟩ := hp.entered_sent hop'
  rw [OpInfo.toIssue_robId] at he
  exact hp.not_upstream hw hx h he.symm

/-- **What waits for its queue does not issue.** -/
theorem Places.waiting_stays (hp : p.Places sent entered) (hw : p.world.Holds g₀) {c : Bool}
    {op : OpInfo} (h : op ∈ p.waiting c) : op.robId ∉ p.leaving inp := by
  intro hid
  have hage := (List.pairwise_append.mp (hp.younger hw)).1
  obtain ⟨c', op', hop', he, -⟩ := hp.leaving hid
  obtain ⟨x, hx, rfl, hxc⟩ := hp.entered_sent hop'
  obtain ⟨y, hy, rfl, hyc⟩ := hp.waiting_sent h
  rw [OpInfo.toIssue_robId, OpInfo.toIssue_robId] at he
  obtain rfl := eq_of_robId hage hx hy he
  obtain rfl : c' = c := hxc.symm.trans hyc
  have hord := ofClass_younger c' hage
  rw [hp.sent] at hord
  exact ((List.pairwise_append.mp hord).2.2 _ hop' _ h).ne rfl

theorem mem_issued_act {id : Ptr} : id ∈ (p.act inp r d).issued ↔
    (id ∈ p.issued ∨ id ∈ p.leaving inp) ∧ ∃ f ∈ p.world.survivors r, f.info.robId = id := by
  simp only [act, List.mem_filter, List.mem_append, List.any_eq_true, beq_iff_eq]

/-- What has not issued and does not, still has not. -/
theorem not_issued_act {id : Ptr} (h : id ∉ p.issued) (hl : id ∉ p.leaving inp) :
    id ∉ (p.act inp r d).issued := by
  intro hc
  rcases (mem_issued_act.mp hc).1 with hc | hc
  · exact h hc
  · exact hl hc

/-- What the issue stage of a class takes into its queue in a cycle, in order. -/
def taken (p : Pipe) (inp : PipeInput) (r : CycleResult) (c : Bool) : List OpInfo :=
  (p.stage c).taken (issueQueueSize c) (inp.choice c) (p.dispatch.issuePort c) r.bru r.sau

/-- **One class after a cycle.** The stage takes `taken`, and the order is kept. -/
theorem Places.class_next (hp : p.Places sent entered) (hw : p.world.Holds g₀)
    (hc : p.Cycle inp r d) {sent' moved : List OpInfo} {k : Nat}
    (hm : p.Moves r d sent sent' moved k) (c : Bool) :
    ∃ e, entered c = ofClass c (sent.take k) ++ e
      ∧ ofClass c sent'
        = (Dispatch.kept (p.dispatchInput r) e ++ p.taken inp r c) ++ (p.act inp r d).waiting c
      ∧ ((p.act inp r d).queue c).Perm ((p.queue c).filter (fun op =>
          !decide (op.robId ∈ (p.stage c).left (issueQueueSize c) (inp.choice c))
            && !r.bru.squashes op.robId) ++ p.taken inp r c)
      ∧ (∀ op ∈ p.taken inp r c, op ∈ p.waiting c)
      ∧ ∀ op ∈ (p.act inp r d).waiting c, op ∈ p.waiting c ∨ op ∈ ofClass c moved := by
  obtain ⟨hsau, -⟩ := (Core.cycle_eq_some hc.core).feedbacks hw
  have hret := hm.issued hp
  obtain ⟨e, he, hrest⟩ := hp.cut hret c
  have hspec := @IssueStage.run_spec (issueQueueSize c) (p.stage c) (inp.choice c)
  obtain ⟨htaken, hqueue⟩ := hspec (p.dispatch.issuePort c) hsau (hp.queue_nodup hw c)
  change _ = p.taken inp r c ++ _ at htaken
  change List.Perm _ (_ ++ p.taken inp r c) at hqueue
  have hstage : (p.act inp r d).stage c = (p.stage c).run (issueQueueSize c) (inp.choice c)
      (p.dispatch.issuePort c) r.bru r.sau false := by
    rw [← hm.commitFlush]
    rfl
  have hport : p.dispatch.port c = enabled (p.dispatch.issuePort c) := by cases c <;> rfl
  have hstalled : (p.dispatchInput r).stalled c = (p.stage c).busy := by cases c <;> rfl
  have hflow := hm.turn.flow c
  rw [hstalled] at hflow
  have hoff : ((p.stage c).offered (p.dispatch.issuePort c)).filter
      (fun op => !r.bru.squashes op.robId)
      = Dispatch.kept (p.dispatchInput r)
        (if (p.stage c).busy then (p.stage c).held else p.dispatch.port c) := by
    rw [IssueStage.offered, hport]
    rfl
  rw [hoff] at htaken
  have hsub : ∀ op ∈ p.taken inp r c ++ ((p.act inp r d).stage c).held,
      op ∈ (p.stage c).held ∨ op ∈ p.dispatch.port c := by
    intro op hop
    rw [hstage, ← htaken] at hop
    have hop := List.mem_of_mem_filter hop
    split at hop
    · exact .inl hop
    · exact .inr hop
  have hflow' : ∀ op ∈ d.port c ++ d.held c, op ∈ p.waiting c ∨ op ∈ ofClass c moved := by
    intro op hop
    rw [hflow] at hop
    rcases List.mem_append.mp hop with hop | hop
    · split at hop
      · have := List.mem_of_mem_filter hop
        exact .inl (by simp [Pipe.waiting, this])
      · cases hop
    · rcases List.mem_append.mp hop with hop | hop
      · have := List.mem_of_mem_filter hop
        exact .inl (by simp [Pipe.waiting, this])
      · exact .inr hop
  refine ⟨e, he, ?_, ?_, fun op hop => ?_, fun op hop => ?_⟩
  · rw [hm.sent, ofClass_append, kept_ofClass, hrest, Dispatch.kept_append, List.append_assoc,
      List.append_assoc]
    congr 1
    rw [Pipe.waiting, Pipe.waiting, hstage]
    change _ = p.taken inp r c ++ (_ ++ (d.port c ++ d.held c))
    rw [hflow]
    cases hb : (p.stage c).busy with
    | true =>
      rw [hb, if_pos rfl] at htaken
      rw [if_pos rfl, Dispatch.kept_append, Dispatch.kept_append, htaken]
      simp only [List.append_assoc]
    | false =>
      have hheld : (p.stage c).held = [] := by simp [IssueStage.held, hb]
      rw [hb, if_neg Bool.false_ne_true] at htaken
      rw [if_neg Bool.false_ne_true, hheld, Dispatch.kept_append, Dispatch.kept_append, htaken]
      simp only [Dispatch.kept_nil, List.nil_append, List.append_assoc]
  · rw [Pipe.queue, hstage]
    exact hqueue
  · rcases hsub op (List.mem_append_left _ hop) with h | h
    · simp [Pipe.waiting, h]
    · simp [Pipe.waiting, h]
  · rw [Pipe.waiting] at hop
    rcases List.mem_append.mp hop with hop | hop
    · rcases hsub op (List.mem_append_right _ hop) with h | h
      · exact .inl (by simp [Pipe.waiting, h])
      · exact .inl (by simp [Pipe.waiting, h])
    · exact hflow' op hop

/-! ## The places after a cycle -/

/-- **A cycle that commit does not flush moves the first cut.** -/
theorem Places.moves (hp : p.Places sent entered) (hw : p.world.Holds g₀) (hc : p.Cycle inp r d)
    (hflush : r.commit.feedback.flush = false) :
    ∃ moved k, p.Moves r d sent (Dispatch.kept (p.dispatchInput r) (sent.drop k) ++ moved) moved k := by
  obtain ⟨hsau, -⟩ := (Core.cycle_eq_some hc.core).feedbacks hw
  obtain ⟨moved, hturn, hgate⟩ := Dispatch.run_turn hp.ok hflush hsau hp.port (hp.squashed hw hc)
    hc.dispatch
  cases cycle_outcome hw hc.legal.cycle hc.core with
  | dropped hfl _ _ =>
    rw [hfl] at hflush
    cases hflush
  | stepped k s hfl hk hret hfin _ _ _ =>
    exact ⟨moved, k, hfl, hret, (hp.retired hk hfin).1, hfin, rfl, hturn, hgate⟩

/-- The window after such a cycle. -/
theorem Moves.flight (hw : p.world.Holds g₀) (hc : p.Cycle inp r d) {sent' moved : List OpInfo}
    {k : Nat} (hm : p.Moves r d sent sent' moved k) :
    (p.act inp r d).world.flight
      = ((p.world.flight.drop k).filter fun f => !r.bru.squashes f.info.robId)
        ++ flights (p.world.released ++ releasedIds r.commit.retired).length r.rename.turns := by
  cases cycle_outcome hw hc.legal.cycle hc.core with
  | dropped hfl _ _ =>
    have := hm.commitFlush
    rw [hfl] at this
    cases this
  | stepped k' s _ _ hret _ hflight _ _ =>
    have hk : k' = k := hret.symm.trans hm.retired
    rw [← hk]
    exact hflight

theorem Moves.infos (hw : p.world.Holds g₀) (hc : p.Cycle inp r d) {sent' moved : List OpInfo}
    {k : Nat} (hm : p.Moves r d sent sent' moved k) :
    (p.act inp r d).infos = Dispatch.kept (p.dispatchInput r) (p.infos.drop k)
      ++ r.rename.turns.map Prod.fst := by
  rw [Pipe.infos, hm.flight hw hc, List.map_append, kept_infos]
  congr 1
  rw [flights, List.map_map]
  rfl

/-- What survives the cycle of the window. -/
theorem Moves.survivors {sent' moved : List OpInfo} {k : Nat}
    (hm : p.Moves r d sent sent' moved k) :
    p.world.survivors r = (p.world.flight.drop k).filter fun f => !r.bru.squashes f.info.robId := by
  rw [World.survivors, hm.commitFlush, hm.retired]
  rfl

/-- **After a cycle that commit flushes** dispatch is as after reset. -/
theorem Cycle.dropped (hc : p.Cycle inp r d) (hflush : r.commit.feedback.flush = true) :
    d = {} := by
  have hrun := hc.dispatch
  rw [Dispatch.run, show (p.dispatchInput r).commit.flush = true from hflush, if_pos rfl] at hrun
  exact (Option.some.inj hrun).symm

/-- **After a cycle that commit flushes** nothing is left anywhere. -/
theorem Places.dropped (hc : p.Cycle inp r d)
    (hflush : r.commit.feedback.flush = true) : (p.act inp r d).Places [] fun _ => [] := by
  have hempty : (p.act inp r d).world.flight = [] := by
    simp [act, World.act, World.flightAfter, hflush]
  have hd := hc.dropped hflush
  have hstage : ∀ c, ((p.act inp r d).stage c).held = [] ∧ (p.act inp r d).queue c = [] := by
    intro c
    have := @IssueStage.run_flushed (issueQueueSize c) (p.stage c) (inp.choice c)
      (p.dispatch.issuePort c) r.bru r.sau
    rw [← hflush] at this
    exact this
  obtain ⟨s, -, hren⟩ := (Core.cycle_eq_some hc.core).execute
  have hport : (p.act inp r d).renamePort = [] := by
    have := ((renameRun_port hren).1 (by rw [hflush]; rfl)).1
    simp [act, this]
  have hfront : (p.act inp r d).upstream = [] := by
    rw [Pipe.upstream, hport]
    simp [act, hd, Dispatch.front]
  have hwait : ∀ c, (p.act inp r d).waiting c = [] := by
    intro c
    rw [Pipe.waiting, (hstage c).1]
    cases c <;> simp [act, hd, Dispatch.port, Dispatch.held]
  refine ⟨?_, ?_, ?_, fun c => ?_, fun c => ?_, ?_, fun c => ?_, ?_⟩
  · change d.Ok
    rw [hd]
    exact places_init.ok
  · rw [hport]
    exact packOk_nil
  · rw [Pipe.infos, hempty, hfront]
    rfl
  · rw [hwait]
    rfl
  · rw [(hstage c).2]
    exact .nil
  · rw [hfront]
    simp
  · rw [hwait]
    simp
  · rw [hempty]
    simp

/-- An entry that is finished after a cycle belongs to an instruction that had issued. -/
theorem Places.finished_after (hp : p.Places sent entered) (hw : p.world.Holds g₀)
    (hc : p.Cycle inp r d) (hw' : (p.act inp r d).world.Holds g) {f : Flight}
    (hf : f ∈ (p.act inp r d).world.flight)
    (hfin : ((p.act inp r d).world.core.rob.buffer f.info.robId.id).finish = true) :
    f.info.robId ∈ p.issued := by
  rw [show (p.act inp r d).world.core = r.next from rfl] at hfin
  cases cycle_survives hw hc.legal.cycle hc.core hw' f hf with
  | renamed t ht hinfo hfresh =>
    rw [hfresh.finish] at hfin
    cases hfin
  | kept hmem hsq hcell =>
    rw [hcell] at hfin
    rcases p.world.core.merged_cases inp.cycle.commit.executeCommitPort f.info.robId.id with
      hm | ⟨rev, hrev, hen, hslot, hm⟩
    · rw [hm] at hfin
      exact hp.finished f hmem hfin
    · rw [hm, RobItem.applyResult, Bool.or_eq_true] at hfin
      rcases hfin with hfin | hlast
      · exact hp.finished f hmem hfin
      · obtain ⟨f', hf', hres⟩ := hc.legal.cycle.results rev hrev hen
        have hff : f' = f := List.inj_on_of_nodup_map hw.slots_nodup hf' hmem (by
          rw [← hres.robId]
          exact hslot)
        rw [← hff, ← hres.robId]
        exact hc.legal.finished rev hrev hen hlast

/-- **What has entered the queues after a cycle** in which `k` instructions have retired: the
rest, as far as it is not squashed, and what the stages take. -/
def Feeds (p : Pipe) (inp : PipeInput) (r : CycleResult) (sent : List OpInfo)
    (entered entered' : Bool → List OpInfo) (k : Nat) : Prop :=
  ∀ c, ∃ e, entered c = ofClass c (sent.take k) ++ e
    ∧ entered' c = Dispatch.kept (p.dispatchInput r) e ++ p.taken inp r c

/-- **After a cycle that commit does not flush** every instruction in flight has a place again. -/
theorem Places.stepped (hp : p.Places sent entered) (hw : p.world.Holds g₀) (hc : p.Cycle inp r d)
    (hw' : (p.act inp r d).world.Holds g) {sent' moved : List OpInfo} {k : Nat}
    (hm : p.Moves r d sent sent' moved k) :
    ∃ entered', p.Feeds inp r sent entered entered' k ∧ (p.act inp r d).Places sent' entered' := by
  have hnext := hp.upstream_next hw hc hm.commitFlush hm.turn
  have hclass := hp.class_next hw hc hm
  choose e hentered hsent hqueue htaken hwaiting using hclass
  have hup : (p.act inp r d).upstream = d.front ++ r.rename.port.getD p.renamePort := rfl
  have hold : p.infos.drop k = sent.drop k ++ p.upstream := by
    rw [hp.flight, List.drop_append_of_le_length hm.le]
  -- what was sent out or is upstream, and stays, is in flight after the cycle
  have hstays : ∀ op ∈ sent.drop k, r.bru.squashes op.robId = false →
      ∃ f ∈ p.world.survivors r, f.info.robId = op.robId := by
    intro op hop hsq
    have hmem : op ∈ p.infos.drop k := by
      rw [hold]
      exact List.mem_append_left _ hop
    rw [infos, ← List.map_drop] at hmem
    obtain ⟨f, hf, rfl⟩ := List.mem_map.mp hmem
    refine ⟨f, ?_, rfl⟩
    rw [hm.survivors]
    exact List.mem_filter.mpr ⟨hf, by simp [hsq]⟩
  -- a renamed instruction has a slot of its own
  have hnew : ∀ op ∈ r.rename.turns.map Prod.fst, op.robId ∉ (p.act inp r d).issued := by
    intro op hop hid
    obtain ⟨-, f, hf, he⟩ := mem_issued_act.mp hid
    have hnd := hw'.slots_nodup
    have hinfos := hm.infos hw hc
    rw [hold, ← hold, ← kept_infos] at hinfos
    have hmap : ((p.act inp r d).world.flight.map fun f => f.info.robId.id)
        = (p.act inp r d).infos.map fun op => op.robId.id := by
      rw [infos, List.map_map]
      rfl
    rw [hmap, hinfos, List.map_append, List.nodup_append] at hnd
    refine hnd.2.2 _ (List.mem_map_of_mem (List.mem_map_of_mem ?_)) _ (List.mem_map_of_mem hop)
      (congrArg Ptr.id he)
    rw [← hm.survivors]
    exact hf
  have hupstream : ∀ op ∈ moved ++ (p.act inp r d).upstream,
      op.robId ∉ (p.act inp r d).issued := by
    intro op hop
    rw [hup, hnext] at hop
    rcases List.mem_append.mp hop with hop | hop
    · have hop := List.mem_of_mem_filter hop
      exact not_issued_act (hp.upstream op hop) (hp.upstream_stays hw hop)
    · exact hnew op hop
  have hkept : ∀ c, ∀ op ∈ Dispatch.kept (p.dispatchInput r) (e c),
      op.robId ∈ (p.act inp r d).issued ↔ op.robId ∈ p.issued
        ∨ op.robId ∈ (p.stage c).left (issueQueueSize c) (inp.choice c) := by
    intro c op hop
    obtain ⟨hop, hsq⟩ := List.mem_filter.mp hop
    have hent : op ∈ entered c := by
      rw [hentered]
      exact List.mem_append_right _ hop
    have hop' : op ∈ ofClass c (sent.drop k) := by
      obtain ⟨e', he', hrest⟩ := hp.cut (hm.issued hp) c
      rw [hentered] at he'
      rw [hrest, ← List.append_cancel_left he']
      exact List.mem_append_left _ hop
    obtain ⟨x, hx, rfl, hxc⟩ := mem_ofClass hop'
    rw [OpInfo.toIssue_robId] at hsq ⊢
    rw [mem_issued_act]
    constructor
    · rintro ⟨hi | hl, -⟩
      · exact .inl hi
      · obtain ⟨c', op', hop', he, hleft⟩ := hp.leaving hl
        obtain ⟨y, hy, rfl, hyc⟩ := hp.entered_sent hop'
        rw [OpInfo.toIssue_robId] at he
        obtain rfl := eq_of_robId (List.pairwise_append.mp (hp.younger hw)).1 hy
          (List.mem_of_mem_drop hx) he
        obtain rfl : c' = c := hyc.symm.trans hxc
        exact .inr hleft
    · intro h
      refine ⟨h.imp id fun hl => ?_, hstays x hx (by simpa [dispatchInput] using hsq)⟩
      cases c with
      | false => exact List.mem_append_left _ hl
      | true => exact List.mem_append_right _ hl
  have hwait : ∀ c, ∀ op ∈ p.waiting c, op.robId ∉ (p.act inp r d).issued := fun c op hop =>
    not_issued_act (hp.waiting c op hop) (hp.waiting_stays hw hop)
  refine ⟨fun c => Dispatch.kept (p.dispatchInput r) (e c) ++ p.taken inp r c,
    fun c => ⟨e c, hentered c, rfl⟩, hm.turn.ok, hp.port_next hc, ?_, hsent, fun c => ?_,
    fun op hop => hupstream op (List.mem_append_right _ hop), fun c op hop => ?_,
    fun f hf hfin => ?_⟩
  · rw [hm.infos hw hc, hold, Dispatch.kept_append, List.append_assoc, ← hnext, hm.sent, hup,
      List.append_assoc]
  · -- what is left in the queue is what has entered and has not issued
    refine (hqueue c).trans ?_
    rw [unissued, List.filter_append]
    have htake : (p.taken inp r c).filter (fun op => !decide (op.robId ∈ (p.act inp r d).issued))
        = p.taken inp r c := by
      rw [List.filter_eq_self]
      intro op hop
      simp [hwait c op (htaken c op hop)]
    rw [htake]
    refine List.Perm.append_right _ (((hp.queue c).filter _).trans ?_)
    rw [unissued, hentered, List.filter_append]
    have hgone : (ofClass c (sent.take k)).filter (fun op => !decide (op.robId ∈ p.issued)) = [] := by
      rw [List.filter_eq_nil_iff]
      intro op hop
      obtain ⟨x, hx, rfl, -⟩ := mem_ofClass hop
      rw [OpInfo.toIssue_robId]
      have := hm.issued hp x hx
      simp [this]
    rw [hgone, List.nil_append, List.filter_filter, Dispatch.kept, List.filter_filter]
    refine List.Perm.of_eq (List.filter_congr fun op hop => ?_)
    cases hsq : r.bru.squashes op.robId with
    | true => simp [dispatchInput, hsq]
    | false =>
      have hiff := hkept c op (List.mem_filter.mpr ⟨hop, by simp [dispatchInput, hsq]⟩)
      by_cases h₁ : op.robId ∈ p.issued
      · simp [h₁, hiff]
      · by_cases h₂ : op.robId ∈ (p.stage c).left (issueQueueSize c) (inp.choice c)
        · simp [h₁, h₂, hiff]
        · simp [h₁, h₂, hiff, dispatchInput, hsq]
  · rcases hwaiting c op hop with hop | hop
    · exact hwait c op hop
    · obtain ⟨x, hx, rfl, -⟩ := mem_ofClass hop
      rw [OpInfo.toIssue_robId]
      exact hupstream x (List.mem_append_left _ hx)
  · have hsplit : f ∈ p.world.survivors r
        ++ flights (p.world.released ++ releasedIds r.commit.retired).length r.rename.turns := by
      rw [hm.survivors, ← hm.flight hw hc]
      exact hf
    rcases List.mem_append.mp hsplit with hsurv | hnew
    · refine mem_issued_act.mpr ⟨.inl ?_, f, hsurv, rfl⟩
      exact hp.finished_after hw hc hw' hf hfin
    · have := (cycle_fresh hw hc.legal.cycle hc.core hw' f hnew hf).finish
      rw [show (p.act inp r d).world.core = r.next from rfl, this] at hfin
      cases hfin

end Pipe

end DreamCore
