import Mathlib.Data.List.Pairwise
import DreamCore.Backend.Serial

/-!
# Delivery to the issue queues

An instruction that rename has sent passes the rename port, dispatch, a port of
dispatch and its issue stage before it is in the issue queue of its class. On the
way it may be kept: with its whole pack in `rev_pack`, with its class in a hold
register of dispatch, or in the hold pack of the issue stage.

The cuts of the window say where everything is, and the places are what is between
two cuts. From there it is a matter of reading off that no instruction is lost,
none is in two places, and none goes back.
-/

namespace DreamCore

open Ring

/-! ## The places -/

/-- The places between rename and the units, the classes apart. -/
inductive Place where
  /-- `rename_dispatch_port`. -/
  | renamePort
  /-- The pack dispatch keeps as a whole. -/
  | revPack
  /-- `hold_integer_issue_pack` and `hold_lsu_issue_pack`. -/
  | hold (lsu : Bool)
  /-- `dispatch_integer_issue_port` and `dispatch_lsu_issue_port`. -/
  | issuePort (lsu : Bool)
  /-- `hold_rev_pack` of the issue stage. -/
  | issueHold (lsu : Bool)
  | queue (lsu : Bool)
  deriving DecidableEq

namespace Place

/-- How far along the chain a place is. -/
def rank : Place → Nat
  | renamePort => 0
  | revPack => 1
  | hold _ => 2
  | issuePort _ => 3
  | issueHold _ => 4
  | queue _ => 5

/-- The class a place is for, where it is for one only. -/
def serves : Place → Option Bool
  | renamePort => none
  | revPack => none
  | hold lsu => some lsu
  | issuePort lsu => some lsu
  | issueHold lsu => some lsu
  | queue lsu => some lsu

/-- The places of a class, from its queue back to its hold register. -/
def ofUnit (lsu : Bool) : List Place := [queue lsu, issueHold lsu, issuePort lsu, hold lsu]

/-- All places, those of the oldest instructions first. -/
def all : List Place := ofUnit false ++ ofUnit true ++ [revPack, renamePort]

theorem mem_all (q : Place) : q ∈ all := by
  cases q with
  | renamePort => simp [all]
  | revPack => simp [all]
  | hold lsu => cases lsu <;> simp [all, ofUnit]
  | issuePort lsu => cases lsu <;> simp [all, ofUnit]
  | issueHold lsu => cases lsu <;> simp [all, ofUnit]
  | queue lsu => cases lsu <;> simp [all, ofUnit]

end Place

theorem OpInfo.toIssue_toIssue (op : OpInfo) : op.toIssue.toIssue = op.toIssue := by
  unfold OpInfo.toIssue
  cases h : op.opUnit.isLsu with
  | false => simp [h]
  | true => simp [h, OpInfo.toLsu]

/-- The instructions of the two classes are all the instructions. -/
theorem ofClass_perm (ops : List OpInfo) :
    (ofClass false ops ++ ofClass true ops).Perm (ops.map OpInfo.toIssue) := by
  rw [ofClass, ofClass, ← List.map_append]
  refine List.Perm.map _ (List.perm_append_comm.trans ?_)
  have hsplit := List.filter_append_perm (fun op : OpInfo => op.opUnit.isLsu == true) ops
  have hneg : ∀ op : OpInfo, (!(op.opUnit.isLsu == true)) = (op.opUnit.isLsu == false) := by
    intro op
    cases op.opUnit.isLsu <;> rfl
  simpa only [hneg] using hsplit

namespace Pipe

variable {p : Pipe} {inp : PipeInput} {r : CycleResult} {d : Dispatch} {g g₀ : Ghost}
  {sent : List OpInfo} {entered : Bool → List OpInfo}

/-- What is in a place. -/
def contents (p : Pipe) : Place → List OpInfo
  | .renamePort => p.renamePort
  | .revPack => p.dispatch.front
  | .hold lsu => p.dispatch.held lsu
  | .issuePort lsu => p.dispatch.port lsu
  | .issueHold lsu => (p.stage lsu).held
  | .queue lsu => p.queue lsu

/-- The ROB ids of the instructions in a place. -/
def ids (p : Pipe) (q : Place) : List Ptr := (p.contents q).map OpInfo.robId

theorem mem_upstream {op : OpInfo} :
    op ∈ p.upstream ↔ op ∈ p.contents .revPack ∨ op ∈ p.contents .renamePort := List.mem_append

theorem mem_waiting {lsu : Bool} {op : OpInfo} : op ∈ p.waiting lsu ↔
    op ∈ p.contents (.issueHold lsu) ∨ op ∈ p.contents (.issuePort lsu)
      ∨ op ∈ p.contents (.hold lsu) := by
  rw [waiting, List.mem_append, List.mem_append]
  rfl

/-! ## Nothing is lost and nothing is there twice -/

/-- **The places of a class** hold what has been sent to the class and has not issued. -/
theorem Places.ofUnit_perm (hp : p.Places sent entered) (lsu : Bool) :
    ((Place.ofUnit lsu).flatMap p.contents).Perm (ofClass lsu (p.unissued sent)) := by
  have hun : ofClass lsu (p.unissued sent) = p.unissued (ofClass lsu sent) := by
    simp only [ofClass, unissued, List.filter_map, List.filter_filter, Function.comp_def,
      OpInfo.toIssue_robId]
    congr 1
    exact List.filter_congr fun op _ => Bool.and_comm _ _
  have hwait : p.unissued (p.waiting lsu) = p.waiting lsu := by
    rw [unissued, List.filter_eq_self]
    intro op hop
    simp [hp.waiting lsu op hop]
  have hplaces : (Place.ofUnit lsu).flatMap p.contents = p.queue lsu ++ p.waiting lsu := by
    simp [Place.ofUnit, contents, Pipe.waiting]
  rw [hun, hp.sent, unissued, List.filter_append, ← unissued, ← unissued, hwait, hplaces]
  exact (hp.queue lsu).append_right _

/-- **All places together** hold the instructions in flight that have not issued. -/
theorem Places.perm (hp : p.Places sent entered) :
    ((Place.all.flatMap p.contents).map OpInfo.toIssue).Perm
      ((p.unissued p.infos).map OpInfo.toIssue) := by
  have hup : p.unissued p.upstream = p.upstream := by
    rw [unissued, List.filter_eq_self]
    intro op hop
    simp [hp.upstream op hop]
  have hinfos : p.unissued p.infos = p.unissued sent ++ p.upstream := by
    rw [hp.flight, unissued, List.filter_append, ← unissued, ← unissued, hup]
  have hplaces : Place.all.flatMap p.contents
      = ((Place.ofUnit false).flatMap p.contents ++ (Place.ofUnit true).flatMap p.contents)
        ++ p.upstream := by
    simp [Place.all, contents, Pipe.upstream]
  have hclass : (((Place.ofUnit false).flatMap p.contents
      ++ (Place.ofUnit true).flatMap p.contents).map OpInfo.toIssue).Perm
        ((p.unissued sent).map OpInfo.toIssue) := by
    have hboth := ((hp.ofUnit_perm false).append (hp.ofUnit_perm true)).trans (ofClass_perm _)
    have hmap := hboth.map OpInfo.toIssue
    rw [List.map_map] at hmap
    have hidem : OpInfo.toIssue ∘ OpInfo.toIssue = OpInfo.toIssue :=
      funext OpInfo.toIssue_toIssue
    rwa [hidem] at hmap
  have happend : ∀ ops : List OpInfo, (ops ++ p.upstream).map OpInfo.toIssue
      = ops.map OpInfo.toIssue ++ p.upstream.map OpInfo.toIssue := fun ops => List.map_append
  rw [hplaces, hinfos, happend, happend]
  exact hclass.append_right _

/-- The ids of what is in the places are those of the instructions that have not issued. -/
theorem Places.ids_perm (hp : p.Places sent entered) :
    (Place.all.flatMap p.ids).Perm ((p.unissued p.infos).map OpInfo.robId) := by
  have hmap := hp.perm.map OpInfo.robId
  have hid : OpInfo.robId ∘ OpInfo.toIssue = OpInfo.robId :=
    funext OpInfo.toIssue_robId
  rw [List.map_map, List.map_map, hid, List.map_flatMap] at hmap
  exact hmap

theorem Places.ids_nodup (hp : p.Places sent entered) (hw : p.world.Holds g) :
    (Place.all.flatMap p.ids).Nodup := by
  have hage : (p.unissued p.infos).Pairwise Younger := (infos_younger hw).filter _
  exact hp.ids_perm.nodup_iff.mpr (robIds_nodup hage)

/-- **No instruction is in two places.** -/
theorem Places.unique (hp : p.Places sent entered) (hw : p.world.Holds g) {q q' : Place} {id : Ptr}
    (h : id ∈ p.ids q) (h' : id ∈ p.ids q') : q = q' := by
  obtain ⟨-, hdisj⟩ := List.nodup_flatMap.mp (hp.ids_nodup hw)
  have : Std.Symm (Function.onFun List.Disjoint p.ids) := ⟨fun _ _ h => h.symm⟩
  by_contra hne
  exact hdisj.forall (Place.mem_all q) (Place.mem_all q') hne h h'

/-- **What is in flight and what the places hold**, in a state whose queues have been entered by
`entered`, in this order. -/
structure Delivered (p : Pipe) (entered : Bool → List OpInfo) : Prop where
  one : ∀ op ∈ p.infos, op.robId ∉ p.issued → ∃! q, op.robId ∈ p.ids q
  once : ∀ q, (p.ids q).Nodup
  only : ∀ q, ∀ op ∈ p.contents q, ∃ op' ∈ p.infos, op'.robId ∉ p.issued
    ∧ op.toIssue = op'.toIssue
  unit : ∀ q lsu, q.serves = some lsu → ∀ op ∈ p.contents q, op.opUnit.isLsu = lsu
  order : ∀ lsu, entered lsu <+: ofClass lsu p.infos
  queue : ∀ lsu, (p.queue lsu).Perm (p.unissued (entered lsu))

theorem Places.delivered (hp : p.Places sent entered) (hw : p.world.Holds g) :
    p.Delivered entered where
  one := by
    intro op hop hissued
    have hmem : op.robId ∈ Place.all.flatMap p.ids := by
      refine hp.ids_perm.mem_iff.mpr (List.mem_map_of_mem (List.mem_filter.mpr ⟨hop, ?_⟩))
      simp [hissued]
    obtain ⟨q, -, hq⟩ := List.mem_flatMap.mp hmem
    exact ⟨q, hq, fun q' hq' => hp.unique hw hq' hq⟩
  once := fun q => (List.nodup_flatMap.mp (hp.ids_nodup hw)).1 q (Place.mem_all q)
  only := by
    intro q op hop
    have hmem : op.toIssue ∈ (Place.all.flatMap p.contents).map OpInfo.toIssue :=
      List.mem_map_of_mem (List.mem_flatMap.mpr ⟨q, Place.mem_all q, hop⟩)
    obtain ⟨op', hop', he⟩ := List.mem_map.mp (hp.perm.mem_iff.mp hmem)
    obtain ⟨hinfo, hissued⟩ := List.mem_filter.mp hop'
    exact ⟨op', hinfo, by simpa using hissued, he.symm⟩
  unit := by
    intro q lsu hq op hop
    have hunit : op ∈ (Place.ofUnit lsu).flatMap p.contents := by
      refine List.mem_flatMap.mpr ⟨q, ?_, hop⟩
      cases q <;> cases hq <;> simp [Place.ofUnit]
    obtain ⟨op', -, rfl, hlsu⟩ := mem_ofClass ((hp.ofUnit_perm lsu).mem_iff.mp hunit)
    rw [OpInfo.toIssue_opUnit]
    exact hlsu
  order := fun lsu => by
    rw [hp.flight, ofClass_append, hp.sent, List.append_assoc]
    exact List.prefix_append _ _
  queue := hp.queue

/-! ## Nothing goes back -/

/-- What dispatch lets go or keeps as a whole was not sent out before. -/
theorem Moves.upstream {sent' moved : List OpInfo} {k : Nat}
    (hm : p.Moves r d sent sent' moved k) {op : OpInfo} (hop : op ∈ moved ++ d.front) :
    op ∈ p.upstream := by
  rw [hm.turn.front] at hop
  rcases List.mem_append.mp (List.mem_of_mem_filter hop) with hop | hop
  · exact List.mem_append_left _ hop
  · unfold Dispatch.reads at hop
    split at hop
    · cases hop
    · exact List.mem_append_right _ hop

/-- **Where an instruction in a place comes from**: rename has just sent it, or it was in a place
no further along. -/
theorem Places.origin (hp : p.Places sent entered) (hw : p.world.Holds g₀) (hc : p.Cycle inp r d)
    {sent' moved : List OpInfo} {k : Nat} (hm : p.Moves r d sent sent' moved k) {q' : Place}
    {op : OpInfo} (hop : op ∈ (p.act inp r d).contents q') :
    op ∈ r.rename.turns.map Prod.fst ∨ ∃ q, op.robId ∈ p.ids q ∧ q.rank ≤ q'.rank := by
  have hat : ∀ {q : Place} {op : OpInfo}, op ∈ p.contents q → op.robId ∈ p.ids q :=
    fun h => List.mem_map_of_mem h
  have hfront : ∀ op ∈ moved ++ d.front, ∃ q, op.robId ∈ p.ids q ∧ q.rank ≤ 1 := by
    intro op hop
    rcases mem_upstream.mp (hm.upstream hop) with hop | hop
    · exact ⟨.revPack, hat hop, Nat.le_refl _⟩
    · exact ⟨.renamePort, hat hop, Nat.zero_le _⟩
  have hmoved : ∀ {lsu : Bool}, ∀ op ∈ ofClass lsu moved, ∃ q, op.robId ∈ p.ids q ∧ q.rank ≤ 1 := by
    intro lsu op hop
    obtain ⟨x, hx, rfl, -⟩ := mem_ofClass hop
    rw [OpInfo.toIssue_robId]
    exact hfront x (List.mem_append_left _ hx)
  have hheld : ∀ {lsu : Bool}, ∀ op ∈ Dispatch.kept (p.dispatchInput r) (p.dispatch.held lsu)
      ++ ofClass lsu moved, ∃ q, op.robId ∈ p.ids q ∧ q.rank ≤ 2 := by
    intro lsu op hop
    rcases List.mem_append.mp hop with hop | hop
    · exact ⟨.hold lsu, hat (List.mem_of_mem_filter hop), Nat.le_refl _⟩
    · obtain ⟨q, hq, hle⟩ := hmoved op hop
      exact ⟨q, hq, by omega⟩
  cases q' with
  | renamePort =>
    obtain ⟨s, -, hren⟩ := (Core.cycle_eq_some hc.core).execute
    obtain ⟨hflushed, hstalled, hfree⟩ := renameRun_port hren
    change op ∈ r.rename.port.getD p.renamePort at hop
    cases hf : r.commit.feedback.flush || r.bru.flush || r.sau.flush with
    | true =>
      rw [(hflushed hf).1] at hop
      cases hop
    | false =>
      cases hst : inp.cycle.dispatchStall with
      | true =>
        rw [(hstalled hf hst).1] at hop
        exact .inr ⟨.renamePort, hat hop, Nat.le_refl _⟩
      | false =>
        rw [hfree hf hst] at hop
        exact .inl hop
  | revPack => exact .inr (hfront op (List.mem_append_right _ hop))
  | hold lsu => exact .inr (hheld op ((hm.turn.held lsu).subset hop))
  | issuePort lsu =>
    have hflow : op ∈ d.port lsu ++ d.held lsu := List.mem_append_left _ hop
    rw [hm.turn.flow] at hflow
    rcases List.mem_append.mp hflow with hflow | hflow
    · split at hflow
      · exact .inr ⟨.issuePort lsu, hat (List.mem_of_mem_filter hflow), Nat.le_refl _⟩
      · cases hflow
    · obtain ⟨q, hq, hle⟩ := hheld op hflow
      exact .inr ⟨q, hq, Nat.le_trans hle (by simp [Place.rank])⟩
  | issueHold lsu =>
    obtain ⟨e, -, -, -, -, hwaiting⟩ := hp.class_next hw hc hm lsu
    rcases hwaiting op (mem_waiting.mpr (.inl hop)) with h | h
    · rcases mem_waiting.mp h with h | h | h
      · exact .inr ⟨_, hat h, Nat.le_refl _⟩
      · exact .inr ⟨_, hat h, by simp [Place.rank]⟩
      · exact .inr ⟨_, hat h, by simp [Place.rank]⟩
    · obtain ⟨q, hq, hle⟩ := hmoved op h
      exact .inr ⟨q, hq, Nat.le_trans hle (by simp [Place.rank])⟩
  | queue lsu =>
    obtain ⟨e, -, -, hqueue, htaken, -⟩ := hp.class_next hw hc hm lsu
    rcases List.mem_append.mp (hqueue.mem_iff.mp hop) with h | h
    · exact .inr ⟨.queue lsu, hat (List.mem_of_mem_filter h), Nat.le_refl _⟩
    · rcases mem_waiting.mp (htaken op h) with h | h | h
      · exact .inr ⟨_, hat h, by simp [Place.rank]⟩
      · exact .inr ⟨_, hat h, by simp [Place.rank]⟩
      · exact .inr ⟨_, hat h, by simp [Place.rank]⟩

/-- **A cycle moves an instruction forward only**, and leaves nothing of what it squashes. -/
structure Forward (p : Pipe) (inp : PipeInput) (r : CycleResult) (d : Dispatch) : Prop where
  onward : ∀ f ∈ p.world.survivors r, ∀ q q', f.info.robId ∈ p.ids q →
    f.info.robId ∈ (p.act inp r d).ids q' → q.rank ≤ q'.rank
  issued : ∀ f ∈ p.world.survivors r, f.info.robId ∈ p.issued →
    f.info.robId ∈ (p.act inp r d).issued
  squashed : ∀ q, ∀ op ∈ (p.act inp r d).contents q, r.bru.squashes op.robId = false
  flushed : r.commit.feedback.flush = true → ∀ q, (p.act inp r d).contents q = []

/-- What survives a cycle that commit does not flush. -/
theorem Moves.mem_survivors {sent' moved : List OpInfo} {k : Nat}
    (hm : p.Moves r d sent sent' moved k) {f : Flight} (hf : f ∈ p.world.survivors r) :
    f.info ∈ Dispatch.kept (p.dispatchInput r) (p.infos.drop k) := by
  rw [hm.survivors] at hf
  rw [← kept_infos]
  exact List.mem_map_of_mem hf

/-- An instruction that survives is not one that rename has just sent. -/
theorem Moves.not_renamed (hw : p.world.Holds g₀) (hw' : (p.act inp r d).world.Holds g)
    (hc : p.Cycle inp r d) {sent' moved : List OpInfo} {k : Nat}
    (hm : p.Moves r d sent sent' moved k) {f : Flight} (hf : f ∈ p.world.survivors r)
    {op : OpInfo} (hop : op ∈ r.rename.turns.map Prod.fst) : f.info.robId ≠ op.robId := by
  have hage := infos_younger hw'
  rw [hm.infos hw hc] at hage
  exact ((List.pairwise_append.mp hage).2.2 _ (hm.mem_survivors hf) op hop).ne.symm

theorem Places.forward (hp : p.Places sent entered) (hw : p.world.Holds g₀)
    (hw' : (p.act inp r d).world.Holds g) (hc : p.Cycle inp r d) : p.Forward inp r d := by
  rcases hp.step hw hw' hc with ⟨hflush, hp'⟩ | ⟨sent', entered', moved, k, hm, -, hp'⟩
  · have hnone : p.world.survivors r = [] := by
      rw [World.survivors, hflush, if_pos rfl]
    have hempty : (p.act inp r d).infos = [] := by
      simp [infos, act, World.act, World.flightAfter, hflush]
    have hcontents : ∀ q, (p.act inp r d).contents q = [] := by
      intro q
      refine List.eq_nil_iff_forall_not_mem.mpr fun op hop => ?_
      obtain ⟨op', hop', -⟩ := (hp'.delivered hw').only q op hop
      rw [hempty] at hop'
      cases hop'
    refine ⟨fun f hf => ?_, fun f hf => ?_, fun q op hop => ?_, fun _ => hcontents⟩
    · rw [hnone] at hf
      cases hf
    · rw [hnone] at hf
      cases hf
    · rw [hcontents] at hop
      cases hop
  · refine ⟨fun f hf q q' hq hq' => ?_, fun f hf hi => mem_issued_act.mpr ⟨.inl hi, f, hf, rfl⟩,
      fun q op hop => ?_, fun hflush => ?_⟩
    · obtain ⟨op, hop, he⟩ := List.mem_map.mp hq'
      rcases hp.origin hw hc hm hop with hnew | ⟨q₀, hq₀, hle⟩
      · exact absurd he.symm (hm.not_renamed hw hw' hc hf hnew)
      · rw [he] at hq₀
        rw [hp.unique hw hq hq₀]
        exact hle
    · obtain ⟨op', hop', -, he⟩ := (hp'.delivered hw').only q op hop
      have hid : op.robId = op'.robId := by
        rw [← OpInfo.toIssue_robId op, he, OpInfo.toIssue_robId]
      rw [hm.infos hw hc] at hop'
      rcases List.mem_append.mp hop' with hkept | hnew
      · have hsq := (List.mem_filter.mp hkept).2
        rw [hid]
        simpa [dispatchInput] using hsq
      · -- rename sends nothing in a cycle in which the branch unit flushes
        obtain ⟨s, -, hren⟩ := (Core.cycle_eq_some hc.core).execute
        cases hb : r.bru.flush with
        | false => simp [FlushFeedback.squashes, hb]
        | true =>
          have hturns := ((renameRun_port hren).1 (by rw [hb, Bool.or_true, Bool.true_or])).2
          rw [hturns] at hnew
          cases hnew
    · have := hm.commitFlush
      rw [hflush] at this
      cases this

/-! ## Whole runs -/

/-- **A run, and what has entered the two queues**: of the instructions in flight, in the order
in which they went in. -/
inductive Fed : Pipe → (Bool → List OpInfo) → Prop where
  | init : Fed Pipe.init fun _ => []
  | cycle {p : Pipe} {entered : Bool → List OpInfo} (inp : PipeInput) (r : CycleResult)
      (d : Dispatch) : Fed p entered → p.Cycle inp r d →
      Fed (p.act inp r d) fun lsu => (entered lsu ++ p.taken inp r lsu).filter fun op =>
        (p.world.survivors r).any fun f => f.info.robId == op.robId

theorem Fed.reachable (h : Fed p entered) : p.Reachable := by
  induction h with
  | init => exact .init
  | cycle inp r d _ hc ih => exact .cycle inp r d ih hc trivial

/-- Of the window, what has not retired and is not squashed survives. -/
theorem Moves.alive (hw : p.world.Holds g₀) {sent' moved : List OpInfo} {k : Nat}
    (hm : p.Moves r d sent sent' moved k) {op : OpInfo} (hop : op ∈ p.infos) :
    ((p.world.survivors r).any fun f => f.info.robId == op.robId) = true
      ↔ op ∈ Dispatch.kept (p.dispatchInput r) (p.infos.drop k) := by
  rw [List.any_eq_true]
  constructor
  · rintro ⟨f, hf, he⟩
    have hkept := hm.mem_survivors hf
    have hinfo : f.info ∈ p.infos := List.mem_of_mem_drop (List.mem_of_mem_filter hkept)
    rw [← eq_of_robId (infos_younger hw) hinfo hop (by simpa using he)]
    exact hkept
  · intro hkept
    rw [← kept_infos, ← hm.survivors] at hkept
    obtain ⟨f, hf, rfl⟩ := List.mem_map.mp hkept
    exact ⟨f, hf, by simp⟩

/-- **What survives of what has entered** is what the cut says. -/
theorem Places.fed (hp : p.Places sent entered) (hw : p.world.Holds g₀)
    (hc : p.Cycle inp r d) {sent' moved : List OpInfo} {k : Nat}
    (hm : p.Moves r d sent sent' moved k) {entered' : Bool → List OpInfo}
    (hfeeds : p.Feeds inp r sent entered entered' k)
    (hp' : (p.act inp r d).Places sent' entered') (lsu : Bool) :
    entered' lsu = (entered lsu ++ p.taken inp r lsu).filter fun op =>
      (p.world.survivors r).any fun f => f.info.robId == op.robId := by
  have hage := hp.younger hw
  have hdrop : p.infos.drop k = sent.drop k ++ p.upstream := by
    rw [hp.flight, List.drop_append_of_le_length hm.le]
  have hin : ∀ x ∈ sent, x ∈ p.infos := fun x hx => by
    rw [hp.flight]
    exact List.mem_append_left _ hx
  obtain ⟨e, he, he'⟩ := hfeeds lsu
  obtain ⟨e₂, he₂, hrest⟩ := hp.cut (hm.issued hp) lsu
  obtain rfl : e = e₂ := List.append_cancel_left (he.symm.trans he₂)
  rw [he', he, List.append_assoc, List.filter_append, List.filter_append]
  -- the retired ones are gone
  have hgone : (ofClass lsu (sent.take k)).filter (fun op =>
      (p.world.survivors r).any fun f => f.info.robId == op.robId) = [] := by
    refine List.filter_eq_nil_iff.mpr fun op hop hal => ?_
    obtain ⟨x, hx, rfl, -⟩ := mem_ofClass hop
    rw [OpInfo.toIssue_robId] at hal
    have hkept := List.mem_of_mem_filter ((hm.alive hw (hin x (List.mem_of_mem_take hx))).mp hal)
    have hsplit : (p.infos.take k ++ p.infos.drop k).Pairwise Younger := by
      rw [List.take_append_drop]
      exact infos_younger hw
    have htake : x ∈ p.infos.take k := by
      rw [hp.flight, List.take_append_of_le_length hm.le]
      exact hx
    exact ((List.pairwise_append.mp hsplit).2.2 x htake x hkept).ne rfl
  -- of the others, those that are not squashed stay
  have hstay : e.filter (fun op => (p.world.survivors r).any fun f => f.info.robId == op.robId)
      = Dispatch.kept (p.dispatchInput r) e := by
    refine List.filter_congr fun op hop => ?_
    have hclass : op ∈ ofClass lsu (sent.drop k) := by
      rw [hrest]
      exact List.mem_append_left _ hop
    obtain ⟨x, hx, rfl, -⟩ := mem_ofClass hclass
    rw [OpInfo.toIssue_robId, Bool.eq_iff_iff, hm.alive hw (hin x (List.mem_of_mem_drop hx)), hdrop,
      Dispatch.kept, List.mem_filter]
    exact and_iff_right (List.mem_append_left _ hx)
  -- what the stage takes was sent out before this cycle
  have htaken : (p.taken inp r lsu).filter
      (fun op => (p.world.survivors r).any fun f => f.info.robId == op.robId)
      = p.taken inp r lsu := by
    refine List.filter_eq_self.mpr fun op hop => ?_
    obtain ⟨-, -, -, -, hwaiting, -⟩ := hp.class_next hw hc hm lsu
    obtain ⟨x, hx, rfl, hlsu⟩ := hp.waiting_sent (hwaiting op hop)
    rw [OpInfo.toIssue_robId, hm.alive hw (hin x hx)]
    have hent : x.toIssue ∈ entered' lsu := by
      rw [he']
      exact List.mem_append_right _ hop
    obtain ⟨x', hx', htoIssue, -⟩ := hp'.entered_sent hent
    have hid : x.robId = x'.robId := by
      rw [← OpInfo.toIssue_robId x, ← htoIssue, OpInfo.toIssue_robId]
    rw [hm.sent] at hx'
    rcases List.mem_append.mp hx' with hx' | hx'
    · obtain ⟨hmem, hsq⟩ := List.mem_filter.mp hx'
      have hsame := eq_of_robId (List.pairwise_append.mp hage).1 hx (List.mem_of_mem_drop hmem) hid
      rw [hsame, hdrop]
      exact List.mem_filter.mpr ⟨List.mem_append_left _ hmem, hsq⟩
    · -- what dispatch lets go in this cycle is younger
      have hup := hm.upstream (List.mem_append_left _ hx')
      exact absurd hid.symm (hp.not_upstream hw hx hup)
  rw [hgone, hstay, htaken, List.nil_append]

/-- The log of a run is the cut of its last state. -/
theorem Fed.places (h : Fed p entered) : ∃ sent, p.Places sent entered := by
  induction h with
  | init => exact ⟨[], places_init⟩
  | @cycle p entered inp r d hrun hc ih =>
    obtain ⟨sent, hp⟩ := ih
    obtain ⟨g₀, hw⟩ := hrun.reachable.world.holds
    obtain ⟨g, hw'⟩ := (Fed.cycle inp r d hrun hc).reachable.world.holds
    rcases hp.step hw hw' hc with ⟨hflush, hp'⟩ | ⟨sent', entered', moved, k, hm, hfeeds, hp'⟩
    · refine ⟨[], ?_⟩
      have hnone : p.world.survivors r = [] := by
        rw [World.survivors, hflush, if_pos rfl]
      simpa [hnone] using hp'
    · refine ⟨sent', ?_⟩
      have hlog := funext (hp.fed hw hc hm hfeeds hp')
      rw [← hlog]
      exact hp'

/-- **Every run delivers.** Each instruction in flight that has not issued is in one place, the
queues are entered in program order, and a cycle moves what it does not squash forward. -/
theorem fed_delivered (h : Fed p entered) : p.Delivered entered
    ∧ ∀ inp r d, p.Cycle inp r d → p.Forward inp r d := by
  obtain ⟨g₀, hw⟩ := h.reachable.world.holds
  obtain ⟨sent, hp⟩ := h.places
  refine ⟨hp.delivered hw, fun inp r d hc => ?_⟩
  obtain ⟨g, hw'⟩ := (Fed.cycle inp r d h hc).reachable.world.holds
  exact hp.forward hw hw' hc

theorem Fed.play (script : List (Pipe → PipeInput))
    (hlegal : ∀ inp ∈ script, ∀ p, (inp p).Legal p) {p p' : Pipe} {entered : Bool → List OpInfo}
    (hp : Fed p entered) (h : Pipe.play script p = some p') : ∃ entered', Fed p' entered' := by
  induction script generalizing p entered with
  | nil =>
    cases h
    exact ⟨entered, hp⟩
  | cons inp script ih =>
    obtain ⟨p₁, h₁, h⟩ := Option.bind_eq_some_iff.mp h
    obtain ⟨r, d, hc, rfl⟩ := step_eq_some (hlegal inp (List.mem_cons_self ..) p) h₁
    exact ih (fun i hi => hlegal i (List.mem_cons_of_mem _ hi)) (.cycle _ r d hp hc) h

/-- `addi x1, x0, 5`, `lw x5, 0(x1)` and `addi x1, x1, 1`. -/
def addLoadAdd : List Fetch2DecodePack :=
  [plainPack 0x80000000 0x00500093, plainPack 0x80000004 0x0000A283,
    plainPack 0x80000008 0x00108093]

/-- The run that brings them to their issue queues, and issues the first two for good. -/
def addLoadAddRun : List (Pipe → PipeInput) :=
  [fetches addLoadAdd, fetches [], fetches [],
    fun _ => { choice := fun _ => { select := fun i => i == 0, confirm := fun _ => true } }]

/-- The state in which only the last waits in its queue. -/
def oneWaits : Pipe := (Pipe.play addLoadAddRun Pipe.init).getD Pipe.init

theorem fed_delivered_oneWaits : ∃ entered, Fed oneWaits entered
    ∧ oneWaits.ids (.queue false) = [⟨2, false⟩]
    ∧ oneWaits.Delivered entered
    ∧ ∀ inp r d, oneWaits.Cycle inp r d → oneWaits.Forward inp r d := by
  have hpacks : ∀ q ∈ addLoadAdd, q.FetchOk := by
    intro q hq
    simp only [addLoadAdd, List.mem_cons, List.not_mem_nil, or_false] at hq
    rcases hq with rfl | rfl | rfl <;> exact plainPack_ok ..
  obtain ⟨p, hp⟩ : ∃ p, Pipe.play addLoadAddRun Pipe.init = some p :=
    Option.isSome_iff_exists.mp (by decide +kernel)
  obtain ⟨entered, hfed⟩ : ∃ entered, Fed oneWaits entered := by
    rw [oneWaits, hp, Option.getD_some]
    refine Fed.play _ (fun inp hinp p => ?_) .init hp
    simp only [addLoadAddRun, List.mem_cons, List.not_mem_nil, or_false] at hinp
    rcases hinp with rfl | rfl | rfl | rfl
    · exact fetches_legal hpacks p
    · exact fetches_legal (by simp) p
    · exact fetches_legal (by simp) p
    · exact ⟨idle_legal p.world, (fun _ h => by cases h), fun _ h => by cases h⟩
  obtain ⟨hdelivered, hforward⟩ := fed_delivered hfed
  exact ⟨entered, hfed, by decide +kernel, hdelivered, hforward⟩

end Pipe

end DreamCore
